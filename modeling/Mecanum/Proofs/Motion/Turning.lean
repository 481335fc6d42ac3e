import Mecanum.Proofs.Motion.Lock
import Mecanum.Proofs.Motion.Mixing

/-!
# The first period of an absolute turn

A turn begins with a loop that is cleared, whatever the controller did before, and no distance can
end it. So its first period ends it at its heading, or sums three terms that have the sign of the
heading error or vanish. Neither the clamps nor the truncation change that sign, so the wheels spin
toward the heading or stand still.
-/
namespace Mecanum

open Binary32

/-- The first output of a cleared loop leans as the error does. -/
theorem Pid.Quiet.leans_output {pid next : Pid} (quiet : pid.Quiet) (kp : 0 ≤ pid.kp)
    (ki : 0 ≤ pid.ki) (kd : 0 ≤ pid.kd) {measurement : Float32}
    (computed : pid.positional measurement = .ok next) {sign : Float.Model.UnpackedFloat.Sign}
    (error : Leans sign (pid.target - measurement)) : Leans sign next.output := by
  obtain ⟨headroom, bound, integral, integral_eq, rfl⟩ := positional_eq_ok computed
  have held : Leans sign integral := by
    rw [integral_eq]
    exact ((Leans.of_isZero sign quiet.integral).add error).cutOff headroom
  have change : Leans sign (pid.target - measurement - pid.lastError) := by
    rw [Binary32.sub_eq_add_neg]
    exact error.add (leans_neg_iff.mpr (.of_isZero _ quiet.lastError))
  exact (((error.mul kp).add (held.mul ki)).add (change.mul kd)).cutOff bound

namespace Motion

open Heading (Snapshot)

/-- The wheels spin in place with the sign of an error, or stand still. -/
structure WheelSpeeds.SpinsToward (error : Float32) (wheels : WheelSpeeds) : Prop where
  left : wheels.rearLeft = wheels.frontLeft
  right : wheels.rearRight = wheels.frontRight
  opposite : wheels.frontLeft = -wheels.frontRight
  side : wheels.frontRight = 0 ∨ 0 < wheels.frontRight ∧ 0 < error ∨
    wheels.frontRight < 0 ∧ error < 0

namespace WheelSpeeds

/-- A spin at a rate that leans as an error does is toward the error. -/
theorem exists_spin {limit : Int} (natural : 0 ≤ limit) (small : limit ≤ 2 ^ 24)
    {rate error : Float32} (leans : ∀ sign, Leans sign error → Leans sign rate) :
    ∃ wheels, spin rate limit = .ok wheels ∧ wheels.SpinsToward error := by
  refine ⟨_, clamped_eq natural .., rfl, rfl, word_neg natural small rate, ?_⟩
  show word limit rate = 0 ∨ 0 < word limit rate ∧ 0 < error ∨ word limit rate < 0 ∧ error < 0
  rcases lt_trichotomy (word limit rate) 0 with below | level | above
  · refine .inr (.inr ⟨below, ?_⟩)
    by_contra other
    have word : 0 ≤ word limit rate :=
      word_leans natural (leans .positive (leans_of_not_lt.1 other))
    omega
  · exact .inl level
  · refine .inr (.inl ⟨above, ?_⟩)
    by_contra other
    have word : 0 ≤ -word limit rate :=
      word_leans natural (leans .negative (leans_of_not_lt.2 other))
    omega

end WheelSpeeds

namespace Controller

/-- Every turn begins with the loop as it was built. -/
theorem Built.turnPid_beginTurn {config : Config} {controller : Controller}
    (built : Built config controller) (angle : Float32) :
    (controller.beginTurn angle).turnPid = .ofGains config.turn :=
  Pid.reset_congr built.turn 0

section Period

variable {controller : Controller} {heading : Float32}

theorem turnTick_near (near : (Heading.shortestError controller.targetHeading heading).abs <
    controller.config.turnThreshold) : controller.turnTick heading =
      .ok ⟨controller.halt, .done, [.headingReached controller.targetHeading]⟩ :=
  if_pos near

/-- Far from the target, a turn steers by the output of its loop. -/
theorem turnTick_far (far : ¬(Heading.shortestError controller.targetHeading heading).abs <
    controller.config.turnThreshold) {turnPid : Pid} {wheels : WheelSpeeds}
    (computed : controller.turnPid.positional
      (-Heading.shortestError controller.targetHeading heading) = .ok turnPid)
    (mixed : WheelSpeeds.mix controller.mode 0 turnPid.output controller.config.wheelLimit =
      .ok wheels) : controller.turnTick heading =
        .ok ⟨{ controller with turnPid := turnPid }, ⟨wheels, false⟩, []⟩ := by
  refine (if_neg far).trans ?_
  exact bind_eq_ok_iff.mpr ⟨turnPid, computed, bind_eq_ok_iff.mpr ⟨wheels, mixed, rfl⟩⟩

end Period

/-- Only the heading can end a turn. -/
theorem tick_beginTurn (controller : Controller) (angle : Float32) (travelled : Int)
    (heading : Float32) : ∃ speed, (controller.beginTurn angle).tick travelled heading =
      { controller.beginTurn angle with currentSpeed := speed }.turnTick heading :=
  ⟨_, rfl⟩

/--
Whatever the controller did before, the first period of an absolute turn ends it exactly if the
heading error is inside the threshold, and otherwise spins toward the heading the shorter way round.
-/
theorem turn_begins_toward {config : Config} (kp : 0 ≤ config.turn.kp) (ki : 0 ≤ config.turn.ki)
    (kd : 0 ≤ config.turn.kd) (number : config.turn.limit.isNaN = false)
    (natural : 0 ≤ config.wheelLimit) (small : config.wheelLimit ≤ 2 ^ 24) {calls : List Call}
    {last : Controller} {history : List Event}
    (ran : (new config).run calls = .ok (last, history)) (target heading : Float32)
    (snapshot : Snapshot) (travelled : Int) :
    ∃ result, (last.apply (.turnAbsolute target) snapshot).1.tick travelled heading = .ok result ∧
      (result.outcome.finished = true ↔
        (Heading.shortestError target heading).abs < config.turnThreshold) ∧
      (result.outcome.finished = false →
        result.outcome.wheels.SpinsToward (Heading.shortestError target heading)) := by
  have built := (Built.new config).run ran
  obtain ⟨speed, ticked⟩ := last.tick_beginTurn target travelled heading
  have threshold : (last.beginTurn target).config.turnThreshold = config.turnThreshold :=
    congrArg Config.turnThreshold built.configured
  have applied : (last.apply (.turnAbsolute target) snapshot).1 = last.beginTurn target := rfl
  rw [applied, ticked]
  by_cases near : (Heading.shortestError target heading).abs < config.turnThreshold
  · refine ⟨_, turnTick_near (threshold ▸ near), iff_of_true rfl near, ?_⟩
    intro underWay
    cases underWay
  · -- The loop is cleared, so it sees the error against its target zero and nothing else.
    have limit : Magnitude (Pid.ofGains config.turn).limit := .abs number
    obtain ⟨turnPid, computed⟩ :=
      Pid.exists_positional limit (-Heading.shortestError target heading)
    have leans (sign) (error : Leans sign (Heading.shortestError target heading)) :
        Leans sign turnPid.output := by
      have quiet := Pid.quiet_reset (.ofGains config.turn) 0
      refine quiet.leans_output kp ki kd computed ?_
      rw [Binary32.sub_eq_add_neg, Binary32.neg_neg]
      exact (Leans.of_isZero sign isZero_zero).add error
    obtain ⟨wheels, mixed, spins⟩ := WheelSpeeds.exists_spin natural small leans
    rw [← built.turnPid_beginTurn target] at computed
    rw [← built.configured] at mixed
    exact ⟨_, turnTick_far (threshold ▸ near) computed mixed,
      iff_of_false Bool.false_ne_true near, fun _ => spins⟩

/-- A turn to 270 degrees after one whose loop was left with what is not a number. -/
theorem turn_begins_toward_after_lost :
    let config := Config.default
    let lost : List Call := [.apply (.turnAbsolute 90) ⟨0, 0⟩, .tick 0 nan]
    let next : List Call := [.apply (.turnAbsolute 270) ⟨0, 0⟩, .tick 0 0]
    (0 ≤ config.turn.kp ∧ 0 ≤ config.turn.ki ∧ 0 ≤ config.turn.kd) ∧
      config.turn.limit.isNaN = false ∧ 0 ≤ config.wheelLimit ∧ config.wheelLimit ≤ 2 ^ 24 ∧
      Heading.shortestError 270 0 = -90 ∧
      (new config).outcomes (lost ++ next) =
        .ok [⟨.zero, false⟩, ⟨⟨300, -300, 300, -300⟩, false⟩] ∧
      ∃ last history result, (new config).run lost = .ok (last, history) ∧
        (last.apply (.turnAbsolute 270) ⟨0, 0⟩).1.tick 0 0 = .ok result ∧
        result.outcome.finished = false ∧ result.outcome.wheels.SpinsToward (-90) := by
  intro config lost next
  have gains : 0 ≤ config.turn.kp ∧ 0 ≤ config.turn.ki ∧ 0 ≤ config.turn.kd := by decide +kernel
  have number : config.turn.limit.isNaN = false := by decide +kernel
  have natural : 0 ≤ config.wheelLimit := by decide
  have small : config.wheelLimit ≤ 2 ^ 24 := by decide
  have error : Heading.shortestError 270 0 = -90 := by decide +kernel
  obtain ⟨last, history, ran⟩ :=
    (Built.new config).exists_run natural (by decide +kernel) number lost
  obtain ⟨result, ticked, finishes, spins⟩ :=
    turn_begins_toward gains.1 gains.2.1 gains.2.2 number natural small ran 270 0 ⟨0, 0⟩ 0
  rw [error] at finishes spins
  have underWay : result.outcome.finished = false := by
    have far : ¬(-90 : Float32).abs < config.turnThreshold := by decide +kernel
    exact Bool.eq_false_iff.mpr (mt finishes.mp far)
  exact ⟨gains, number, natural, small, error, by decide +kernel, last, history, result, ran,
    ticked, underWay, spins underWay⟩

end Controller

end Motion

end Mecanum
