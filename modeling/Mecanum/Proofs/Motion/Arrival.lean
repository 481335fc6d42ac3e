import Mecanum.Proofs.Binary32.Exact
import Mecanum.Proofs.Motion.Completion

/-!
# Bounded moves go their distance

A move over a distance is measured in wheel steps. As long as the steps fit a mantissa, they and
what is left of them are converted exactly. A step is not an eighth of a millimetre, but two of them
are more, and no rounding goes below the eighth, which is more than the distance at which a move has
arrived. So a move that is reported as finished is at most one step short (`finished_at_distance`).
-/
namespace Mecanum.Motion

open Binary32 (value)

def Command.pulses (config : Config) (command : Command) : Int :=
  Binary32.toWord (command.target * config.pulsesPerMm)

namespace Controller

/-- The controller measures the distance of a command. -/
structure Measures (controller : Controller) (command : Command) : Prop where
  pulses : controller.targetPulses = command.pulses controller.config
  bounded : controller.bounded = decide (0 < command.target)

/-- The distance of a travelling command in force is the one that the controller measures. -/
def Measured (controller : Controller) (force : Option Command) : Prop :=
  ∀ command, force = some command → command.mode.tracksDistance = true → controller.Measures command

/-- A call keeps the distance measured from where the command found it. -/
theorem Measured.kept {controller next : Controller} {force : Option Command} {made : Call}
    {event : Event} (measured : controller.Measured force)
    (called : controller.call made = .ok (next, event)) : next.Measured (event.force force) := by
  cases made with
  | apply applied heading =>
    cases called
    intro command latest travelling
    simp only [Event.force] at latest
    split at latest
    · cases latest
    · cases latest
      simp only [apply, controller.accept_travel travelling]
      exact ⟨rfl, rfl⟩
  | tick travelled heading =>
    obtain ⟨result, ticked, told⟩ := bind_eq_ok_iff.mp called
    cases told
    cases ticked_of_tick ticked with
    | idle =>
      intro command latest travelling
      have before := measured command latest travelling
      exact ⟨before.pulses, before.bounded⟩
    | ended =>
      intro command none
      cases none
    | underWay =>
      intro command latest travelling
      have before := measured command latest travelling
      exact ⟨before.pulses, before.bounded⟩

/-- Over every run the distance is measured from where the command found it. -/
theorem measured_run {config : Config} {calls : List Call} {last : Controller}
    {history : List Event} (ran : (new config).run calls = .ok (last, history)) :
    last.Measured (inForce history) := by
  have kept {controller next : Controller} {earlier : List Event} {made : Call} {event : Event}
      (measured : controller.Measured (inForce earlier))
      (called : controller.call made = .ok (next, event)) :
      next.Measured (inForce (earlier ++ [event])) := by
    rw [inForce_concat]
    exact measured.kept called
  have initial : (new config).Measured (inForce []) := by
    intro command none
    cases none
  exact run_invariant (fun controller earlier => controller.Measured (inForce earlier)) kept ran
    initial

/-! ### Arriving -/

section Arriving

variable {controller : Controller} {travelled : Int}

/-- A travelling mode ends by arriving only. -/
theorem arrived_of_finished {heading : Float32} {result : Tick}
    (ticked : controller.tick travelled heading = .ok result)
    (finished : result.outcome.finished = true)
    (travelling : controller.mode.tracksDistance = true) :
    controller.hasArrived (controller.remaining travelled)
      (controller.rampedSpeed (controller.remaining travelled)) = true := by
  cases stepped_of_tick ticked with
  | arrived _ arrived => exact arrived
  | reached turning => simp [turning, Mode.tracksDistance] at travelling
  | idle => cases finished
  | turns => cases finished
  | holds => cases finished
  | travels => cases finished

/-- Two steps are more than an eighth of a millimetre. -/
theorem eighth_le_millimetres {steps : Float32} (finite : steps.isFinite = true)
    (far : 2 ≤ value steps) (close : value steps ≤ 2 ^ 24) :
    (steps / Config.default.pulsesPerMm).isFinite = true ∧
      1 / 8 ≤ value (steps / Config.default.pulsesPerMm) := by
  have scale : value Config.default.pulsesPerMm = 13348372 * 2 ^ (-20 : Int) := rfl
  have low : 1 / 8 ≤ value steps / value Config.default.pulsesPerMm := by
    rw [scale, le_div_iff₀ (by norm_num)]
    norm_num
    linarith
  have high : value steps / value Config.default.pulsesPerMm ≤ 2 ^ (127 : Int) := by
    rw [scale, div_le_iff₀ (by norm_num)]
    norm_num
    linarith
  have quotient := Binary32.nearest_div finite (rfl : Config.default.pulsesPerMm.isFinite = true)
    (by rw [scale]; norm_num) (abs_le.mpr ⟨by linarith, high⟩)
  have eighth : Binary32.Representable (1 / 8) := ⟨1, -3, by decide, by decide, by norm_num⟩
  exact ⟨quotient.isFinite, quotient.lower eighth low⟩

/-- With two steps left or more, a move has not arrived. -/
theorem not_arrived_of_short (configured : controller.config = .default)
    (most : controller.targetPulses ≤ 2 ^ 24)
    (short : travelled.natAbs + 2 ≤ controller.targetPulses) (speed : Float32) :
    controller.hasArrived (controller.remaining travelled) speed = false := by
  cases measured : controller.bounded with
  | false => simp [hasArrived, measured]
  | true =>
    obtain ⟨finite, steps⟩ := Binary32.stores_sub_ofInt (m := controller.targetPulses)
      (n := travelled.natAbs) (by omega) (by omega) (by omega)
    have far : (2 : ℚ) ≤ (controller.targetPulses - travelled.natAbs : Int) := by
      exact_mod_cast (by omega : 2 ≤ controller.targetPulses - travelled.natAbs)
    have close : ((controller.targetPulses - travelled.natAbs : Int) : ℚ) ≤ 2 ^ 24 := by
      exact_mod_cast (by omega : controller.targetPulses - travelled.natAbs ≤ 2 ^ 24)
    obtain ⟨number, eighth⟩ := eighth_le_millimetres finite (steps ▸ far) (steps ▸ close)
    have zero : value 0 = 0 := rfl
    have threshold : value Config.default.arriveDistance = 13421773 * 2 ^ (-27 : Int) := rfl
    have left : controller.remaining travelled = (Binary32.ofInt controller.targetPulses -
        Binary32.ofInt travelled.natAbs) / Config.default.pulsesPerMm := by
      rw [remaining, if_pos measured, configured]
      exact Binary32.greater_eq_left number rfl (by linarith)
    have beyond : ¬controller.remaining travelled ≤ controller.config.arriveDistance := by
      rw [configured, left, Binary32.le_iff_value number rfl, threshold, not_le]
      refine lt_of_lt_of_le ?_ eighth
      norm_num
    simp [hasArrived, beyond]

end Arriving

/--
Whatever was applied and ticked before, a tick that ends a move over a distance has counted all its
steps but one, and its speed is down to the one of an arrival.
-/
theorem finished_at_distance (calls : List Call) (travelled : Int) (heading : Float32) :
    ∃ controller history result, (new .default).run calls = .ok (controller, history) ∧
      controller.tick travelled heading = .ok result ∧
      ∀ command, lastApplied history = some command → command.mode.tracksDistance = true →
        command.pulses .default ≤ 2 ^ 24 → result.outcome.finished = true →
        0 < command.target ∧ controller.targetPulses = command.pulses .default ∧
          command.pulses .default - 1 ≤ travelled.natAbs ∧
          controller.rampedSpeed (controller.remaining travelled) ≤ Config.default.arriveSpeed := by
  have fresh := Built.new .default
  obtain ⟨controller, history, ran⟩ := fresh.exists_run (by decide) (by decide) (by decide) calls
  have built := fresh.run ran
  obtain ⟨result, ticked⟩ := built.exists_tick (by decide) (by decide) (by decide) travelled heading
  refine ⟨controller, history, result, ran, ticked, ?_⟩
  intro command applied travelling most finished
  -- The command in force is the last one applied.
  have follows := follows_run ran
  have measured := measured_run ran
  generalize force : inForce history = current at follows measured
  cases follows with
  | idle stop =>
    rw [tick, if_pos stop] at ticked
    cases ticked
    cases finished
  | @active latest mode moving bounded =>
    have same := (lastApplied_of_inForce force).symm.trans applied
    cases same
    obtain ⟨pulses, distance⟩ := measured command rfl travelling
    rw [built.configured] at pulses
    have arrived := arrived_of_finished ticked finished (mode ▸ travelling)
    have near : command.pulses .default - 1 ≤ travelled.natAbs := by
      by_contra short
      rw [not_arrived_of_short built.configured (pulses ▸ most) (by omega)] at arrived
      cases arrived
    simp only [hasArrived, built.configured, Bool.and_eq_true, decide_eq_true_iff] at arrived
    exact ⟨(bounded arrived.1.1).2, pulses, near, arrived.2⟩

/-- A millimetre is twelve steps, and at the eleventh, counted backwards, the move is over. -/
theorem finished_at_distance_lastStep :
    let command := Command.drive .forward 100 1
    let moving := (new .default).accept command ⟨0, 0⟩
    command.pulses .default = 12 ∧ ∃ result, moving.tick (-11) 0 = .ok result ∧
      result.outcome.finished = true ∧
        moving.rampedSpeed (moving.remaining (-11)) ≤ Config.default.arriveSpeed := by
  intro command moving
  have pulses : command.pulses .default = 12 := by decide +kernel
  obtain ⟨controller, history, result, ran, ticked, ends⟩ :=
    finished_at_distance [.apply command ⟨0, 0⟩] (-11) 0
  have begun : (new .default).run [.apply command ⟨0, 0⟩] = .ok (moving, [.applied command]) := rfl
  cases begun.symm.trans ran
  have outcome : (moving.tick (-11) 0).map (·.outcome) = .ok .done := by decide +kernel
  obtain ⟨same, arrived, done⟩ := map_eq_ok_iff.mp outcome
  cases arrived.symm.trans ticked
  have finished : result.outcome.finished = true := congrArg Outcome.finished done
  have settled := ends command rfl rfl (by omega) finished
  exact ⟨pulses, result, ticked, finished, settled.2.2.2⟩

end Controller

end Mecanum.Motion
