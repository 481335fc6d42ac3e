import Mecanum.Proofs.Binary32.Sign
import Mecanum.Proofs.Motion.Tick

/-!
# Limits of the controller

A number is cut off at bounds that have to be in order. The limits of the loops are magnitudes, as
far as they are numbers, and so is a natural wheel limit. So no clamp is ever out of order, and every
tick gives an answer.
-/
namespace Mecanum

open Binary32 (Magnitude)

namespace Pid

theorem magnitude_integralLimit {pid : Pid} (limit : Magnitude pid.limit) :
    Magnitude pid.integralLimit := by
  have headroom : Binary32.unpack integralHeadroom =
      .finite .positive 13421773 (-24) (by decide) := rfl
  exact limit.mul_finite headroom

theorem exists_positional {pid : Pid} (limit : Magnitude pid.limit) (measurement : Float32) :
    ∃ next, pid.positional measurement = .ok next := by
  simp only [positional, Binary32.clampSymmetric_ok (magnitude_integralLimit limit),
    Binary32.clampSymmetric_ok limit]
  exact ⟨_, rfl⟩

end Pid

namespace Motion

/-- Each wheel gets its own command. -/
theorem WheelSpeeds.clamped_eq_ok_iff {a b c d : Float32} {limit : Int} {wheels : WheelSpeeds} :
    clamped a b c d limit = .ok wheels ↔
      command limit a = .ok wheels.frontLeft ∧ command limit b = .ok wheels.frontRight ∧
        command limit c = .ok wheels.rearLeft ∧ command limit d = .ok wheels.rearRight := by
  constructor
  · intro cut
    obtain ⟨frontLeft, first, cut⟩ := bind_eq_ok_iff.mp cut
    obtain ⟨frontRight, second, cut⟩ := bind_eq_ok_iff.mp cut
    obtain ⟨rearLeft, third, cut⟩ := bind_eq_ok_iff.mp cut
    obtain ⟨rearRight, fourth, cut⟩ := bind_eq_ok_iff.mp cut
    cases cut
    exact ⟨first, second, third, fourth⟩
  · rintro ⟨first, second, third, fourth⟩
    rw [clamped, first, second, third, fourth]
    rfl

/-- The word of a wheel command. -/
def WheelSpeeds.word (limit : Int) (speed : Float32) : Int :=
  Binary32.toWord (Binary32.cutOff (-Binary32.ofInt limit) (Binary32.ofInt limit) speed)

theorem WheelSpeeds.command_eq {limit : Int} (natural : 0 ≤ limit) (speed : Float32) :
    command limit speed = .ok (word limit speed) := by
  rw [command, Binary32.clampSymmetric_ok (.ofInt natural)]
  rfl

theorem WheelSpeeds.clamped_eq {limit : Int} (natural : 0 ≤ limit) (a b c d : Float32) :
    clamped a b c d limit = .ok ⟨word limit a, word limit b, word limit c, word limit d⟩ := by
  simp only [clamped, command_eq natural]
  rfl

theorem WheelSpeeds.exists_mix {limit : Int} (natural : 0 ≤ limit) (mode : Mode)
    (speed correction : Float32) : ∃ wheels, mix mode speed correction limit = .ok wheels := by
  cases mode with
  | stop => exact ⟨_, rfl⟩
  | _ => exact ⟨_, clamped_eq natural ..⟩

namespace Controller

/-- With limits that are numbers no tick fails. -/
theorem Built.exists_tick {config : Config} {controller : Controller}
    (built : Built config controller) (wheels : 0 ≤ config.wheelLimit)
    (lock : config.headingLock.limit.isNaN = false) (turn : config.turn.limit.isNaN = false)
    (travelled : Int) (heading : Float32) :
    ∃ result, controller.tick travelled heading = .ok result := by
  have lockLimit : controller.headingPid.limit = config.headingLock.limit.abs :=
    congrArg Pid.Gains.limit built.heading
  have turnLimit : controller.turnPid.limit = config.turn.limit.abs :=
    congrArg Pid.Gains.limit built.turn
  have mixed (mode : Mode) (speed correction : Float32) :
      ∃ wheels, WheelSpeeds.mix mode speed correction controller.config.wheelLimit = .ok wheels :=
    WheelSpeeds.exists_mix (built.configured ▸ wheels) mode speed correction
  have locked (measurement : Float32) :=
    Pid.exists_positional (lockLimit ▸ Magnitude.abs lock) measurement
  have turned (measurement : Float32) :=
    Pid.exists_positional (turnLimit ▸ Magnitude.abs turn) measurement
  simp only [Controller.tick]
  split
  · exact ⟨_, rfl⟩
  · split
    · exact ⟨_, rfl⟩
    · split
      · simp only [turnTick]
        split
        · exact ⟨_, rfl⟩
        · apply exists_bind (turned _)
          intro turnPid
          apply exists_bind (mixed ..)
          intro wheels
          exact ⟨_, rfl⟩
      · simp only [travelTick]
        split
        · apply exists_bind (locked heading)
          intro headingPid
          apply exists_bind (mixed ..)
          intro wheels
          exact ⟨_, rfl⟩
        · apply exists_bind (mixed ..)
          intro wheels
          exact ⟨_, rfl⟩

end Controller

end Motion

end Mecanum
