import Mecanum.Proofs.Binary32.Exact
import Mecanum.Proofs.Binary32.Neutral
import Mecanum.Proofs.Motion.Mixing

/-!
# Straight travel at the locked heading

A loop that is measured at its target sees no error. If the target is finite it stays quiet and its
output is zero, so all four wheels turn at the speed of the move, cut off at the limit and rounded
toward zero. If the target is not finite the error is not a number, and the wheels stand still.
-/
namespace Mecanum

open Binary32

namespace Pid

/-- A loop that has seen no error since its reset. -/
structure Quiet (pid : Pid) : Prop where
  integral : IsZero pid.integral
  lastError : IsZero pid.lastError

theorem quiet_reset (pid : Pid) (target : Float32) : (pid.reset.setTarget target).Quiet :=
  ⟨isZero_zero, isZero_zero⟩

section Locked

variable {pid next : Pid} {measurement : Float32}
  (computed : pid.positional measurement = .ok next)

include computed

/-- What a positional call computes; its clamps give a result only if the limits are natural. -/
theorem positional_eq_ok : 0 ≤ pid.integralLimit ∧ 0 ≤ pid.limit ∧ ∃ integral,
    integral = cutOff (-pid.integralLimit) pid.integralLimit
      (pid.integral + (pid.target - measurement)) ∧
    next = { pid with
      integral := integral
      output := cutOff (-pid.limit) pid.limit (pid.kp * (pid.target - measurement) +
        pid.ki * integral + pid.kd * (pid.target - measurement - pid.lastError))
      lastError := pid.target - measurement } := by
  simp only [positional] at computed
  obtain ⟨integral, clamped, computed⟩ := bind_eq_ok_iff.mp computed
  obtain ⟨output, limited, computed⟩ := bind_eq_ok_iff.mp computed
  cases computed
  obtain ⟨headroom, integral_eq⟩ := clampSymmetric_eq_ok clamped
  obtain ⟨bound, rfl⟩ := clampSymmetric_eq_ok limited
  exact ⟨headroom, bound, integral, integral_eq, rfl⟩

theorem target_positional : next.target = pid.target := by
  obtain ⟨-, -, integral, -, rfl⟩ := positional_eq_ok computed
  rfl

variable (same : Same pid.target measurement)

include same

/-- A quiet loop given its own target stays quiet, and its output is a zero. -/
theorem Quiet.positional (quiet : pid.Quiet) (kp : pid.kp.isFinite = true)
    (ki : pid.ki.isFinite = true) (kd : pid.kd.isFinite = true)
    (finite : pid.target.isFinite = true) : next.Quiet ∧ IsZero next.output := by
  obtain ⟨headroom, bound, integral, integral_eq, rfl⟩ := positional_eq_ok computed
  have error := isZero_sub same finite
  have sum := isZero_add quiet.integral error
  have change : IsZero (pid.target - measurement - pid.lastError) :=
    isZero_sub (.inr ⟨error, quiet.lastError⟩) (isFinite_of_isZero error)
  rw [cutOff_isZero headroom sum] at integral_eq
  have held : IsZero integral := integral_eq ▸ sum
  have total := isZero_add (isZero_add (isZero_mul_right error kp) (isZero_mul_right held ki))
    (isZero_mul_right change kd)
  refine ⟨⟨held, error⟩, ?_⟩
  show IsZero (cutOff _ _ _)
  rwa [cutOff_isZero bound total]

theorem isNaN_output (infinite : pid.target.isFinite = false) : next.output.isNaN = true := by
  obtain ⟨-, -, integral, -, rfl⟩ := positional_eq_ok computed
  have error := isNaN_sub_same same infinite
  have total : (pid.kp * (pid.target - measurement) + pid.ki * integral +
      pid.kd * (pid.target - measurement - pid.lastError)).isNaN = true :=
    isNaN_add_left (isNaN_add_left (isNaN_mul_right error))
  show (cutOff _ _ _).isNaN = true
  rwa [cutOff_of_isNaN total]

end Locked

end Pid

namespace Motion.WheelSpeeds

/-- The same command for all four wheels. -/
def level (word : Int) : WheelSpeeds := ⟨word, word, word, word⟩

/-- The signed forward velocity, the mean of the four wheel commands. -/
def velocity (wheels : WheelSpeeds) : ℚ :=
  (wheels.frontLeft + wheels.frontRight + wheels.rearLeft + wheels.rearRight) / 4

theorem velocity_level (word : Int) : (level word).velocity = word := by
  simp only [velocity, level]
  ring

/-- The word of a wheel speed that is not negative, and of its opposite. -/
theorem command_eq_floor {limit : Int} {speed : Float32} (natural : 0 ≤ limit)
    (small : limit.natAbs ≤ 2 ^ 24) (finite : speed.isFinite = true) (ahead : 0 ≤ value speed) :
    command limit speed = .ok ⌊min (value speed) limit⌋ ∧
      command limit (-speed) = .ok (-⌊min (value speed) limit⌋) := by
  obtain ⟨stored, limit_eq⟩ := stores_ofInt small
  have bound : (0 : ℚ) ≤ limit := by exact_mod_cast natural
  have most : (limit : ℚ) ≤ 2 ^ 24 := by exact_mod_cast (by omega : limit ≤ 2 ^ 24)
  have inside : ¬speed < -ofInt limit := by
    rw [lt_iff_value finite ((isFinite_neg _).trans stored), value_neg, limit_eq]
    linarith
  have word_eq : word limit speed = ⌊min (value speed) limit⌋ := by
    rw [word, cutOff, if_neg inside]
    split
    next beyond =>
      rw [lt_iff_value stored finite, limit_eq] at beyond
      rw [min_eq_right beyond.le, toWord_eq_floor stored] <;> rw [limit_eq] <;> linarith
    next within =>
      rw [lt_iff_value stored finite, limit_eq, not_lt] at within
      rw [min_eq_left within, toWord_eq_floor finite ahead]
      linarith
  rw [command_eq natural, command_eq natural, word_neg natural (by omega), word_eq]
  exact ⟨rfl, rfl⟩

section Straight

variable {speed correction : Float32} {limit : Int} {wheels : WheelSpeeds}
  (mixed : straight speed correction limit = .ok wheels)

include mixed

theorem straight_quiet (finite : speed.isFinite = true) (bounded : |value speed| ≤ 2 ^ (127 : Int))
    (zero : IsZero correction) {word : Int} (cut : command limit speed = .ok word) :
    wheels = level word := by
  have left := command_congr (same_sub_isZero finite bounded zero) limit
  have right := command_congr (same_add_isZero finite bounded zero) limit
  obtain ⟨frontLeft, frontRight, rearLeft, rearRight⟩ := wheels
  obtain ⟨a, b, c, d⟩ := clamped_eq_ok_iff.mp mixed
  rw [left, cut] at a c
  rw [right, cut] at b d
  cases a
  cases b
  cases c
  cases d
  rfl

/-- Without a number for the correction, the wheels stand still. -/
theorem straight_none (none : correction.isNaN = true) : wheels = .zero := by
  have lost {x : Float32} {word : Int} (none : x.isNaN = true) (cut : command limit x = .ok word) :
      word = 0 := by
    obtain ⟨y, clamped, rfl⟩ := map_eq_ok_iff.mp cut
    rw [(clampSymmetric_eq_ok clamped).2, cutOff_of_isNaN none, toWord_of_isNaN none]
  obtain ⟨frontLeft, frontRight, rearLeft, rearRight⟩ := wheels
  obtain ⟨a, b, c, d⟩ := clamped_eq_ok_iff.mp mixed
  cases lost (isNaN_sub_right none) a
  cases lost (isNaN_add_right none) b
  cases lost (isNaN_sub_right none) c
  cases lost (isNaN_add_right none) d
  rfl

end Straight

end Motion.WheelSpeeds

end Mecanum
