import Mecanum.Proofs.Binary32.Exact
import Mecanum.Proofs.Binary32.Opposite
import Mecanum.Proofs.Binary32.Root
import Mecanum.Proofs.Motion.Succession

/-!
# Mixing is bounded and symmetric

Up to a limit of 24 bits the bounds of a wheel command are exact, so its word is within the limit,
and the word of the opposite speed is the opposite word (`word_neg`), saturation and truncation
included. Wheels that are given the same or opposite speeds so get the same or opposite words, and
a mode against its counterpart reverses every wheel. Every wheel command of a controller is mixed at
its wheel limit, or is zero.
-/
namespace Mecanum.Motion

open Binary32

namespace WheelSpeeds

instance : Neg WheelSpeeds where
  neg wheels := ⟨-wheels.frontLeft, -wheels.frontRight, -wheels.rearLeft, -wheels.rearRight⟩

/-- No wheel is commanded beyond the limit. -/
def Within (limit : Int) (wheels : WheelSpeeds) : Prop := ∀ wheel, |wheels.get wheel| ≤ limit

/--
The wheels that a mode couples: those of one side, and in a slide those of one diagonal, against
those of the other.
-/
def Coupled (wheels : WheelSpeeds) : Mode → Prop
  | .stop => wheels = zero
  | .slideLeft | .slideRight =>
    wheels.rearRight = wheels.frontLeft ∧ wheels.rearLeft = wheels.frontRight ∧
      wheels.frontRight = -wheels.frontLeft
  | _ => wheels.rearLeft = wheels.frontLeft ∧ wheels.rearRight = wheels.frontRight

/-! ### Single wheels -/

/-- A limit keeps the side of a speed, and so does truncation. -/
theorem word_leans {limit : Int} (natural : 0 ≤ limit) {sign : Float.Model.UnpackedFloat.Sign}
    {speed : Float32} (leans : Leans sign speed) : 0 ≤ sign.apply (word limit speed) :=
  (leans.cutOff (Magnitude.ofInt natural).natural).toWord

section Words

variable {limit : Int} (natural : 0 ≤ limit) (small : limit ≤ 2 ^ 24)

include natural small

/-- Unless it is not a number, a speed is cut off to a number between the limits. -/
theorem cutOff_between {speed : Float32} (number : speed.isNaN = false) :
    (cutOff (-ofInt limit) (ofInt limit) speed).isFinite = true ∧
      |value (cutOff (-ofInt limit) (ofInt limit) speed)| ≤ limit := by
  obtain ⟨stored, limit_eq⟩ := stores_ofInt (n := limit) (by omega)
  have bound := (Magnitude.ofInt natural).natural
  have within := within_cutOff bound speed
  have kept : (cutOff (-ofInt limit) (ofInt limit) speed).isNaN = false := by
    rw [cutOff]
    split
    next => exact (isNaN_neg _).trans (isNaN_of_isFinite stored)
    next =>
      split
      next => exact isNaN_of_isFinite stored
      next => exact number
  have finite := isFinite_of_within stored kept within
  obtain ⟨low, high⟩ := within.resolve_left (Bool.eq_false_iff.mp kept)
  rw [le_iff_value ((isFinite_neg _).trans stored) finite, value_neg, limit_eq] at low
  rw [le_iff_value finite stored, limit_eq] at high
  exact ⟨finite, abs_le.mpr ⟨low, high⟩⟩

/-- A wheel is within the limit, also when the speed is no number. -/
theorem abs_word_le (speed : Float32) : |word limit speed| ≤ limit := by
  cases number : speed.isNaN with
  | true =>
    rw [word, cutOff_of_isNaN number, toWord_of_isNaN number, abs_zero]
    exact natural
  | false =>
    obtain ⟨finite, between⟩ := cutOff_between natural small number
    exact abs_toWord_le finite between (by omega)

/-- The opposite speed gives the opposite wheel. -/
theorem word_neg (speed : Float32) : word limit (-speed) = -word limit speed := by
  rw [word, word, cutOff_neg (Magnitude.ofInt natural).natural]
  cases number : speed.isNaN with
  | true =>
    rw [cutOff_of_isNaN number, toWord_of_isNaN number,
      toWord_of_isNaN ((isNaN_neg speed).trans number), neg_zero]
  | false =>
    obtain ⟨finite, between⟩ := cutOff_between natural small number
    have room : (limit : ℚ) ≤ 2 ^ 24 := by exact_mod_cast small
    exact toWord_neg_of_small finite (by linarith)

end Words

/-! ### Modes -/

theorem within_zero {limit : Int} (natural : 0 ≤ limit) : zero.Within limit := by
  rintro (_ | _ | _ | _) <;> exact natural

section Modes

variable {limit : Int} (natural : 0 ≤ limit) (small : limit ≤ 2 ^ 24)

include natural small

/-- Mixing gives wheels within the limit, paired as the mode pairs them. -/
theorem mix_bounded (mode : Mode) (speed correction : Float32) :
    ∃ wheels, mix mode speed correction limit = .ok wheels ∧ wheels.Within limit ∧
      wheels.Coupled mode := by
  have within {a b c d : Float32} :
      WheelSpeeds.Within limit ⟨word limit a, word limit b, word limit c, word limit d⟩ := by
    rintro (_ | _ | _ | _) <;> exact abs_word_le natural small _
  have opposite (speed : Float32) : word limit (-speed) = -word limit speed :=
    word_neg natural small speed
  cases mode with
  | stop => exact ⟨zero, rfl, within_zero natural, rfl⟩
  | slideLeft => exact ⟨_, clamped_eq natural .., within, rfl, rfl, opposite (-speed)⟩
  | slideRight => exact ⟨_, clamped_eq natural .., within, rfl, rfl, opposite speed⟩
  | _ => exact ⟨_, clamped_eq natural .., within, rfl, rfl⟩

theorem clamped_neg (a b c d : Float32) :
    clamped (-a) (-b) (-c) (-d) limit = (clamped a b c d limit).map (-·) := by
  simp only [clamped_eq natural, word_neg natural small]
  rfl

/-- With opposite speeds the sides change roles. -/
theorem straight_neg (speed correction : Float32) :
    straight (-speed) correction limit = (straight speed (-correction) limit).map (-·) := by
  have left : Same (-speed - correction) (-(speed - -correction)) := by
    rw [Binary32.sub_eq_add_neg, Binary32.sub_eq_add_neg, Binary32.neg_neg]
    exact same_neg_add speed correction
  have right : Same (-speed + correction) (-(speed + -correction)) := by
    have same := same_neg_add speed (-correction)
    rwa [Binary32.neg_neg] at same
  rw [straight, straight, ← clamped_neg natural small]
  simp only [clamped, command_congr left, command_congr right]

end Modes

section Controllers

open Controller

/-- Every wheel command is mixed at the wheel limit, or is zero. -/
theorem within_tick {config : Config} {controller : Controller} (built : Built config controller)
    (natural : 0 ≤ config.wheelLimit) (small : config.wheelLimit ≤ 2 ^ 24) {travelled : Int}
    {heading : Float32} {result : Tick} (ticked : controller.tick travelled heading = .ok result) :
    result.outcome.wheels.Within config.wheelLimit := by
  have within {mode : Mode} {speed correction : Float32} {wheels : WheelSpeeds}
      (mixed : mix mode speed correction controller.config.wheelLimit = .ok wheels) :
      wheels.Within config.wheelLimit := by
    obtain ⟨bounded, mixed', within, -⟩ := mix_bounded natural small mode speed correction
    rw [built.configured, mixed'] at mixed
    cases mixed
    exact within
  cases stepped_of_tick ticked with
  | idle => exact within_zero natural
  | arrived => exact within_zero natural
  | reached => exact within_zero natural
  | turns _ _ mixed => exact within mixed
  | holds _ _ _ mixed => exact within mixed
  | travels _ _ mixed => exact within mixed

end Controllers

/--
Mixing always gives wheel commands within the limit, with the wheels of a mode coupled, and a mode
against its counterpart reverses them. So no controller with such a limit ever exceeds it.
-/
theorem mix_symmetric {limit : Int} (natural : 0 ≤ limit) (small : limit ≤ 2 ^ 24) :
    (∀ mode speed correction, ∃ wheels, mix mode speed correction limit = .ok wheels ∧
      wheels.Within limit ∧ wheels.Coupled mode) ∧
    (∀ speed correction,
      mix .backward speed correction limit =
        (mix .forward speed (-correction) limit).map (-·) ∧
      mix .slideLeft speed correction limit =
        (mix .slideRight speed correction limit).map (-·) ∧
      mix .turnLeft speed correction limit =
        (mix .turnRight speed correction limit).map (-·) ∧
      mix .turnAbsolute speed correction limit = mix .turnLeft correction speed limit) ∧
    ∀ config calls last history, config.wheelLimit = limit →
      (Controller.new config).run calls = .ok (last, history) →
      ∀ tick, .ticked tick ∈ history → tick.outcome.wheels.Within limit := by
  refine ⟨mix_bounded natural small, ?_, ?_⟩
  · intro speed correction
    refine ⟨straight_neg natural small speed correction, ?_, ?_, rfl⟩
    · exact clamped_neg natural small speed (-speed) (-speed) speed
    · have reversed := clamped_neg natural small speed (-speed) speed (-speed)
      simpa only [mix, spin, Binary32.neg_neg] using reversed
  · rintro config calls last history rfl ran tick inside
    obtain ⟨before, after, rfl⟩ := List.append_of_mem inside
    obtain ⟨front, call, middle, next, fronted, called⟩ := Controller.run_split ran
    have built := (Controller.Built.new config).run fronted
    cases call with
    | apply command heading => cases called
    | tick travelled heading =>
      obtain ⟨result, ticked, told⟩ := bind_eq_ok_iff.mp called
      cases told
      exact within_tick built natural small ticked

/-- A correction that saturates one side, and a heading so far off that one side runs backwards. -/
theorem mix_symmetric_saturated :
    let reversed := mix .backward 9900.5 (-400) 10000
    let config := Config.default
    let calls : List Controller.Call :=
      [.apply (.drive .forward 300 686) ⟨0, 0⟩, .tick 0 45, .tick 3 nan]
    (0 : Int) ≤ 10000 ∧ (10000 : Int) ≤ 2 ^ 24 ∧ config.wheelLimit = 10000 ∧
      mix .forward 9900.5 400 10000 = .ok ⟨9500, 10000, 9500, 10000⟩ ∧
      reversed = .ok ⟨-9500, -10000, -9500, -10000⟩ ∧
      reversed = (mix .forward 9900.5 (- -400) 10000).map (-·) ∧
      (∃ wheels, mix .slideLeft nan 400 10000 = .ok wheels ∧ wheels.Coupled .slideLeft) ∧
      (Controller.new config).outcomes calls =
        .ok [⟨⟨240, -160, 240, -160⟩, false⟩, ⟨zero, false⟩] ∧
      ∃ last history, (Controller.new config).run calls = .ok (last, history) ∧
        ∀ tick, .ticked tick ∈ history → tick.outcome.wheels.Within 10000 := by
  intro reversed config calls
  have natural : (0 : Int) ≤ 10000 := by decide
  have small : (10000 : Int) ≤ 2 ^ 24 := by decide
  obtain ⟨bounded, opposite, within⟩ := mix_symmetric natural small
  obtain ⟨lost, mixed, -, coupled⟩ := bounded .slideLeft nan 400
  obtain ⟨last, history, ran⟩ := (Controller.Built.new config).exists_run (by decide)
    (by decide +kernel) (by decide +kernel) calls
  exact ⟨natural, small, rfl, by decide +kernel, by decide +kernel, (opposite 9900.5 (-400)).1,
    ⟨lost, mixed, coupled⟩, by decide +kernel, last, history, ran,
    within config calls last history rfl ran⟩

end WheelSpeeds

end Mecanum.Motion
