import Mecanum.Proofs.Binary32.Word

/-!
# Zeros, and what is not a number

A number less itself is zero, and adding or subtracting a zero of either sign leaves a number as it
is. An infinity less itself is not a number, and neither is anything computed from that.
-/
namespace Mecanum.Binary32

open Float.Model (UnpackedFloat)
open Float.Model.UnpackedFloat

variable {x y z : Float32}

/-! ### Zeros -/

theorem isFinite_of_isZero (zero : IsZero x) : x.isFinite = true := by
  obtain ⟨sign, u⟩ := zero
  exact congrArg UnpackedFloat.isFinite u

theorem value_of_isZero (zero : IsZero x) : value x = 0 := by
  obtain ⟨sign, u⟩ := zero
  exact congrArg exactly u

theorem isZero_of_value (finite : x.isFinite = true) (zero : value x = 0) : IsZero x := by
  rcases same_of_value_eq finite (rfl : (0 : Float32).isFinite = true) zero with rfl | ⟨zero, -⟩
  · exact isZero_zero
  · exact zero

theorem Nearest.isZero (nearest : Nearest 0 x) : IsZero x :=
  isZero_of_value nearest.isFinite (nearest.value_eq representable_zero)

theorem Same.finite (same : Same x y) : x.isFinite = y.isFinite := by
  rcases same with rfl | ⟨left, right⟩
  · rfl
  · rw [isFinite_of_isZero left, isFinite_of_isZero right]

theorem Same.value_eq (same : Same x y) : value x = value y := by
  rcases same with rfl | ⟨left, right⟩
  · rfl
  · rw [value_of_isZero left, value_of_isZero right]

/-- A finite number less itself is zero. -/
theorem isZero_sub (same : Same x y) (finite : x.isFinite = true) : IsZero (x - y) := by
  have nothing : value x - value y = 0 := sub_eq_zero.mpr same.value_eq
  have nearest := nearest_sub finite (same.finite ▸ finite) (by rw [nothing]; norm_num)
  rw [nothing] at nearest
  exact nearest.isZero

theorem isZero_add (left : IsZero x) (right : IsZero y) : IsZero (x + y) := by
  have nothing : value x + value y = 0 := by
    rw [value_of_isZero left, value_of_isZero right, add_zero]
  have nearest := nearest_add (isFinite_of_isZero left) (isFinite_of_isZero right)
    (by rw [nothing]; norm_num)
  rw [nothing] at nearest
  exact nearest.isZero

section Adding

variable (finite : x.isFinite = true) (bounded : |value x| ≤ 2 ^ (127 : Int)) (zero : IsZero z)

include finite bounded zero

theorem same_add_isZero : Same (x + z) x := by
  have nothing : value x + value z = value x := by rw [value_of_isZero zero, add_zero]
  have nearest := nearest_add finite (isFinite_of_isZero zero) (nothing.symm ▸ bounded)
  rw [nothing] at nearest
  exact same_of_value_eq nearest.isFinite finite
    (nearest.value_eq (representable_exactly (canonical_unpack finite)))

theorem same_sub_isZero : Same (x - z) x := by
  have nothing : value x - value z = value x := by rw [value_of_isZero zero, sub_zero]
  have nearest := nearest_sub finite (isFinite_of_isZero zero) (nothing.symm ▸ bounded)
  rw [nothing] at nearest
  exact same_of_value_eq nearest.isFinite finite
    (nearest.value_eq (representable_exactly (canonical_unpack finite)))

end Adding

/-! ### Clamps -/

/-- A clamp that gives a result has a bound that is not negative. -/
theorem clampSymmetric_eq_ok {limit result : Float32}
    (clamped : clampSymmetric limit x = .ok result) :
    0 ≤ limit ∧ result = cutOff (-limit) limit x := by
  rw [clampSymmetric, clamp] at clamped
  split at clamped
  next order =>
    cases clamped
    obtain ⟨left, right⟩ := numbers_of_le order
    rw [le_iff_place left right, place_neg] at order
    have zero : place 0 = 0 := rfl
    rw [le_iff_place rfl right, zero]
    exact ⟨by omega, rfl⟩
  next => cases clamped

theorem cutOff_isZero {limit : Float32} (natural : 0 ≤ limit) (zero : IsZero x) :
    cutOff (-limit) limit x = x := by
  have same : Same x 0 := .inr ⟨zero, isZero_zero⟩
  have below : ¬x < -limit := by
    rw [same.lt_left]
    exact not_lt_neg zero_natural natural
  have above : ¬limit < x := by
    rw [same.lt_right]
    intro more
    have most := Binary32.lt_of_le_of_lt natural more
    exact absurd most (by decide +kernel)
  rw [cutOff, if_neg below, if_neg above]

/-! ### What is not a number -/

theorem isNaN_mul_right (none : y.isNaN = true) : (x * y).isNaN = true := by
  have product : x * y = pack (UnpackedFloat.mul .binary32 (unpack x) (unpack y)) := rfl
  have nothing (u : UnpackedFloat) : UnpackedFloat.mul .binary32 u .notANumber = .notANumber := by
    cases u <;> rfl
  rw [product, unpack_of_isNaN none, nothing]
  rfl

theorem isNaN_add_left (none : x.isNaN = true) : (x + y).isNaN = true := by
  have sum : x + y = pack (UnpackedFloat.add .binary32 (unpack x) (unpack y)) := rfl
  have nothing (u : UnpackedFloat) : UnpackedFloat.add .binary32 .notANumber u = .notANumber := by
    cases u <;> rfl
  rw [sum, unpack_of_isNaN none, nothing]
  rfl

theorem isNaN_add_right (none : y.isNaN = true) : (x + y).isNaN = true := by
  have sum : x + y = pack (UnpackedFloat.add .binary32 (unpack x) (unpack y)) := rfl
  rw [sum, unpack_of_isNaN none, add_notANumber]
  rfl

theorem isNaN_sub_right (none : y.isNaN = true) : (x - y).isNaN = true := by
  have difference : x - y = pack (UnpackedFloat.sub .binary32 (unpack x) (unpack y)) := rfl
  rw [difference, unpack_of_isNaN none, sub_notANumber]
  rfl

/-- What is not finite, less itself, is not a number. -/
theorem isNaN_sub_same (same : Same x y) (infinite : x.isFinite = false) :
    (x - y).isNaN = true := by
  rcases same with rfl | ⟨zero, -⟩
  · cases number : x.isNaN with
    | true => exact isNaN_sub_right number
    | false =>
      rcases finite_or_infinity number with finite | ⟨sign, u⟩
      · rw [finite] at infinite
        cases infinite
      · have difference : x - x = pack (UnpackedFloat.sub .binary32 (unpack x) (unpack x)) := rfl
        rw [difference, u]
        cases sign <;> rfl
  · rw [isFinite_of_isZero zero] at infinite
    cases infinite

end Mecanum.Binary32
