import Mathlib
import Mecanum.Proofs.Binary32.Sign

/-!
# The two zeros

Zero has two representations, which compare as equal. What is computed from either is the same
number again, up to the sign of a zero, and no comparison and no conversion to an integer tells the
two apart.
-/
namespace Mecanum.Binary32

open Float.Model (Format UnpackedFloat)
open Float.Model.UnpackedFloat

def IsZero (x : Float32) : Prop := ∃ sign, unpack x = .zero sign

/-- The same number, where the two zeros are one. -/
def Same (x y : Float32) : Prop := x = y ∨ IsZero x ∧ IsZero y

theorem isZero_zero : IsZero 0 := ⟨.positive, rfl⟩

theorem isZero_neg_zero : IsZero (-0) := ⟨.negative, rfl⟩

theorem isZero_pack (sign : Sign) : IsZero (pack (.zero sign)) :=
  ⟨sign, unpack_packedZero⟩

private theorem zero_compare (s t : Sign) (u : UnpackedFloat) :
    (zero s).compare u = (zero t).compare u := by
  cases u with
  | notANumber => rfl
  | zero => rfl
  | infinity sign => cases sign <;> rfl
  | finite sign => cases sign <;> rfl

private theorem compare_zero (s t : Sign) (u : UnpackedFloat) :
    u.compare (zero s) = u.compare (zero t) := by
  cases u with
  | notANumber => rfl
  | zero => rfl
  | infinity sign => cases sign <;> rfl
  | finite sign => cases sign <;> rfl

namespace Same

variable {x y : Float32}

theorem refl (x : Float32) : Same x x := .inl rfl

/-- Numbers that compare as equal are the same. -/
theorem of_beq (equal : (x == y) = true) : Same x y := by
  obtain ⟨-, -, rfl | ⟨rfl, rfl⟩ | ⟨rfl, rfl⟩⟩ := Float32.beq_iff_ne_nan_and_eq.mp equal
  · exact refl x
  · exact .inr ⟨isZero_zero, isZero_neg_zero⟩
  · exact .inr ⟨isZero_neg_zero, isZero_zero⟩

theorem isNaN (same : Same x y) : x.isNaN = y.isNaN := by
  rcases same with rfl | ⟨⟨s, left⟩, ⟨t, right⟩⟩
  · rfl
  · show (unpack x).isNaN = (unpack y).isNaN
    rw [left, right]
    rfl

theorem lt_left (same : Same x y) (z : Float32) : x < z ↔ y < z := by
  rcases same with rfl | ⟨⟨s, left⟩, ⟨t, right⟩⟩
  · rfl
  · rw [lt_iff, lt_iff, left, right, UnpackedFloat.lt, UnpackedFloat.lt, zero_compare s t]

theorem lt_right (same : Same x y) (z : Float32) : z < x ↔ z < y := by
  rcases same with rfl | ⟨⟨s, left⟩, ⟨t, right⟩⟩
  · rfl
  · rw [lt_iff, lt_iff, left, right, UnpackedFloat.lt, UnpackedFloat.lt, compare_zero s t]

theorem le_left (same : Same x y) (z : Float32) : x ≤ z ↔ y ≤ z := by
  rcases same with rfl | ⟨⟨s, left⟩, ⟨t, right⟩⟩
  · rfl
  · rw [le_iff, le_iff, left, right, UnpackedFloat.le, UnpackedFloat.le, zero_compare s t]

/-- What is computed from the unpacked forms is the same, if a zero on the left gives no more away
than the sign of a zero. -/
private theorem lift (f : UnpackedFloat → UnpackedFloat)
    (blind : ∀ s t, f (.zero s) = f (.zero t) ∨
      (∃ r, f (.zero s) = .zero r) ∧ ∃ r, f (.zero t) = .zero r)
    (same : Same x y) : Same (pack (f (unpack x))) (pack (f (unpack y))) := by
  rcases same with rfl | ⟨⟨s, left⟩, ⟨t, right⟩⟩
  · exact refl _
  · rw [left, right]
    rcases blind s t with equal | ⟨⟨p, left⟩, ⟨q, right⟩⟩
    · rw [equal]
      exact refl _
    · rw [left, right]
      exact .inr ⟨isZero_pack p, isZero_pack q⟩

theorem neg (same : Same x y) : Same (-x) (-y) := by
  apply lift UnpackedFloat.neg _ same
  intro s t
  exact .inr ⟨⟨_, rfl⟩, ⟨_, rfl⟩⟩

theorem add_right (same : Same x y) (z : Float32) : Same (x + z) (y + z) := by
  apply lift (UnpackedFloat.add .binary32 · (unpack z)) _ same
  intro s t
  cases unpack z with
  | zero r => cases s <;> cases t <;> cases r <;> exact .inr ⟨⟨_, rfl⟩, ⟨_, rfl⟩⟩
  | _ => exact .inl rfl

theorem sub_right (same : Same x y) (z : Float32) : Same (x - z) (y - z) := by
  apply lift (UnpackedFloat.sub .binary32 · (unpack z)) _ same
  intro s t
  cases unpack z with
  | zero r => cases s <;> cases t <;> cases r <;> exact .inr ⟨⟨_, rfl⟩, ⟨_, rfl⟩⟩
  | _ => exact .inl rfl

theorem mul_right (same : Same x y) (z : Float32) : Same (x * z) (y * z) := by
  apply lift (UnpackedFloat.mul .binary32 · (unpack z)) _ same
  intro s t
  cases unpack z with
  | notANumber => exact .inl rfl
  | infinity => exact .inl rfl
  | _ => exact .inr ⟨⟨_, rfl⟩, ⟨_, rfl⟩⟩

theorem lesser (same : Same x y) (z : Float32) :
    Same (Binary32.lesser x z) (Binary32.lesser y z) := by
  simp only [Binary32.lesser, same.isNaN, same.lt_right z]
  split
  · exact refl z
  · split
    · exact refl z
    · exact same

theorem greater (same : Same x y) (z : Float32) :
    Same (Binary32.greater x z) (Binary32.greater y z) := by
  simp only [Binary32.greater, same.isNaN, same.lt_left z]
  split
  · exact refl z
  · split
    · exact refl z
    · exact same

theorem cutOff (same : Same x y) (lo hi : Float32) :
    Same (Binary32.cutOff lo hi x) (Binary32.cutOff lo hi y) := by
  simp only [Binary32.cutOff, same.lt_left lo, same.lt_right hi]
  split
  · exact refl lo
  · split
    · exact refl hi
    · exact same

theorem toWord (same : Same x y) : Binary32.toWord x = Binary32.toWord y := by
  rcases same with rfl | ⟨⟨s, left⟩, ⟨t, right⟩⟩
  · rfl
  · rw [Binary32.toWord, Binary32.toWord, truncate, truncate, left, right]
    rfl

end Same

end Mecanum.Binary32
