import Mecanum.Proofs.Binary32.Zero

/-!
# Finite numbers

A finite number has a sign and a mantissa, or is a zero. Less itself it is zero, and zero stays zero
when it is multiplied by it.
-/
namespace Mecanum.Binary32

open Float.Model (UnpackedFloat)
open Float.Model.UnpackedFloat

theorem pack_unpack (x : Float32) : pack (unpack x) = x := Float32.ofBits_toBits x

/-- What is not infinite and a number has a sign and a mantissa, or is a zero. -/
theorem unpack_of_isFinite {x : Float32} (finite : x.isFinite = true) :
    (∃ sign, unpack x = .zero sign) ∨
      ∃ sign mantissa exponent positive, unpack x = .finite sign mantissa exponent positive := by
  have finite : (unpack x).isFinite = true := finite
  cases u : unpack x with
  | zero sign => exact .inl ⟨sign, rfl⟩
  | finite sign mantissa exponent positive => exact .inr ⟨_, _, _, _, rfl⟩
  | _ => rw [u] at finite; cases finite

/-- A finite number less itself is zero, also behind the addition of zero. -/
theorem add_zero_sub_self {x : Float32} (finite : x.isFinite = true) : x + 0 - x = 0 := by
  have zero : unpack 0 = .zero .positive := rfl
  have sum : x + 0 = pack (UnpackedFloat.add .binary32 (unpack x) (unpack 0)) := rfl
  have less (y : Float32) : y - x = pack (UnpackedFloat.sub .binary32 (unpack y) (unpack x)) := rfl
  rcases unpack_of_isFinite finite with ⟨sign, u⟩ | ⟨sign, mantissa, exponent, positive, u⟩
  · rw [u, zero] at sum
    rw [sum, less, u]
    cases sign <;> rfl
  · rw [u, zero] at sum
    have same : x + 0 = x := by
      rw [sum, ← pack_unpack x, u]
      rfl
    rw [same, less, u]
    simp only [UnpackedFloat.sub, Int.sub_self]
    rfl

/-! ### Zero times a number -/

section IsZero

variable {x y : Float32}

theorem isZero_mul_left (zero : IsZero x) (finite : y.isFinite = true) : IsZero (x * y) := by
  obtain ⟨sign, u⟩ := zero
  have product : x * y = pack (UnpackedFloat.mul .binary32 (unpack x) (unpack y)) := rfl
  rw [product, u]
  rcases unpack_of_isFinite finite with ⟨other, v⟩ | ⟨other, mantissa, exponent, positive, v⟩
  all_goals
    rw [v]
    exact isZero_pack _

theorem isZero_mul_right (zero : IsZero y) (finite : x.isFinite = true) : IsZero (x * y) := by
  obtain ⟨sign, v⟩ := zero
  have product : x * y = pack (UnpackedFloat.mul .binary32 (unpack x) (unpack y)) := rfl
  rw [product, v]
  rcases unpack_of_isFinite finite with ⟨other, u⟩ | ⟨other, mantissa, exponent, positive, u⟩
  all_goals
    rw [u]
    exact isZero_pack _

theorem isZero_lesser_one (zero : IsZero x) : IsZero (lesser x 1) := by
  have same : Same (lesser x 1) (lesser 0 1) := Same.lesser (.inr ⟨zero, isZero_zero⟩) 1
  have least : lesser 0 1 = 0 := by decide +kernel
  rw [least] at same
  rcases same with equal | ⟨left, _⟩
  · rw [equal]
    exact isZero_zero
  · exact left

theorem toUInt32_of_isZero (zero : IsZero x) : x.toUInt32 = 0 := by
  obtain ⟨sign, u⟩ := zero
  show (unpack x).toUInt32 = 0
  rw [u]
  rfl

end IsZero

end Mecanum.Binary32
