import Mathlib
import Mecanum.Binary32.Basic

/-!
# Signs of numbers

Rounding keeps the sign of a number, and it makes no number of what is none. So a magnitude is still
one after a conversion, a product or a negation, and the bounds `-limit` and `limit` of a clamp are
in order for every `limit` that is a magnitude (`clampSymmetric_ok`).
-/
namespace Mecanum.Binary32

open Float.Model (Format UnpackedFloat)
open Float.Model.UnpackedFloat

/-- The sign of a number. What is not a number has none. -/
def sign? : UnpackedFloat → Option Sign
  | .notANumber => none
  | .infinity sign => some sign
  | .zero sign => some sign
  | .finite sign _ _ _ => some sign

/-- The sign is read from its own bit, unless the bits are those of no number. -/
theorem sign?_packComponents {format : Format} {sign : Sign} {exponent : BitVec format.exponentBits}
    {mantissa : BitVec format.mantissaBitsWithoutImplicit}
    (number : exponent = -1#_ → mantissa = 0#_) :
    sign? (UnpackedFloat.unpack format (packComponents format sign exponent mantissa)) = some sign := by
  unfold UnpackedFloat.unpack
  simp only [unpackMantissa_packComponents, unpackExponent_packComponents,
    unpackSign_packComponents, Sign.ofBitVec_toBitVec]
  split
  next full => rw [if_pos (number full)]; rfl
  next =>
    split
    · split <;> rfl
    · rfl

/-- Packing keeps the sign. -/
theorem sign?_unpack_pack (u : UnpackedFloat) : sign? (unpack (pack u)) = sign? u := by
  show sign? (UnpackedFloat.unpack .binary32 (UnpackedFloat.pack .binary32 u)) = sign? u
  fun_cases UnpackedFloat.pack .binary32 u with
  | case1 => rw [unpack_packedNaN]
  | case2 sign => exact sign?_packComponents fun _ => rfl
  | case3 sign => rw [unpack_packedZero]
  | case4 sign => exact sign?_packComponents fun _ => rfl
  | case5 sign mantissa exponent positive bits biased fits =>
    apply sign?_packComponents
    intro full
    have below : biased + 1 < 256 := Nat.lt_of_not_le fits
    have value : biased % 256 = 255 := congrArg BitVec.toNat full
    omega
  | case6 sign mantissa exponent positive bits biased fits =>
    apply sign?_packComponents
    intro full
    exact absurd full (by decide)

theorem sign_neg_neg (sign : Sign) : - -sign = sign := by cases sign <;> rfl

theorem sign?_neg (u : UnpackedFloat) : sign? u.neg = (sign? u).map (- ·) := by
  cases u <;> rfl

theorem sign?_abs (u : UnpackedFloat) : sign? u.abs = (sign? u).map fun _ => .positive := by
  cases u <;> rfl

theorem sign?_roundWithAccuracy (format : Format) (sign : Sign) (mantissa : Nat) (exponent : Int)
    (accuracy : Accuracy) :
    sign? (roundWithAccuracy format sign mantissa exponent accuracy) = some sign := by
  simp only [roundWithAccuracy]
  split <;> rfl

theorem sign?_mul_finite {u : UnpackedFloat} {sign : Sign} (signed : sign? u = some sign)
    (format : Format) (factor : Sign) (mantissa : Nat) (exponent : Int) (positive : 0 < mantissa) :
    sign? (UnpackedFloat.mul format u (.finite factor mantissa exponent positive)) =
      some (sign * factor) := by
  cases u with
  | notANumber => cases signed
  | infinity s => cases signed; rfl
  | zero s => cases signed; rfl
  | finite s m e pos =>
    cases signed
    exact sign?_roundWithAccuracy ..

theorem sign?_ofInt {n : Int} (format : Format) (natural : 0 ≤ n) :
    sign? (UnpackedFloat.ofInt format n) = some .positive := by
  simp only [UnpackedFloat.ofInt, UnpackedFloat.normalize]
  split
  next below =>
    exact absurd (compare_lt_iff_lt.mp below) (Int.not_lt.mpr natural)
  next => rfl
  next => exact sign?_roundWithAccuracy ..

/-- A negative number, or the negative zero, is at most a positive one. -/
theorem le_of_signs {u v : UnpackedFloat} (negative : sign? u = some .negative)
    (positive : sign? v = some .positive) : u.le v = true := by
  cases u <;> cases v <;> cases negative <;> cases positive <;> rfl

theorem le_iff (x y : Float32) : x ≤ y ↔ (unpack x).le (unpack y) = true := by
  show decide (x.toModel ≤ y.toModel) = true ↔ _
  rw [decide_eq_true_iff]
  rfl

theorem lt_iff (x y : Float32) : x < y ↔ (unpack x).lt (unpack y) = true := by
  show decide (x.toModel < y.toModel) = true ↔ _
  rw [decide_eq_true_iff]
  rfl

/-- A number that is not below zero and is not the negative zero. -/
def Magnitude (x : Float32) : Prop := sign? (unpack x) = some .positive

namespace Magnitude

theorem abs {x : Float32} (number : x.isNaN = false) : Magnitude x.abs := by
  have signed : sign? (unpack x.abs) = sign? (unpack x).abs := sign?_unpack_pack _
  rw [Magnitude, signed, sign?_abs]
  have number : (unpack x).isNaN = false := number
  cases u : unpack x with
  | notANumber => rw [u] at number; cases number
  | infinity => rfl
  | zero => rfl
  | finite => rfl

theorem ofInt {n : Int} (natural : 0 ≤ n) : Magnitude (ofInt n) := by
  rw [Magnitude, Binary32.ofInt, sign?_unpack_pack]
  exact sign?_ofInt _ natural

theorem mul_finite {x y : Float32} (magnitude : Magnitude x) {mantissa : Nat} {exponent : Int}
    {positive : 0 < mantissa} (finite : unpack y = .finite .positive mantissa exponent positive) :
    Magnitude (x * y) := by
  have signed : sign? (unpack (x * y)) = sign? (UnpackedFloat.mul .binary32 (unpack x) (unpack y)) :=
    sign?_unpack_pack _
  rw [Magnitude, signed, finite]
  exact sign?_mul_finite magnitude ..

theorem neg_le {x : Float32} (magnitude : Magnitude x) : -x ≤ x := by
  have signed : sign? (unpack (-x)) = sign? (unpack x).neg := sign?_unpack_pack _
  rw [sign?_neg, magnitude] at signed
  rw [le_iff]
  exact le_of_signs signed magnitude

end Magnitude

/-- The bounds of a clamp are in order for every magnitude. -/
theorem clampSymmetric_ok {limit : Float32} (magnitude : Magnitude limit) (x : Float32) :
    clampSymmetric limit x = .ok (cutOff (-limit) limit x) := by
  rw [clampSymmetric, clamp, if_pos magnitude.neg_le]

end Mecanum.Binary32
