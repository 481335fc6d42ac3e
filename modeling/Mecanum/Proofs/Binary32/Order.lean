import Mecanum.Proofs.Binary32.Rounding

/-!
# The order of all numbers

Every number has a place in the order, an integer: zeros have the place zero, and the place of
a positive number is its bit pattern, up to that of infinity. Numbers compare as their places do,
infinities included (`le_iff_place`). A rounded result that is too large to be packed becomes an
infinity, which leaves it on its side of every number (`Rounds.le_pack`, `Rounds.pack_le`). So
adding what is not negative does not lead down, and subtracting it does not lead up, unless the
result is not a number. The lesser and the greater of two numbers lie where the order has them.
-/
namespace Mecanum.Binary32

open Float.Model (Format UnpackedFloat)
open Float.Model.UnpackedFloat

/-- The place of an unpacked number in the order of all numbers. -/
def rank : UnpackedFloat → Int
  | .notANumber => 0
  | .infinity sign => sign.apply (255 * 2 ^ 23)
  | .zero _ => 0
  | .finite sign mantissa exponent _ => sign.apply ((exponent + 149) * 2 ^ 23 + mantissa)

def place (x : Float32) : Int := rank (unpack x)

/-- The form of every unpacked number. -/
inductive Stored : UnpackedFloat → Prop where
  | infinity (sign : Sign) : Stored (.infinity sign)
  | zero (sign : Sign) : Stored (.zero sign)
  | finite (sign : Sign) {mantissa : Nat} {exponent : Int} (positive : 0 < mantissa)
      (standard : Standard mantissa exponent) (most : exponent ≤ 104) :
      Stored (.finite sign mantissa exponent positive)

theorem unpack_pack_infinity (sign : Sign) : unpack (pack (.infinity sign)) = .infinity sign := by
  cases sign <;> rfl

/-- What is too large to be packed becomes an infinity. -/
theorem pack_large {sign : Sign} {mantissa : Nat} {exponent : Int} {positive : 0 < mantissa}
    (large : 104 < exponent) :
    pack (.finite sign mantissa exponent positive) = pack (.infinity sign) := by
  have bias : (Format.exponentBias .binary32 : Int) = 127 := rfl
  have bits : UnpackedFloat.pack .binary32 (.finite sign mantissa exponent positive) =
      UnpackedFloat.pack .binary32 (.infinity sign) := by
    unfold UnpackedFloat.pack
    dsimp only
    rw [if_pos (by omega)]
  simp only [pack, Float32.Model.pack, bits]

/-- A number unpacks into a form that can be stored. -/
theorem stored_unpack {x : Float32} (number : x.isNaN = false) : Stored (unpack x) := by
  have number : (unpack x).isNaN = false := number
  cases u : unpack x with
  | notANumber =>
    rw [u] at number
    cases number
  | infinity sign => exact .infinity sign
  | zero sign => exact .zero sign
  | finite sign mantissa exponent positive =>
    have finite : x.isFinite = true := congrArg UnpackedFloat.isFinite u
    have canonical := canonical_unpack finite
    rw [u] at canonical
    cases canonical with
    | finite _ _ standard =>
      refine .finite sign positive standard (not_lt.mp ?_)
      intro large
      have same := pack_unpack x
      rw [u, pack_large large] at same
      rw [← same, unpack_pack_infinity] at u
      cases u

theorem unpack_of_isNaN {x : Float32} (none : x.isNaN = true) : unpack x = .notANumber := by
  have none : (unpack x).isNaN = true := none
  cases u : unpack x with
  | notANumber => rfl
  | _ =>
    rw [u] at none
    cases none

theorem isNaN_of_isFinite {x : Float32} (finite : x.isFinite = true) : x.isNaN = false :=
  (canonical_unpack finite).isNaN

theorem Stored.canonical_or_infinity {u : UnpackedFloat} (stored : Stored u) :
    Canonical u ∨ ∃ sign, u = .infinity sign := by
  cases stored with
  | infinity sign => exact .inr ⟨sign, rfl⟩
  | zero sign => exact .inl (.zero sign)
  | finite sign positive standard => exact .inl (.finite sign positive standard)

/-! ### Places and values -/

section Standard

variable {m n : Nat} {e f : Int}

theorem Standard.rank_lt (left : Standard m e) (right : Standard n f) (below : e < f) :
    (e + 149) * 2 ^ 23 + m < (f + 149) * 2 ^ 23 + n := by
  have small := left.small
  have least := left.least
  have large : 2 ^ 23 ≤ n := right.full.resolve_right (by omega)
  omega

theorem Standard.rank_lt_iff (left : Standard m e) (right : Standard n f) :
    (e + 149) * 2 ^ 23 + m < (f + 149) * 2 ^ 23 + n ↔ (m * 2 ^ e : ℚ) < n * 2 ^ f := by
  rcases lt_trichotomy e f with below | rfl | above
  · exact iff_of_true (left.rank_lt right below) (left.scaled_lt right below)
  · have positive : (0 : ℚ) < 2 ^ e := by positivity
    rw [mul_lt_mul_iff_left₀ positive, Nat.cast_lt]
    omega
  · exact iff_of_false (right.rank_lt left above).not_gt (right.scaled_lt left above).not_gt

theorem Standard.rank_pos (standard : Standard m e) (positive : 0 < m) :
    0 < (e + 149) * 2 ^ 23 + m := by
  have least := standard.least
  omega

end Standard

/-- Finite numbers have their places as their values demand. -/
theorem rank_lt_iff {u v : UnpackedFloat} (left : Canonical u) (right : Canonical v) :
    rank u < rank v ↔ exactly u < exactly v := by
  have above {m : Nat} (e : Int) (positive : 0 < m) : (0 : ℚ) < m * 2 ^ e := by positivity
  cases left with
  | zero sign =>
    cases right with
    | zero other => exact iff_of_false (lt_irrefl _) (lt_irrefl _)
    | @finite other n f some standard =>
      have first := standard.rank_pos some
      have second := above f some
      cases other with
      | positive => exact iff_of_true first second
      | negative => exact iff_of_false (neg_neg_of_pos first).not_gt (neg_neg_of_pos second).not_gt
  | @finite sign m e some standard =>
    have first := standard.rank_pos some
    have second := above e some
    cases right with
    | zero other =>
      cases sign with
      | positive => exact iff_of_false first.not_gt second.not_gt
      | negative => exact iff_of_true (neg_neg_of_pos first) (neg_neg_of_pos second)
    | @finite other n f some' standard' =>
      have first' := standard'.rank_pos some'
      have second' := above f some'
      cases sign <;> cases other
      · exact neg_lt_neg_iff.trans ((standard'.rank_lt_iff standard).trans neg_lt_neg_iff.symm)
      · exact iff_of_true ((neg_neg_of_pos first).trans first')
          ((neg_neg_of_pos second).trans second')
      · exact iff_of_false ((neg_neg_of_pos first').trans first).not_gt
          ((neg_neg_of_pos second').trans second).not_gt
      · exact standard.rank_lt_iff standard'

theorem rank_le_iff {u v : UnpackedFloat} (left : Canonical u) (right : Canonical v) :
    rank u ≤ rank v ↔ exactly u ≤ exactly v := by
  rw [← not_lt, ← not_lt, rank_lt_iff right left]

/-! ### Comparing -/

theorem Stored.abs_rank_le {u : UnpackedFloat} (stored : Stored u) : |rank u| ≤ 255 * 2 ^ 23 := by
  cases stored with
  | infinity sign => cases sign <;> decide
  | zero sign => exact abs_zero.trans_le (by decide)
  | finite sign positive standard most =>
    have small := standard.small
    have least := standard.least
    rw [abs_le]
    cases sign <;> simp only [rank, Sign.apply] <;> omega

/-- Everything but an infinity lies between the two infinities. -/
theorem Canonical.abs_rank_lt {u : UnpackedFloat} (canonical : Canonical u) (stored : Stored u) :
    |rank u| < 255 * 2 ^ 23 := by
  cases stored with
  | infinity sign => cases canonical
  | zero sign => exact abs_zero.trans_lt (by decide)
  | finite sign positive standard most =>
    have small := standard.small
    have least := standard.least
    rw [abs_lt]
    cases sign <;> simp only [rank, Sign.apply] <;> omega

/-- Stored numbers compare as their ranks. -/
theorem Stored.compare_eq {u v : UnpackedFloat} (left : Stored u) (right : Stored v) :
    u.compare v = some (compare (rank u) (rank v)) := by
  rcases left.canonical_or_infinity with first | ⟨sign, rfl⟩
  · rcases right.canonical_or_infinity with second | ⟨other, rfl⟩
    · rw [Binary32.compare_eq first second]
      exact congrArg some (compare_congr (rank_lt_iff first second) (rank_lt_iff second first)).symm
    · obtain ⟨below, above⟩ := abs_lt.mp (first.abs_rank_lt left)
      cases other with
      | negative =>
        have less : u.compare (.infinity .negative) = some .gt := by cases first <;> rfl
        exact less.trans (congrArg some (compare_gt_iff_gt.mpr below).symm)
      | positive =>
        have less : u.compare (.infinity .positive) = some .lt := by cases first <;> rfl
        exact less.trans (congrArg some (compare_lt_iff_lt.mpr above).symm)
  · rcases right.canonical_or_infinity with second | ⟨other, rfl⟩
    · obtain ⟨below, above⟩ := abs_lt.mp (second.abs_rank_lt right)
      cases sign with
      | negative =>
        have less : UnpackedFloat.compare (.infinity .negative) v = some .lt := by
          cases second <;> rfl
        exact less.trans (congrArg some (compare_lt_iff_lt.mpr below).symm)
      | positive =>
        have more : UnpackedFloat.compare (.infinity .positive) v = some .gt := by
          cases second <;> rfl
        exact more.trans (congrArg some (compare_gt_iff_gt.mpr above).symm)
    · cases sign <;> cases other <;> rfl

section Numbers

variable {x y : Float32} (left : x.isNaN = false) (right : y.isNaN = false)

include left right

theorem lt_iff_place : x < y ↔ place x < place y := by
  rw [lt_iff, UnpackedFloat.lt, (stored_unpack left).compare_eq (stored_unpack right), beq_iff_eq,
    Option.some_inj, compare_lt_iff_lt]
  rfl

theorem le_iff_place : x ≤ y ↔ place x ≤ place y := by
  rw [le_iff, UnpackedFloat.le, (stored_unpack left).compare_eq (stored_unpack right),
    Option.any_some, Ordering.isLE_iff_ne_gt, compare_gt_iff_gt]
  exact not_lt

theorem not_lt_iff_le : ¬x < y ↔ y ≤ x := by
  rw [lt_iff_place left right, le_iff_place right left, not_lt]

end Numbers

/-- Only numbers compare. -/
theorem numbers_of_le {x y : Float32} (order : x ≤ y) : x.isNaN = false ∧ y.isNaN = false := by
  rw [le_iff] at order
  show (unpack x).isNaN = false ∧ (unpack y).isNaN = false
  cases u : unpack x with
  | notANumber =>
    rw [u] at order
    cases order
  | _ =>
    cases v : unpack y with
    | notANumber =>
      rw [u, v] at order
      cases order
    | _ => exact ⟨rfl, rfl⟩

theorem numbers_of_lt {x y : Float32} (order : x < y) : x.isNaN = false ∧ y.isNaN = false := by
  rw [lt_iff, UnpackedFloat.lt, beq_iff_eq] at order
  apply numbers_of_le
  rw [le_iff, UnpackedFloat.le, order]
  rfl

protected theorem le_trans {x y z : Float32} (first : x ≤ y) (second : y ≤ z) : x ≤ z := by
  obtain ⟨left, middle⟩ := numbers_of_le first
  obtain ⟨-, right⟩ := numbers_of_le second
  rw [le_iff_place left middle] at first
  rw [le_iff_place middle right] at second
  exact (le_iff_place left right).mpr (first.trans second)

protected theorem lt_of_le_of_lt {x y z : Float32} (first : x ≤ y) (second : y < z) : x < z := by
  obtain ⟨left, middle⟩ := numbers_of_le first
  obtain ⟨-, right⟩ := numbers_of_lt second
  rw [le_iff_place left middle] at first
  rw [lt_iff_place middle right] at second
  exact (lt_iff_place left right).mpr (first.trans_lt second)

protected theorem lt_of_lt_of_le {x y z : Float32} (first : x < y) (second : y ≤ z) : x < z := by
  obtain ⟨left, middle⟩ := numbers_of_lt first
  obtain ⟨-, right⟩ := numbers_of_le second
  rw [lt_iff_place left middle] at first
  rw [le_iff_place middle right] at second
  exact (lt_iff_place left right).mpr (first.trans_le second)

protected theorem le_refl {x : Float32} (number : x.isNaN = false) : x ≤ x :=
  (le_iff_place number number).mpr le_rfl

theorem zero_natural : (0 : Float32) ≤ 0 := Binary32.le_refl rfl

protected theorem le_of_lt {x y : Float32} (order : x < y) : x ≤ y := by
  obtain ⟨left, right⟩ := numbers_of_lt order
  rw [lt_iff_place left right] at order
  exact (le_iff_place left right).mpr order.le

/-! ### Results -/

/-- A result that is too large to be packed takes the place of an infinity. -/
theorem place_pack {u : UnpackedFloat} (canonical : Canonical u) :
    place (pack u) = max (-(255 * 2 ^ 23)) (min (255 * 2 ^ 23) (rank u)) := by
  unfold place
  cases canonical with
  | zero sign =>
    cases sign <;> rfl
  | @finite sign mantissa exponent positive standard =>
    have least := standard.least
    have small := standard.small
    have full := standard.full
    rcases lt_or_ge 104 exponent with large | fits
    · rw [pack_large large, unpack_pack_infinity]
      cases sign <;> simp only [rank, Sign.apply] <;> omega
    · rw [standard.unpack_pack fits]
      cases sign <;> simp only [rank, Sign.apply] <;> omega

theorem isNaN_pack {u : UnpackedFloat} (canonical : Canonical u) : (pack u).isNaN = false := by
  show (unpack (pack u)).isNaN = false
  cases canonical with
  | zero sign => cases sign <;> rfl
  | @finite sign mantissa exponent positive standard =>
    rcases lt_or_ge 104 exponent with large | fits
    · rw [pack_large large, unpack_pack_infinity]
      rfl
    · rw [standard.unpack_pack fits]
      rfl

/-- A finite result has not become infinite in packing. -/
theorem unpack_pack_of_isFinite {u : UnpackedFloat} (canonical : Canonical u)
    (finite : (pack u).isFinite = true) : unpack (pack u) = u := by
  have finite : (unpack (pack u)).isFinite = true := finite
  cases canonical with
  | zero sign => exact unpack_packedZero
  | @finite sign mantissa exponent positive standard =>
    rcases lt_or_ge 104 exponent with large | fits
    · rw [pack_large large, unpack_pack_infinity] at finite
      cases finite
    · exact standard.unpack_pack fits

/-- Packing keeps the order, also of what becomes infinite. -/
theorem pack_le_pack {u v : UnpackedFloat} (left : Canonical u) (right : Canonical v)
    (order : exactly u ≤ exactly v) : pack u ≤ pack v := by
  have ranked : rank u ≤ rank v := (rank_le_iff left right).mpr order
  rw [le_iff_place (isNaN_pack left) (isNaN_pack right), place_pack left, place_pack right]
  exact max_le_max_left _ (min_le_min_left _ ranked)

theorem representable_signed (sign : Sign) {mantissa : Nat} {exponent : Int}
    (small : mantissa < 2 ^ 24) (least : -149 ≤ exponent) :
    Representable (signed sign (mantissa * 2 ^ exponent)) := by
  have magnitude : Representable (mantissa * 2 ^ exponent) :=
    ⟨mantissa, exponent, small, least, by simp⟩
  cases sign with
  | positive => exact magnitude
  | negative => exact magnitude.neg

theorem representable_exactly {u : UnpackedFloat} (canonical : Canonical u) :
    Representable (exactly u) := by
  cases canonical with
  | zero sign => exact representable_zero
  | finite sign positive standard => exact representable_signed sign standard.small standard.least

namespace Rounds

variable {exact : ℚ} {u : UnpackedFloat} {x : Float32} (rounds : Rounds exact u)
  (finite : x.isFinite = true)

include rounds finite

/-- What is stored of a result is not below a number that the exact result is not below. -/
theorem le_pack (order : value x ≤ exact) : x ≤ pack u := by
  have canonical := canonical_unpack finite
  have below := rounds.lower (representable_exactly canonical) order
  rw [← pack_unpack x]
  exact pack_le_pack canonical rounds.canonical below

theorem pack_le (order : exact ≤ value x) : pack u ≤ x := by
  have canonical := canonical_unpack finite
  have above := rounds.upper (representable_exactly canonical) order
  rw [← pack_unpack x]
  exact pack_le_pack rounds.canonical canonical above

end Rounds

/-! ### Numbers that are not negative -/

theorem value_zero : value 0 = 0 := rfl

theorem finite_or_infinity {x : Float32} (number : x.isNaN = false) :
    x.isFinite = true ∨ ∃ sign, unpack x = .infinity sign := by
  rcases (stored_unpack number).canonical_or_infinity with canonical | infinite
  · exact .inl canonical.isFinite
  · exact .inr infinite

/-- A number that is not negative is the upper infinity, or its value is not negative. -/
theorem natural_cases {x : Float32} (natural : 0 ≤ x) :
    x.isFinite = true ∧ 0 ≤ value x ∨ unpack x = .infinity .positive := by
  obtain ⟨-, number⟩ := numbers_of_le natural
  rcases finite_or_infinity number with finite | ⟨sign, infinite⟩
  · exact .inl ⟨finite, (le_iff_value rfl finite).mp natural⟩
  · cases sign with
    | positive => exact .inr infinite
    | negative =>
      rw [le_iff, infinite] at natural
      cases natural

/-- A number above zero has the positive sign. -/
theorem unpack_of_pos {x : Float32} (finite : x.isFinite = true) (above : 0 < value x) :
    ∃ mantissa exponent positive, unpack x = .finite .positive mantissa exponent positive := by
  rcases unpack_of_isFinite finite with ⟨sign, u⟩ | ⟨sign, mantissa, exponent, positive, u⟩
  · rw [value, u] at above
    exact absurd above (lt_irrefl 0)
  · cases sign with
    | positive => exact ⟨mantissa, exponent, positive, u⟩
    | negative =>
      rw [value, u] at above
      have some : (0 : ℚ) < mantissa * 2 ^ exponent := by positivity
      exact absurd above (neg_neg_of_pos some).not_gt

/-- A number that is not negative is a magnitude, unless it is the negative zero. -/
theorem magnitude_or_neg_zero {x : Float32} (natural : 0 ≤ x) : Magnitude x ∨ x = -0 := by
  rcases natural_cases natural with ⟨finite, above⟩ | infinite
  · rcases unpack_of_isFinite finite with ⟨sign, u⟩ | ⟨sign, mantissa, exponent, positive, u⟩
    · cases sign with
      | positive => exact .inl (congrArg sign? u)
      | negative =>
        right
        rw [← pack_unpack x, u]
        rfl
    · have some : value x ≠ 0 := by
        rw [value, u]
        have magnitude : (mantissa * 2 ^ exponent : ℚ) ≠ 0 := by positivity
        cases sign with
        | positive => exact magnitude
        | negative => exact neg_ne_zero.mpr magnitude
      obtain ⟨_, _, _, u⟩ := unpack_of_pos finite (above.lt_of_ne' some)
      exact .inl (congrArg sign? u)
  · exact .inl (congrArg sign? infinite)

theorem le_infinity {x : Float32} (number : x.isNaN = false) : x ≤ pack (.infinity .positive) := by
  have bounds := abs_le.mp (stored_unpack number).abs_rank_le
  rw [le_iff_place number rfl]
  exact bounds.2

theorem infinity_le {x : Float32} (number : x.isNaN = false) : pack (.infinity .negative) ≤ x := by
  have bounds := abs_le.mp (stored_unpack number).abs_rank_le
  rw [le_iff_place rfl number]
  exact bounds.1

section Infinity

variable {u : UnpackedFloat} (canonical : Canonical u)

include canonical

theorem add_infinity (sign : Sign) :
    UnpackedFloat.add .binary32 u (.infinity sign) = .infinity sign := by
  cases canonical <;> rfl

theorem infinity_add (sign : Sign) :
    UnpackedFloat.add .binary32 (.infinity sign) u = .infinity sign := by
  cases canonical <;> rfl

theorem sub_infinity (sign : Sign) :
    UnpackedFloat.sub .binary32 u (.infinity sign) = .infinity (-sign) := by
  cases canonical <;> rfl

theorem infinity_sub (sign : Sign) :
    UnpackedFloat.sub .binary32 (.infinity sign) u = .infinity sign := by
  cases canonical <;> rfl

/-- Infinity times a magnitude is infinity, unless the magnitude is zero. -/
theorem infinity_mul (natural : 0 ≤ exactly u) :
    UnpackedFloat.mul .binary32 (.infinity .positive) u = .notANumber ∧ exactly u = 0 ∨
      UnpackedFloat.mul .binary32 (.infinity .positive) u = .infinity .positive := by
  cases canonical with
  | zero => exact .inl ⟨rfl, rfl⟩
  | @finite sign mantissa exponent positive =>
    cases sign with
    | positive => exact .inr rfl
    | negative =>
      have some : (0 : ℚ) < mantissa * 2 ^ exponent := by positivity
      exact absurd natural (neg_neg_of_pos some).not_ge

/-- An infinite factor gives an infinity, or no number next to a zero. -/
theorem mul_infinity (natural : 0 ≤ exactly u) :
    UnpackedFloat.mul .binary32 u (.infinity .positive) = .notANumber ∧ exactly u = 0 ∨
      UnpackedFloat.mul .binary32 u (.infinity .positive) = .infinity .positive := by
  have swapped : UnpackedFloat.mul .binary32 u (.infinity .positive) =
      UnpackedFloat.mul .binary32 (.infinity .positive) u := by
    cases canonical with
    | zero => rfl
    | @finite sign => cases sign <;> rfl
  rw [swapped]
  exact infinity_mul canonical natural

end Infinity

theorem isFinite_of_pack {u : UnpackedFloat} (finite : (pack u).isFinite = true) :
    u.isFinite = true := by
  cases u with
  | notANumber => cases finite
  | infinity sign => cases sign <;> cases finite
  | _ => rfl

/-- A finite product has finite factors. -/
theorem isFinite_of_mul {x y : Float32} (finite : (x * y).isFinite = true) :
    x.isFinite = true ∧ y.isFinite = true := by
  have product : (UnpackedFloat.mul .binary32 (unpack x) (unpack y)).isFinite = true :=
    isFinite_of_pack finite
  show (unpack x).isFinite = true ∧ (unpack y).isFinite = true
  cases u : unpack x with
  | notANumber =>
    rw [u] at product
    cases product
  | infinity sign => cases v : unpack y <;> rw [u, v] at product <;> cases product
  | _ =>
    cases v : unpack y with
    | zero => exact ⟨rfl, rfl⟩
    | finite => exact ⟨rfl, rfl⟩
    | _ =>
      rw [u, v] at product
      cases product

/-- A finite product is the rounding of the exact one. -/
theorem nearest_mul_of_isFinite {x y : Float32} (finite : (x * y).isFinite = true) :
    Nearest (value x * value y) (x * y) := by
  obtain ⟨left, right⟩ := isFinite_of_mul finite
  have rounds := rounds_mul (canonical_unpack left) (canonical_unpack right)
  have behind : unpack (x * y) = UnpackedFloat.mul .binary32 (unpack x) (unpack y) :=
    unpack_pack_of_isFinite rounds.canonical finite
  rw [Nearest, behind]
  exact rounds

theorem add_notANumber (u : UnpackedFloat) :
    UnpackedFloat.add .binary32 u .notANumber = .notANumber := by
  cases u <;> rfl

theorem sub_notANumber (u : UnpackedFloat) :
    UnpackedFloat.sub .binary32 u .notANumber = .notANumber := by
  cases u <;> rfl

/-- Adding what is not negative, if it is a number, does not lead down. -/
protected theorem le_add {x y : Float32} (number : x.isNaN = false)
    (natural : y.isNaN = true ∨ 0 ≤ y) : (x + y).isNaN = true ∨ x ≤ x + y := by
  have sum : x + y = pack (UnpackedFloat.add .binary32 (unpack x) (unpack y)) := rfl
  rcases natural with none | natural
  · rw [sum, unpack_of_isNaN none, add_notANumber]
    exact .inl rfl
  rcases finite_or_infinity number with finite | ⟨sign, u⟩
  · have canonical := canonical_unpack finite
    rcases natural_cases natural with ⟨finite', above⟩ | v
    · have rounds := rounds_add canonical (canonical_unpack finite')
      exact .inr (rounds.le_pack finite (le_add_of_nonneg_right above))
    · rw [sum, v, add_infinity canonical]
      exact .inr (le_infinity number)
  · rcases natural_cases natural with ⟨finite', above⟩ | v
    · rw [sum, u, infinity_add (canonical_unpack finite'), ← u, pack_unpack]
      exact .inr (Binary32.le_refl number)
    · rw [sum, u, v]
      cases sign with
      | negative => exact .inl rfl
      | positive => exact .inr (le_infinity number)

/-- Subtracting what is not negative, if it is a number, does not lead up. -/
protected theorem sub_le {x y : Float32} (number : x.isNaN = false)
    (natural : y.isNaN = true ∨ 0 ≤ y) : (x - y).isNaN = true ∨ x - y ≤ x := by
  have difference : x - y = pack (UnpackedFloat.sub .binary32 (unpack x) (unpack y)) := rfl
  rcases natural with none | natural
  · rw [difference, unpack_of_isNaN none, sub_notANumber]
    exact .inl rfl
  rcases finite_or_infinity number with finite | ⟨sign, u⟩
  · have canonical := canonical_unpack finite
    rcases natural_cases natural with ⟨finite', above⟩ | v
    · have rounds := rounds_sub canonical (canonical_unpack finite')
      exact .inr (rounds.pack_le finite (sub_le_self _ above))
    · rw [difference, v, sub_infinity canonical]
      exact .inr (infinity_le number)
  · rcases natural_cases natural with ⟨finite', above⟩ | v
    · rw [difference, u, infinity_sub (canonical_unpack finite'), ← u, pack_unpack]
      exact .inr (Binary32.le_refl number)
    · rw [difference, u, v]
      cases sign with
      | negative => exact .inr (infinity_le number)
      | positive => exact .inl rfl

/-- A product of numbers that are not negative is not negative either, if it is a number. -/
theorem mul_natural {x y : Float32} (left : 0 ≤ x) (right : 0 ≤ y) :
    (x * y).isNaN = true ∨ 0 ≤ x * y := by
  have product : x * y = pack (UnpackedFloat.mul .binary32 (unpack x) (unpack y)) := rfl
  have infinite : 0 ≤ pack (.infinity .positive) := le_infinity rfl
  rcases natural_cases left with ⟨finite, above⟩ | u
  · have canonical := canonical_unpack finite
    rcases natural_cases right with ⟨finite', above'⟩ | v
    · have rounds := rounds_mul canonical (canonical_unpack finite')
      exact .inr (rounds.le_pack rfl (mul_nonneg above above'))
    · rw [product, v]
      rcases mul_infinity canonical above with ⟨none, -⟩ | some
      · rw [none]
        exact .inl rfl
      · rw [some]
        exact .inr infinite
  · rw [product, u]
    rcases natural_cases right with ⟨finite', above'⟩ | v
    · rcases infinity_mul (canonical_unpack finite') above' with ⟨none, -⟩ | some
      · rw [none]
        exact .inl rfl
      · rw [some]
        exact .inr infinite
    · rw [v]
      exact .inr infinite

/-! ### The lesser and the greater -/

section Choice

variable {x y z : Float32}

theorem lesser_le_left (number : x.isNaN = false) : lesser x y ≤ x := by
  rw [lesser, number, if_neg Bool.false_ne_true]
  split
  next less => exact Binary32.le_of_lt less
  next => exact Binary32.le_refl number

theorem lesser_le_right (number : y.isNaN = false) : lesser x y ≤ y := by
  rw [lesser]
  split
  next => exact Binary32.le_refl number
  next other =>
    split
    next => exact Binary32.le_refl number
    next least => exact (not_lt_iff_le number (Bool.eq_false_iff.mpr other)).mp least

/-- What is below both numbers, as far as they are numbers, is below the lesser one. -/
theorem le_lesser (left : x.isNaN = true ∨ z ≤ x) (right : y.isNaN = true ∨ z ≤ y)
    (number : x.isNaN = false ∨ y.isNaN = false) : z ≤ lesser x y := by
  rw [lesser]
  split
  next none =>
    have some := number.resolve_left (by rw [none]; decide)
    exact right.resolve_left (ne_true_of_eq_false some)
  next some =>
    have below := left.resolve_left some
    split
    next less => exact right.resolve_left (ne_true_of_eq_false (numbers_of_lt less).1)
    next => exact below

theorem left_le_greater (number : x.isNaN = false) : x ≤ greater x y := by
  rw [greater, number, if_neg Bool.false_ne_true]
  split
  next more => exact Binary32.le_of_lt more
  next => exact Binary32.le_refl number

theorem right_le_greater (number : y.isNaN = false) : y ≤ greater x y := by
  rw [greater]
  split
  next => exact Binary32.le_refl number
  next other =>
    split
    next => exact Binary32.le_refl number
    next most => exact (not_lt_iff_le (Bool.eq_false_iff.mpr other) number).mp most

theorem greater_le (left : x.isNaN = true ∨ x ≤ z) (right : y ≤ z) : greater x y ≤ z := by
  rw [greater]
  split
  next => exact right
  next some =>
    split
    next => exact right
    next => exact left.resolve_left some

end Choice

end Mecanum.Binary32
