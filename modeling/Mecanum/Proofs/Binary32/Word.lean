import Mecanum.Proofs.Binary32.Order

/-!
# Words behind numbers

The integer part of a number that is not negative is the floor of its value, and the opposite number
has the opposite integer part. So a word has the sign of the number it comes from.
-/
namespace Mecanum.Binary32

open Float.Model (UnpackedFloat)
open Float.Model.UnpackedFloat

/-! ### Opposite numbers -/

theorem sign_apply_neg (sign : Sign) (n : Int) : (-sign).apply n = -sign.apply n := by
  cases sign with
  | negative => exact (Int.neg_neg n).symm
  | positive => rfl

theorem Stored.unpack_pack {u : UnpackedFloat} (stored : Stored u) : unpack (pack u) = u := by
  cases stored with
  | infinity sign => exact unpack_pack_infinity sign
  | zero sign => exact unpack_packedZero
  | finite sign positive standard most => exact standard.unpack_pack most

theorem Stored.neg {u : UnpackedFloat} (stored : Stored u) : Stored u.neg := by
  cases stored with
  | infinity sign => exact .infinity _
  | zero sign => exact .zero _
  | finite sign positive standard most => exact .finite _ positive standard most

theorem unpack_neg (x : Float32) : unpack (-x) = (unpack x).neg := by
  have opposite : -x = pack (unpack x).neg := rfl
  rw [opposite]
  cases number : x.isNaN with
  | false => exact (stored_unpack number).neg.unpack_pack
  | true =>
    rw [unpack_of_isNaN number]
    rfl

theorem isNaN_neg (x : Float32) : (-x).isNaN = x.isNaN := by
  show (unpack (-x)).isNaN = (unpack x).isNaN
  rw [unpack_neg]
  cases unpack x <;> rfl

theorem isFinite_neg (x : Float32) : (-x).isFinite = x.isFinite := by
  show (unpack (-x)).isFinite = (unpack x).isFinite
  rw [unpack_neg]
  cases unpack x <;> rfl

protected theorem neg_neg (x : Float32) : - -x = x := by
  rw [← pack_unpack (- -x), unpack_neg, unpack_neg]
  conv_rhs => rw [← pack_unpack x]
  cases unpack x <;> simp [UnpackedFloat.neg, sign_neg_neg]

theorem place_neg (x : Float32) : place (-x) = -place x := by
  rw [place, place, unpack_neg]
  cases unpack x with
  | infinity sign => exact sign_apply_neg ..
  | finite sign mantissa exponent => exact sign_apply_neg ..
  | _ => rfl

theorem value_neg (x : Float32) : value (-x) = -value x := by
  rw [value, unpack_neg, exactly_neg]
  rfl

theorem neg_le_zero_iff {x : Float32} : -x ≤ 0 ↔ 0 ≤ x := by
  cases number : x.isNaN with
  | false =>
    have zero : place 0 = 0 := rfl
    rw [le_iff_place ((isNaN_neg x).trans number) rfl, le_iff_place rfl number, place_neg, zero]
    omega
  | true =>
    constructor
    · intro order
      have none := (numbers_of_le order).1
      rw [isNaN_neg, number] at none
      cases none
    · intro order
      have none := (numbers_of_le order).2
      rw [number] at none
      cases none

/-- Nothing that is not negative is below the opposite of what is not. -/
theorem not_lt_neg {x y : Float32} (left : 0 ≤ x) (right : 0 ≤ y) : ¬x < -y := by
  intro less
  have below := Binary32.lt_of_lt_of_le less (neg_le_zero_iff.mpr right)
  have most := Binary32.lt_of_le_of_lt left below
  exact absurd most (by decide +kernel)

/-! ### Integer parts -/

/-- The rounding to an integer is toward zero. -/
theorem roundToInt_eq (sign : Sign) (mantissa : Nat) (exponent : Int) :
    roundToInt sign mantissa exponent = sign.apply ⌊(mantissa * 2 ^ exponent : ℚ)⌋ := by
  have shown : roundToInt sign mantissa exponent = sign.apply
      ((ExtendedMantissa.ofMantissaAndAccuracy (mantissa <<< (exponent - 0).toNat) .exact) >>>
        (0 - (exponent - (exponent - 0).toNat)).toNat).mantissa := rfl
  rw [shown, mantissa_shiftRight, mantissa_ofMantissaAndAccuracy, Nat.shiftLeft_eq]
  congr 1
  rcases le_total 0 exponent with natural | small
  · obtain ⟨count, rfl⟩ := Int.eq_ofNat_of_zero_le natural
    have whole : (mantissa * 2 ^ (count : Int) : ℚ) = (mantissa * 2 ^ count : Nat) := by
      push_cast
      rw [zpow_natCast]
    rw [whole, Int.floor_natCast]
    simp
  · obtain ⟨count, rfl⟩ : ∃ count : Nat, exponent = -count := ⟨exponent.natAbs, by omega⟩
    have quotient : (mantissa * 2 ^ (-(count : Int)) : ℚ) = mantissa / (2 ^ count : Nat) := by
      rw [zpow_neg, zpow_natCast]
      push_cast
      rfl
    rw [quotient, Rat.floor_natCast_div_natCast]
    simp

/-- The integer part of a finite number has its sign and the floor of its magnitude. -/
theorem toInt_eq_floor {u : UnpackedFloat} (canonical : Canonical u) (lo hi : Int)
    (natural : 0 ≤ exactly u) : u.toInt lo hi = ⌊exactly u⌋ := by
  cases canonical with
  | zero sign => rfl
  | @finite sign mantissa exponent positive standard =>
    rw [toInt, roundToInt_eq]
    cases sign with
    | positive => rfl
    | negative =>
      have some : (0 : ℚ) < mantissa * 2 ^ exponent := by positivity
      exact absurd natural (neg_neg_of_pos some).not_ge

theorem toInt_neg {u : UnpackedFloat} (finite : u.isFinite = true) (lo hi : Int) :
    u.neg.toInt lo hi = -u.toInt lo hi := by
  cases u with
  | finite sign mantissa exponent =>
    rw [UnpackedFloat.neg, toInt, toInt, roundToInt_eq, roundToInt_eq, sign_apply_neg]
  | zero => rfl
  | _ => cases finite

/-! ### Words -/

/-- A word is the floor of a number that is not negative, if it has room for it. -/
theorem toWord_eq_floor {x : Float32} (finite : x.isFinite = true) (natural : 0 ≤ value x)
    (small : value x < 2 ^ 31) : toWord x = ⌊value x⌋ := by
  have least : 0 ≤ ⌊value x⌋ := Int.floor_nonneg.mpr natural
  have most : ⌊value x⌋ < 2 ^ 31 := Int.floor_lt.mpr (by exact_mod_cast small)
  have part := toInt_eq_floor (canonical_unpack finite) (-2147483648) 2147483647 natural
  rw [toWord, truncate, part]
  exact (max_eq_right (le_min (by decide) (least.trans' (by decide)))).trans
    (min_eq_right (by omega))

/-- A natural number becomes a natural word. -/
theorem toWord_natural {x : Float32} (natural : 0 ≤ x) : 0 ≤ toWord x := by
  rw [toWord, truncate]
  apply le_max_of_le_right
  apply le_min (by decide)
  rcases natural_cases natural with ⟨finite, above⟩ | infinite
  · rw [toInt_eq_floor (canonical_unpack finite) _ _ above]
    exact Int.floor_nonneg.mpr above
  · rw [infinite]
    decide

theorem toWord_neg_nonpos {x : Float32} (natural : 0 ≤ x) : toWord (-x) ≤ 0 := by
  rw [toWord, truncate, unpack_neg]
  apply max_le (by decide)
  apply min_le_of_right_le
  rcases natural_cases natural with ⟨finite, above⟩ | infinite
  · rw [toInt_neg (canonical_unpack finite).isFinite,
      toInt_eq_floor (canonical_unpack finite) _ _ above]
    exact neg_nonpos.mpr (Int.floor_nonneg.mpr above)
  · rw [infinite]
    decide

theorem toWord_of_isNaN {x : Float32} (none : x.isNaN = true) : toWord x = 0 := by
  rw [toWord, truncate, unpack_of_isNaN none]
  rfl

/-- A word that is not at the end of the range has its opposite. -/
theorem toWord_neg {x : Float32} (finite : x.isFinite = true) (natural : 0 ≤ value x)
    (small : value x < 2 ^ 31) : toWord (-x) = -toWord x := by
  have least : 0 ≤ ⌊value x⌋ := Int.floor_nonneg.mpr natural
  have most : ⌊value x⌋ < 2 ^ 31 := Int.floor_lt.mpr (by exact_mod_cast small)
  have part := toInt_eq_floor (canonical_unpack finite) (-2147483648) 2147483647 natural
  rw [toWord_eq_floor finite natural small, toWord, truncate, unpack_neg,
    toInt_neg (canonical_unpack finite).isFinite, part]
  show max _ (min _ (-⌊value x⌋)) = -⌊value x⌋
  omega

/-! ### Limits -/

/-- Cutting off leaves what is no number as it is. -/
theorem cutOff_of_isNaN {x : Float32} (none : x.isNaN = true) (lo hi : Float32) :
    cutOff lo hi x = x := by
  have below : ¬x < lo := by
    intro less
    rw [(numbers_of_lt less).1] at none
    cases none
  have above : ¬hi < x := by
    intro more
    rw [(numbers_of_lt more).2] at none
    cases none
  rw [cutOff, if_neg below, if_neg above]

end Mecanum.Binary32
