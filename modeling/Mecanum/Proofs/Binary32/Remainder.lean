import Mecanum.Proofs.Binary32.Exact
import Mecanum.Proofs.Binary32.Neutral

/-!
# Exact remainders

Both operands of a remainder are multiples of the smaller of their units. So is the remainder, and
in that unit it has no more bits than the operand whose unit it is: nothing is rounded, however far
the operands are apart (`remains_remainder`). What is less than the divisor is its own remainder.

Neither is a difference rounded that is no greater than either of its operands
(`Representable.sub`).
-/
namespace Mecanum.Binary32

open Float.Model (UnpackedFloat)
open Float.Model.UnpackedFloat

/--
What is left of a dividend behind whole divisors: less than the divisor, and on the side of the
dividend.
-/
structure Remains (dividend divisor rest : ℚ) : Prop where
  whole : ∃ count : Int, dividend = rest + count * divisor
  side : 0 ≤ dividend * rest
  less : |rest| < |divisor|

/-- Behind no whole divisor the dividend is left. -/
theorem Remains.eq_of_lt {dividend divisor rest : ℚ} (remains : Remains dividend divisor rest)
    (small : |dividend| < |divisor|) : rest = dividend := by
  obtain ⟨count, whole⟩ := remains.whole
  have apart : |dividend - rest| < |divisor| := by
    have less := remains.less
    rw [abs_lt] at less small ⊢
    rcases mul_nonneg_iff.mp remains.side with ⟨left, right⟩ | ⟨left, right⟩ <;>
      constructor <;> linarith
  have product : |(count : ℚ)| * |divisor| < 1 * |divisor| := by
    rw [one_mul, ← abs_mul, ← sub_eq_iff_eq_add'.mpr whole]
    exact apart
  have none : |(count : ℚ)| < 1 := lt_of_mul_lt_mul_right product (abs_nonneg divisor)
  have none : count = 0 := Int.abs_lt_one_iff.mp (by exact_mod_cast none)
  rw [whole, none]
  simp

/-! ### Rounding a remainder -/

theorem round_zero (sign : Sign) (exponent : Int) :
    UnpackedFloat.round .binary32 sign 0 exponent = .zero sign := by
  have nothing (count : Nat) :
      ExtendedMantissa.ofMantissaAndAccuracy 0 .exact >>> count = ⟨0, false, false⟩ := by
    rw [shiftRight_exact (dvd_zero _), Nat.zero_div]
  have even : ExtendedMantissa.roundedMantissa ⟨0, false, false⟩ = 0 := rfl
  simp only [UnpackedFloat.round, decreaseExponent, roundWithAccuracy, shiftToTargetExponent,
    shiftToExponent, Nat.zero_shiftLeft, nothing, even]
  rfl

/-- A mantissa that fits is not rounded. -/
theorem round_exact (sign : Sign) {mantissa : Nat} {exponent : Int} (small : mantissa < 2 ^ 24)
    (least : -149 ≤ exponent) :
    Canonical (UnpackedFloat.round .binary32 sign mantissa exponent) ∧
      exactly (UnpackedFloat.round .binary32 sign mantissa exponent) =
        signed sign (mantissa * 2 ^ exponent) := by
  rcases Nat.eq_zero_or_pos mantissa with rfl | positive
  · rw [round_zero]
    refine ⟨.zero sign, ?_⟩
    cases sign <;> simp [exactly, signed]
  · have rounds := rounds_round sign mantissa exponent positive
    exact ⟨rounds.canonical, rounds.eq_of_representable (representable_signed sign small least)⟩

/-! ### Remainders -/

theorem scaled_shiftLeft (mantissa : Nat) {exponent least : Int} (late : least ≤ exponent) :
    (mantissa * 2 ^ exponent : ℚ) = (mantissa <<< (exponent - least).toNat : Nat) * 2 ^ least :=
  signed_shiftLeft .positive mantissa late

/-- The remainder of the magnitudes, with the sign of the first, is the remainder. -/
theorem remains_signed (sign other : Sign) (m : Nat) {n : Nat} (positive : 0 < n) {unit : ℚ}
    (above : 0 < unit) :
    Remains (signed sign (m * unit)) (signed other (n * unit))
      (signed sign ((m % n : Nat) * unit)) where
  whole := by
    obtain ⟨count, parts⟩ : ∃ count : Nat, (m : ℚ) = (m % n : Nat) + count * n :=
      ⟨m / n, by exact_mod_cast (Nat.mod_add_div' m n).symm⟩
    refine ⟨sign.apply (other.apply count), ?_⟩
    rw [parts]
    cases sign <;> cases other <;> simp only [signed, Sign.apply] <;> push_cast <;> ring
  side := by
    have product : 0 ≤ (m * unit) * ((m % n : Nat) * unit) := by positivity
    cases sign with
    | positive => exact product
    | negative => simpa only [signed, neg_mul_neg] using product
  less := by
    rw [abs_signed _ (by positivity), abs_signed _ (by positivity)]
    gcongr
    exact Nat.mod_lt m positive

/-- The remainder of two canonical numbers is exact. -/
theorem remains_remainderUnpacked {u v : UnpackedFloat} (left : Canonical u) (right : Canonical v)
    (nonzero : exactly v ≠ 0) : Canonical (remainderUnpacked u v) ∧
      Remains (exactly u) (exactly v) (exactly (remainderUnpacked u v)) := by
  cases right with
  | zero => exact absurd rfl nonzero
  | @finite other n f positive standard' =>
    cases left with
    | zero sign =>
      exact ⟨.zero sign, ⟨0, by simp [exactly, remainderUnpacked]⟩, by simp [exactly],
        by simpa [exactly, remainderUnpacked] using nonzero⟩
    | @finite sign m e some standard =>
      have positive : 0 < n <<< (f - min e f).toNat := by
        rw [Nat.shiftLeft_eq]
        positivity
      have above : (0 : ℚ) < 2 ^ min e f := by positivity
      have remains := remains_signed sign other (m <<< (e - min e f).toNat) positive above
      rw [← scaled_shiftLeft m (min_le_left e f),
        ← scaled_shiftLeft n (min_le_right e f)] at remains
      -- The unit of one of the operands is that of the remainder, and its mantissa is not shifted.
      have small : m <<< (e - min e f).toNat % n <<< (f - min e f).toNat < 2 ^ 24 := by
        rcases min_choice e f with first | second
        · have whole : m <<< (e - min e f).toNat = m := by simp [first]
          rw [whole]
          exact (Nat.mod_le _ _).trans_lt standard.small
        · have whole : n <<< (f - min e f).toNat = n := by simp [second]
          rw [whole]
          exact (Nat.mod_lt _ (whole ▸ positive)).trans standard'.small
      obtain ⟨canonical, value⟩ := round_exact sign small (le_min standard.least standard'.least)
      refine ⟨canonical, ?_⟩
      rwa [remainderUnpacked, value]

section Finite

variable {x y : Float32} (left : x.isFinite = true) (right : y.isFinite = true)
  (nonzero : value y ≠ 0)

include left right nonzero

/-- A remainder is exact, and finite. -/
theorem remains_remainder (bounded : |value y| ≤ 2 ^ (127 : Int)) :
    (remainder x y).isFinite = true ∧ Remains (value x) (value y) (value (remainder x y)) := by
  obtain ⟨canonical, remains⟩ := remains_remainderUnpacked (canonical_unpack left)
    (canonical_unpack right) nonzero
  have stored : unpack (remainder x y) = remainderUnpacked (unpack x) (unpack y) :=
    unpack_pack_of_canonical canonical (remains.less.le.trans bounded)
  have finite : (unpack (remainder x y)).isFinite = true := stored ▸ canonical.isFinite
  refine ⟨finite, ?_⟩
  rwa [value, value, value, stored]

/-- What is less than the divisor is its own remainder, a zero with its sign. -/
theorem remainder_eq_self (bounded : |value y| ≤ 2 ^ (127 : Int)) (small : |value x| < |value y|) :
    remainder x y = x := by
  obtain ⟨finite, remains⟩ := remains_remainder left right nonzero bounded
  have same := remains.eq_of_lt small
  by_cases zero : value x = 0
  · obtain ⟨sign, u⟩ := isZero_of_value left zero
    obtain ⟨other, mantissa, exponent, positive, v⟩ :=
      (unpack_of_isFinite right).resolve_left fun ⟨sign, v⟩ => nonzero (congrArg exactly v)
    conv_rhs => rw [← pack_unpack x, u]
    rw [remainder, u, v]
    rfl
  · exact eq_of_value_eq finite left same (same ▸ zero)

end Finite

/-! ### Differences -/

/-- A difference that is no greater than either operand is not rounded. -/
theorem Representable.sub {a b : ℚ} (left : Representable a) (right : Representable b)
    (first : |a - b| ≤ |a|) (second : |a - b| ≤ |b|) : Representable (a - b) := by
  have finer {m n e f : Int} (small : m.natAbs < 2 ^ 24) (least : -149 ≤ e) (order : e ≤ f)
      (bounded : |(m * 2 ^ e - n * 2 ^ f : ℚ)| ≤ |(m * 2 ^ e : ℚ)|) :
      Representable (m * 2 ^ e - n * 2 ^ f) := by
    obtain ⟨count, rfl⟩ : ∃ count : Nat, f = e + count := ⟨(f - e).toNat, by omega⟩
    have shifted : (m * 2 ^ e - n * 2 ^ (e + count) : ℚ) = (m - n * 2 ^ count : Int) * 2 ^ e := by
      rw [zpow_add₀ two_ne_zero, zpow_natCast]
      push_cast
      ring
    have power : (0 : ℚ) < |2 ^ e| := by positivity
    rw [shifted, abs_mul, abs_mul] at bounded
    have fewer : |m - n * 2 ^ count| ≤ |m| := by
      exact_mod_cast le_of_mul_le_mul_right bounded power
    rw [Int.abs_eq_natAbs, Int.abs_eq_natAbs] at fewer
    exact ⟨m - n * 2 ^ count, e, by omega, least, shifted⟩
  obtain ⟨m, e, small, least, rfl⟩ := left
  obtain ⟨n, f, small', least', rfl⟩ := right
  rcases le_total e f with order | order
  · exact finer small least order first
  · rw [abs_sub_comm] at second
    rw [← neg_sub]
    exact (finer small' least' order second).neg

end Mecanum.Binary32
