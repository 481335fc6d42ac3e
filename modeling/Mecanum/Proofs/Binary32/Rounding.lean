import Mecanum.Proofs.Binary32.Value

/-!
# Rounding

The result of an operation is the exact result rounded: nothing representable lies between the two
(`Rounds`). Rounding shifts a mantissa to its last place once, by all that is dropped, and a carry
can only shift it once more, exactly. So an exact result that is representable comes out unchanged,
and every other one stays on its side of each representable number. This holds of the conversion of
an integer and of sums, differences, products and quotients, as long as they are not too large to be
packed.
-/
namespace Mecanum.Binary32

open Float.Model (Format UnpackedFloat totalExponent)
open Float.Model.UnpackedFloat

/-! ### The mantissa behind rounding -/

theorem mantissa_shiftRight (extended : ExtendedMantissa) (count : Nat) :
    (extended >>> count).mantissa = extended.mantissa / 2 ^ count := by
  induction count with
  | zero => simp [HShiftRight.hShiftRight, Nat.repeat]
  | succ count ih =>
    have one : (extended >>> (count + 1)).mantissa = (extended >>> count).mantissa / 2 := rfl
    rw [one, ih, Nat.div_div_eq_div_mul, Nat.pow_succ]

theorem mantissa_ofMantissaAndAccuracy (mantissa : Nat) (accuracy : Accuracy) :
    (ExtendedMantissa.ofMantissaAndAccuracy mantissa accuracy).mantissa = mantissa := by
  cases accuracy with
  | exact => rfl
  | inexact half => cases half <;> rfl

theorem roundedMantissa_le (extended : ExtendedMantissa) :
    extended.roundedMantissa ≤ extended.mantissa + 1 := by
  unfold ExtendedMantissa.roundedMantissa
  cases extended.accuracy with
  | exact => exact Nat.le_succ _
  | inexact half => cases half <;> simp only [Accuracy.roundToNearestEven] <;> omega

theorem div_lt_two_pow {n bits count rest : Nat} (small : n < 2 ^ bits)
    (fits : bits ≤ count + rest) : n / 2 ^ count < 2 ^ rest := by
  apply Nat.div_lt_of_lt_mul
  rw [← Nat.pow_add]
  exact Nat.lt_of_lt_of_le small (Nat.pow_le_pow_right (by decide) fits)

theorem le_roundedMantissa (extended : ExtendedMantissa) :
    extended.mantissa ≤ extended.roundedMantissa := by
  unfold ExtendedMantissa.roundedMantissa
  cases extended.accuracy with
  | exact => exact Nat.le_refl _
  | inexact half => cases half <;> simp only [Accuracy.roundToNearestEven] <;> omega

/-- The exponent to which rounding shifts a mantissa. -/
def lastPlace (mantissa : Nat) (exponent : Int) : Int :=
  max (mantissa.log2 + 1 + exponent - 24) (-149)

/-- The places that rounding drops. -/
def dropped (mantissa : Nat) (exponent : Int) : Nat :=
  (lastPlace mantissa exponent - exponent).toNat

/-- The mantissa that is left, rounded by what is dropped. -/
def rounded (mantissa : Nat) (exponent : Int) (accuracy : Accuracy) : Nat :=
  (ExtendedMantissa.ofMantissaAndAccuracy mantissa accuracy >>>
    dropped mantissa exponent).roundedMantissa

/-- A mantissa that is divided without a remainder stays exact. -/
theorem shiftRight_exact {mantissa count : Nat} (divides : 2 ^ count ∣ mantissa) :
    ExtendedMantissa.ofMantissaAndAccuracy mantissa .exact >>> count =
      ⟨mantissa / 2 ^ count, false, false⟩ := by
  obtain ⟨quotient, rfl⟩ := divides
  rw [Nat.mul_div_cancel_left _ (Nat.two_pow_pos count)]
  induction count generalizing quotient with
  | zero => simp [HShiftRight.hShiftRight, Nat.repeat, ExtendedMantissa.ofMantissaAndAccuracy]
  | succ count step =>
    have one (extended : ExtendedMantissa) :
      (extended >>> (count + 1)) = (extended >>> count).shiftRightOne := rfl
    rw [one, Nat.pow_succ, Nat.mul_assoc, step]
    simp [ExtendedMantissa.shiftRightOne]

theorem targetExponent_eq (mantissa : Nat) (exponent : Int) :
    Format.targetExponent .binary32 (totalExponent mantissa exponent) =
      lastPlace mantissa exponent := by
  simp only [Format.targetExponent, Format.minExponent, Format.mantissaBits, totalExponent,
    lastPlace]
  rfl

section Rounding

variable {mantissa : Nat} {exponent : Int} (within : exponent ≤ lastPlace mantissa exponent)
  {accuracy : Accuracy}

include within

theorem shiftToTargetExponent_eq :
    shiftToTargetExponent .binary32 mantissa exponent accuracy =
      (ExtendedMantissa.ofMantissaAndAccuracy mantissa accuracy >>> dropped mantissa exponent,
        lastPlace mantissa exponent) := by
  simp only [shiftToTargetExponent, shiftToExponent, targetExponent_eq, dropped]
  congr 1
  omega

/-- Without the dropped bits, the mantissa is in standard form. -/
theorem quotient_standard :
    Standard (mantissa / 2 ^ dropped mantissa exponent) (lastPlace mantissa exponent) where
  small := by
    unfold dropped lastPlace
    exact div_lt_two_pow Nat.lt_log2_self (by omega)
  least := Int.le_max_right ..
  full := by
    unfold dropped lastPlace at *
    rcases Int.le_total (mantissa.log2 + 1 + exponent - 24) (-149) with low | high
    · exact .inr (by omega)
    · left
      rcases Nat.eq_zero_or_pos mantissa with rfl | positive
      · rw [Nat.log2_zero] at *
        omega
      · rw [Nat.le_div_iff_mul_le (Nat.two_pow_pos _), ← Nat.pow_add]
        refine Nat.le_trans (Nat.pow_le_pow_right (by decide) ?_)
          (Nat.log2_self_le (Nat.ne_of_gt positive))
        omega

end Rounding

/-- The rounded mantissa is the quotient or one more. -/
theorem rounded_bounds (mantissa : Nat) (exponent : Int) (accuracy : Accuracy) :
    mantissa / 2 ^ dropped mantissa exponent ≤ rounded mantissa exponent accuracy ∧
      rounded mantissa exponent accuracy ≤ mantissa / 2 ^ dropped mantissa exponent + 1 := by
  have more := le_roundedMantissa
    (ExtendedMantissa.ofMantissaAndAccuracy mantissa accuracy >>> dropped mantissa exponent)
  have most := roundedMantissa_le
    (ExtendedMantissa.ofMantissaAndAccuracy mantissa accuracy >>> dropped mantissa exponent)
  simp only [mantissa_shiftRight, mantissa_ofMantissaAndAccuracy] at more most
  exact ⟨more, most⟩

theorem rounded_of_exact {mantissa : Nat} {exponent : Int}
    (divides : 2 ^ dropped mantissa exponent ∣ mantissa) :
    rounded mantissa exponent .exact = mantissa / 2 ^ dropped mantissa exponent := by
  rw [rounded, shiftRight_exact divides]
  rfl

/-- What is left behind the first shift is exact; only a carry shifts it once more. -/
theorem shiftToTargetExponent_carry (mantissa : Nat) {exponent : Int} (small : mantissa ≤ 2 ^ 24)
    (least : -149 ≤ exponent) (full : 2 ^ 23 ≤ mantissa ∨ exponent = -149) :
    ∃ kept last, shiftToTargetExponent .binary32 mantissa exponent .exact =
        (⟨kept, false, false⟩, last) ∧
      Standard kept last ∧ (kept * 2 ^ last : ℚ) = mantissa * 2 ^ exponent := by
  rcases Nat.lt_or_eq_of_le small with small | rfl
  · have log : mantissa.log2 < 24 := by
      rcases Nat.eq_zero_or_pos mantissa with rfl | positive
      · decide
      · exact (Nat.log2_lt (Nat.ne_of_gt positive)).mpr small
    have none : (lastPlace mantissa exponent - exponent).toNat = 0 := by
      unfold lastPlace
      omega
    refine ⟨mantissa, exponent, ?_, ⟨small, least, full⟩, rfl⟩
    simp only [shiftToTargetExponent, shiftToExponent, targetExponent_eq, none]
    simp [HShiftRight.hShiftRight, Nat.repeat, ExtendedMantissa.ofMantissaAndAccuracy]
  · have carried : lastPlace (2 ^ 24) exponent = exponent + 1 := by
      simp only [lastPlace, Nat.log2_two_pow]
      omega
    have one : dropped (2 ^ 24) exponent = 1 := by
      rw [dropped, carried]
      omega
    refine ⟨2 ^ 23, exponent + 1, ?_, ⟨by decide, by omega, .inl le_rfl⟩, ?_⟩
    · rw [shiftToTargetExponent_eq (by omega), one, shiftRight_exact (by decide), carried]
      rfl
    · rw [zpow_add_one₀ two_ne_zero]
      push_cast
      ring

/-- The value behind rounding is the rounded mantissa at its last place. -/
theorem roundWithAccuracy_eq (sign : Sign) {mantissa : Nat} {exponent : Int} (accuracy : Accuracy)
    (within : exponent ≤ lastPlace mantissa exponent) :
    Canonical (roundWithAccuracy .binary32 sign mantissa exponent accuracy) ∧
      exactly (roundWithAccuracy .binary32 sign mantissa exponent accuracy) =
        signed sign (rounded mantissa exponent accuracy * 2 ^ lastPlace mantissa exponent) := by
  have standard := quotient_standard within
  have bounds := rounded_bounds mantissa exponent accuracy
  have small := standard.small
  have full := standard.full
  obtain ⟨kept, last, shifted, behind, same⟩ :=
    shiftToTargetExponent_carry (rounded mantissa exponent accuracy) (by omega)
      standard.least (by omega)
  have first : (ExtendedMantissa.ofMantissaAndAccuracy mantissa accuracy >>>
      dropped mantissa exponent).roundedMantissa = rounded mantissa exponent accuracy := rfl
  rw [roundWithAccuracy, shiftToTargetExponent_eq within]
  simp only [first, shifted, ← same]
  split
  next none =>
    subst none
    refine ⟨.zero sign, ?_⟩
    cases sign <;> simp [exactly, signed]
  next some => exact ⟨.finite sign _ behind, rfl⟩

/-- What has an exact form, up to the greatest exponent. -/
def Representable (r : ℚ) : Prop :=
  ∃ mantissa exponent : Int, mantissa.natAbs < 2 ^ 24 ∧ -149 ≤ exponent ∧
    r = mantissa * 2 ^ exponent

theorem Representable.neg {r : ℚ} (representable : Representable r) : Representable (-r) := by
  obtain ⟨mantissa, exponent, small, least, rfl⟩ := representable
  refine ⟨-mantissa, exponent, by simpa using small, least, ?_⟩
  push_cast
  ring

/-- Nothing representable lies between two neighbours. -/
theorem Representable.le_of_lt {r : ℚ} (representable : Representable r) {mantissa : Nat}
    {exponent : Int} (full : 2 ^ 23 ≤ mantissa ∨ exponent = -149)
    (below : r < (mantissa + 1) * 2 ^ exponent) : r ≤ mantissa * 2 ^ exponent := by
  obtain ⟨n, f, small, least, rfl⟩ := representable
  have power : (0 : ℚ) < 2 ^ exponent := by positivity
  rcases le_or_gt exponent f with coarse | fine
  · -- A multiple of the last place that is below the next one.
    obtain ⟨count, rfl⟩ : ∃ count : Nat, f = exponent + count := ⟨(f - exponent).toNat, by omega⟩
    have multiple : (n * 2 ^ (exponent + count) : ℚ) = (n * 2 ^ count : Int) * 2 ^ exponent := by
      rw [zpow_add₀ two_ne_zero, zpow_natCast]
      push_cast
      ring
    rw [multiple] at below ⊢
    have above : ((n * 2 ^ count : Int) : ℚ) < (mantissa + 1 : Int) := by
      push_cast
      exact_mod_cast lt_of_mul_lt_mul_right below power.le
    have above : n * 2 ^ count ≤ mantissa := Int.le_of_lt_add_one (by exact_mod_cast above)
    gcongr
    exact_mod_cast above
  · -- Smaller units stay below the mantissas of 24 bits.
    have large : 2 ^ 23 ≤ mantissa := full.resolve_right (by omega)
    have most : (n : ℚ) ≤ 2 ^ 24 := by
      have : n ≤ 2 ^ 24 := by omega
      exact_mod_cast this
    calc (n * 2 ^ f : ℚ) ≤ 2 ^ 24 * 2 ^ f := by gcongr
      _ = 2 ^ 23 * 2 ^ (f + 1) := by
        rw [zpow_add_one₀ two_ne_zero]
        ring
      _ ≤ mantissa * 2 ^ exponent := by
        gcongr
        · exact_mod_cast large
        · exact one_le_two
        · omega

/-- An exact result and its rounding: nothing representable lies between the two. -/
structure Rounds (exact : ℚ) (u : UnpackedFloat) : Prop where
  canonical : Canonical u
  lower : ∀ {r}, Representable r → r ≤ exact → r ≤ exactly u
  upper : ∀ {r}, Representable r → exact ≤ r → exactly u ≤ r

section Neighbours

variable {mantissa : Nat} {exponent : Int} (within : exponent ≤ lastPlace mantissa exponent)

include within

theorem two_pow_lastPlace : (2 : ℚ) ^ lastPlace mantissa exponent =
    2 ^ dropped mantissa exponent * 2 ^ exponent := by
  rw [← zpow_natCast, ← zpow_add₀ two_ne_zero, dropped]
  congr 1
  omega

/-- What rounding cuts off leaves the lower of two neighbours. -/
theorem neighbours : (mantissa / 2 ^ dropped mantissa exponent : Nat) *
        2 ^ lastPlace mantissa exponent ≤ (mantissa * 2 ^ exponent : ℚ) ∧
      ((mantissa + 1) * 2 ^ exponent : ℚ) ≤
        ((mantissa / 2 ^ dropped mantissa exponent : Nat) + 1) *
          2 ^ lastPlace mantissa exponent := by
  rw [two_pow_lastPlace within, ← mul_assoc, ← mul_assoc]
  constructor
  · gcongr
    exact_mod_cast Nat.div_mul_le_self mantissa (2 ^ dropped mantissa exponent)
  · gcongr
    have next := Nat.lt_mul_div_succ mantissa (Nat.two_pow_pos (dropped mantissa exponent))
    rw [mul_comm] at next
    exact_mod_cast next

variable {accuracy : Accuracy} {magnitude r : ℚ} (representable : Representable r)
  (above : mantissa * 2 ^ exponent ≤ magnitude)

include representable

theorem le_rounded (below : magnitude < (mantissa + 1) * 2 ^ exponent) (low : r ≤ magnitude) :
    r ≤ rounded mantissa exponent accuracy * 2 ^ lastPlace mantissa exponent := by
  obtain ⟨-, ceiling⟩ := neighbours within
  have neighbour := representable.le_of_lt (quotient_standard within).full
    (low.trans_lt (below.trans_le ceiling))
  refine neighbour.trans ?_
  gcongr
  exact (rounded_bounds mantissa exponent accuracy).1

include above

theorem rounded_le (sharp : magnitude = mantissa * 2 ^ exponent → accuracy = .exact)
    (high : magnitude ≤ r) :
    rounded mantissa exponent accuracy * 2 ^ lastPlace mantissa exponent ≤ r := by
  obtain ⟨floor, -⟩ := neighbours within
  rcases (floor.trans above).eq_or_lt with same | beyond
  · -- The exact result is the lower neighbour itself, so nothing is dropped.
    have whole : magnitude = mantissa * 2 ^ exponent := le_antisymm (same ▸ floor) above
    have divides : 2 ^ dropped mantissa exponent ∣ mantissa := by
      have divided : ((mantissa / 2 ^ dropped mantissa exponent *
          2 ^ dropped mantissa exponent : Nat) : ℚ) = mantissa := by
        apply mul_right_cancel₀ (zpow_ne_zero exponent two_ne_zero)
        push_cast
        rw [mul_assoc, ← two_pow_lastPlace within, ← whole]
        exact_mod_cast same
      exact Dvd.intro_left _ (by exact_mod_cast divided)
    rw [sharp whole, rounded_of_exact divides, same]
    exact high
  · have next : ((mantissa / 2 ^ dropped mantissa exponent : Nat) + 1) *
        2 ^ lastPlace mantissa exponent ≤ r := by
      by_contra less
      have neighbour := representable.le_of_lt (quotient_standard within).full (not_le.mp less)
      exact absurd (beyond.trans_le high) (not_lt.mpr neighbour)
    refine le_trans ?_ next
    gcongr
    exact_mod_cast (rounded_bounds mantissa exponent accuracy).2

end Neighbours

/-- Rounding with an accuracy rounds every magnitude the accuracy stands for. -/
theorem rounds_roundWithAccuracy (sign : Sign) {mantissa : Nat} {exponent : Int}
    {accuracy : Accuracy} {magnitude : ℚ} (within : exponent ≤ lastPlace mantissa exponent)
    (above : mantissa * 2 ^ exponent ≤ magnitude)
    (below : magnitude < (mantissa + 1) * 2 ^ exponent)
    (sharp : magnitude = mantissa * 2 ^ exponent → accuracy = .exact) :
    Rounds (signed sign magnitude)
      (roundWithAccuracy .binary32 sign mantissa exponent accuracy) := by
  obtain ⟨canonical, value⟩ := roundWithAccuracy_eq sign accuracy within
  refine ⟨canonical, ?_, ?_⟩
  · intro r representable low
    rw [value]
    cases sign with
    | positive => exact le_rounded within representable below low
    | negative =>
      apply le_neg_of_le_neg
      exact rounded_le within representable.neg above sharp (le_neg_of_le_neg low)
  · intro r representable high
    rw [value]
    cases sign with
    | positive => exact rounded_le within representable above sharp high
    | negative =>
      apply neg_le_of_neg_le
      exact le_rounded within representable.neg below (neg_le_of_neg_le high)

theorem Rounds.of_eq {exact : ℚ} {u : UnpackedFloat} (canonical : Canonical u)
    (same : exactly u = exact) : Rounds exact u := by
  subst same
  exact ⟨canonical, fun _ low => low, fun _ high => high⟩

theorem log2_shiftLeft {n : Nat} (positive : 0 < n) (count : Nat) :
    (n <<< count).log2 = n.log2 + count := by
  have shifted : n <<< count ≠ 0 := by
    rw [Nat.shiftLeft_eq]
    positivity
  rw [Nat.log2_eq_iff shifted, Nat.shiftLeft_eq, Nat.add_right_comm, Nat.pow_add, Nat.pow_add]
  constructor
  · gcongr
    exact Nat.log2_self_le (Nat.ne_of_gt positive)
  · gcongr
    exact Nat.lt_log2_self

/-- The rounding of the library rounds its exact argument. -/
theorem rounds_round (sign : Sign) (mantissa : Nat) (exponent : Int) (positive : 0 < mantissa) :
    Rounds (signed sign (mantissa * 2 ^ exponent))
      (UnpackedFloat.round .binary32 sign mantissa exponent) := by
  simp only [UnpackedFloat.round, decreaseExponent, targetExponent_eq]
  generalize count_eq : (exponent - lastPlace mantissa exponent).toNat = count
  have log := log2_shiftLeft positive count
  have within : exponent - count ≤ lastPlace (mantissa <<< count) (exponent - count) := by
    unfold lastPlace at *
    omega
  have same : (mantissa * 2 ^ exponent : ℚ) =
      (mantissa <<< count : Nat) * 2 ^ (exponent - count) := by
    rw [Nat.shiftLeft_eq, zpow_sub₀ two_ne_zero, zpow_natCast]
    push_cast
    field_simp
  have positive : (0 : ℚ) < 2 ^ (exponent - count) := by positivity
  refine rounds_roundWithAccuracy sign within same.ge ?_ fun _ => rfl
  rw [same]
  gcongr
  exact lt_add_one _

/-- Normalizing rounds the exact product. -/
theorem rounds_normalize (n exponent : Int) (sign : Sign) :
    Rounds (n * 2 ^ exponent) (UnpackedFloat.normalize .binary32 n exponent sign) := by
  simp only [UnpackedFloat.normalize]
  split
  next below =>
    have negative := compare_lt_iff_lt.mp below
    obtain ⟨magnitude, rfl⟩ : ∃ magnitude : Nat, n = -magnitude := ⟨(-n).toNat, by omega⟩
    have rounds := rounds_round .negative magnitude exponent (by omega)
    simpa [signed] using rounds
  next level =>
    rw [compare_eq_iff_eq.mp level]
    exact .of_eq (.zero sign) (by simp [exactly])
  next above =>
    have natural := compare_gt_iff_gt.mp above
    obtain ⟨magnitude, rfl⟩ : ∃ magnitude : Nat, n = magnitude := ⟨n.toNat, by omega⟩
    exact rounds_round .positive magnitude exponent (by omega)

theorem rounds_ofInt (n : Int) : Rounds n (UnpackedFloat.ofInt .binary32 n) := by
  have rounds := rounds_normalize n 0 .positive
  rwa [zpow_zero, mul_one] at rounds

theorem signed_shiftLeft (sign : Sign) (mantissa : Nat) {exponent least : Int}
    (late : least ≤ exponent) :
    signed sign (mantissa * 2 ^ exponent) =
      (sign.apply (mantissa <<< (exponent - least).toNat : Nat) : Int) * 2 ^ least := by
  obtain ⟨count, rfl⟩ : ∃ count : Nat, exponent = least + count :=
    ⟨(exponent - least).toNat, by omega⟩
  rw [add_sub_cancel_left, Int.toNat_natCast, Nat.shiftLeft_eq, zpow_add₀ two_ne_zero, zpow_natCast]
  cases sign <;> simp only [signed, Sign.apply] <;> push_cast <;> ring

/-- The difference is rounded from the exact one. -/
theorem rounds_sub {u v : UnpackedFloat} (left : Canonical u) (right : Canonical v) :
    Rounds (exactly u - exactly v) (UnpackedFloat.sub .binary32 u v) := by
  cases left with
  | zero sign =>
    cases right with
    | zero other =>
      have difference : ∃ last,
          UnpackedFloat.sub .binary32 (.zero sign) (.zero other) = .zero last := by
        cases sign <;> cases other <;> exact ⟨_, rfl⟩
      obtain ⟨last, difference⟩ := difference
      rw [difference]
      exact .of_eq (.zero last) (sub_zero 0).symm
    | @finite other n f positive standard =>
      have difference : UnpackedFloat.sub .binary32 (.zero sign) (.finite other n f positive) =
        .finite (-other) n f positive := rfl
      rw [difference]
      refine .of_eq (.finite _ positive standard) ?_
      exact (signed_neg ..).trans (zero_sub _).symm
  | @finite sign m e positive standard =>
    cases right with
    | zero other => exact .of_eq (.finite _ positive standard) (sub_zero _).symm
    | @finite other n f positive' standard' =>
      simp only [UnpackedFloat.sub, decreaseExponent, exactly]
      rw [signed_shiftLeft sign m (Int.min_le_left e f),
        signed_shiftLeft other n (Int.min_le_right e f), ← sub_mul, ← Int.cast_sub]
      exact rounds_normalize ..

theorem canonical_neg {u : UnpackedFloat} (canonical : Canonical u) : Canonical u.neg := by
  cases canonical with
  | zero sign => exact .zero _
  | finite sign positive standard => exact .finite _ positive standard

theorem exactly_neg (u : UnpackedFloat) : exactly u.neg = -exactly u := by
  cases u with
  | finite sign mantissa exponent positive => exact signed_neg ..
  | _ => exact neg_zero.symm

/-- Adding is subtracting what is negated. -/
theorem add_eq_sub_neg {u v : UnpackedFloat} (left : Canonical u) (right : Canonical v) :
    UnpackedFloat.add .binary32 u v = UnpackedFloat.sub .binary32 u v.neg := by
  cases left with
  | zero sign =>
    cases right with
    | zero other => cases sign <;> cases other <;> rfl
    | finite other => simp [UnpackedFloat.add, UnpackedFloat.sub, UnpackedFloat.neg, sign_neg_neg]
  | finite sign =>
    cases right with
    | zero other => rfl
    | finite other =>
      simp only [UnpackedFloat.add, UnpackedFloat.sub, UnpackedFloat.neg]
      congr 1
      cases other with
      | positive => exact (sub_neg_eq_add _ _).symm
      | negative => exact (sub_eq_add_neg _ _).symm

theorem rounds_add {u v : UnpackedFloat} (left : Canonical u) (right : Canonical v) :
    Rounds (exactly u + exactly v) (UnpackedFloat.add .binary32 u v) := by
  have rounds := rounds_sub left (canonical_neg right)
  rwa [exactly_neg, sub_neg_eq_add, ← add_eq_sub_neg left right] at rounds

section Product

variable {m n : Nat} {e f : Int}

/-- One of the mantissas has 24 bits, or the product lies below the least place. -/
theorem Standard.mul_within (left : Standard m e) (right : Standard n f) (some : 0 < m * n) :
    e + f ≤ lastPlace (m * n) (e + f) := by
  have bits (full : 2 ^ 23 ≤ m * n) : 23 ≤ (m * n).log2 := (Nat.le_log2 some.ne').mpr full
  unfold lastPlace
  rcases left.full with large | least
  · have := bits (large.trans (Nat.le_mul_of_pos_right m (Nat.pos_of_mul_pos_left some)))
    omega
  · rcases right.full with large | least'
    · have := bits (large.trans (Nat.le_mul_of_pos_left n (Nat.pos_of_mul_pos_right some)))
      omega
    · omega

theorem scaled_mul (m n : Nat) (e f : Int) :
    (m * 2 ^ e * (n * 2 ^ f) : ℚ) = (m * n : Nat) * 2 ^ (e + f) := by
  rw [zpow_add₀ two_ne_zero]
  push_cast
  ring

end Product

/-- The product is rounded from the exact one. -/
theorem rounds_mul {u v : UnpackedFloat} (left : Canonical u) (right : Canonical v) :
    Rounds (exactly u * exactly v) (UnpackedFloat.mul .binary32 u v) := by
  cases left with
  | zero sign =>
    cases right with
    | zero other => exact .of_eq (.zero _) (zero_mul _).symm
    | finite other => exact .of_eq (.zero _) (zero_mul _).symm
  | @finite sign m e positive standard =>
    cases right with
    | zero other => exact .of_eq (.zero _) (mul_zero _).symm
    | @finite other n f positive' standard' =>
      have within := standard.mul_within standard' (Nat.mul_pos positive positive')
      have power : (0 : ℚ) < 2 ^ (e + f) := by positivity
      simp only [UnpackedFloat.mul, exactly, signed_mul, scaled_mul]
      refine rounds_roundWithAccuracy (sign * other) within le_rfl ?_ fun _ => rfl
      gcongr
      exact lt_add_one _

/-- A quotient is computed to 24 bits, or down to the least place. -/
theorem le_lastPlace_quotient {m n count : Nat} {target : Int} (some : 0 < m) (positive : 0 < n)
    (long : -149 < target → n.log2 + 24 ≤ m.log2 + count) :
    target ≤ lastPlace (m <<< count / n) target := by
  by_cases fine : target ≤ -149
  · exact fine.trans (Int.le_max_right ..)
  · have bits := long (by omega)
    have large : 2 ^ 23 ≤ m <<< count / n := by
      rw [Nat.le_div_iff_mul_le positive]
      calc 2 ^ 23 * n ≤ 2 ^ 23 * 2 ^ (n.log2 + 1) := by
            gcongr
            exact Nat.lt_log2_self.le
        _ = 2 ^ (n.log2 + 24) := by rw [← Nat.pow_add, Nat.add_comm, Nat.add_assoc]
        _ ≤ 2 ^ (m <<< count).log2 := by
            rw [log2_shiftLeft some]
            exact Nat.pow_le_pow_right (by decide) bits
        _ ≤ m <<< count := Nat.log2_self_le (by rw [Nat.shiftLeft_eq]; positivity)
    have log : 23 ≤ (m <<< count / n).log2 := (Nat.le_log2 (by omega)).mpr large
    refine le_trans ?_ (Int.le_max_left ..)
    omega

/-- A quotient of integers is rounded as it is, also where it leaves a remainder. -/
theorem rounds_quotient (sign : Sign) {m n : Nat} {target : Int} (positive : 0 < n)
    (within : target ≤ lastPlace (m / n) target) :
    Rounds (signed sign (m / n * 2 ^ target))
      (roundWithAccuracy .binary32 sign (m / n) target (accuracyOfFraction (m % n) n)) := by
  have natural : (0 : ℚ) < n := by exact_mod_cast positive
  have power : (0 : ℚ) < 2 ^ target := by positivity
  refine rounds_roundWithAccuracy sign within ?_ ?_ ?_
  · gcongr
    exact Nat.cast_div_le
  · gcongr
    rw [div_lt_iff₀ natural, mul_comm]
    exact_mod_cast Nat.lt_mul_div_succ _ positive
  · intro same
    have divided := mul_right_cancel₀ power.ne' same
    rw [div_eq_iff natural.ne'] at divided
    have divided : m = m / n * n := by exact_mod_cast divided
    have none : m % n = 0 := by
      rw [divided]
      exact Nat.mul_mod_left ..
    rw [none]
    rfl

/-- The quotient is rounded from the exact one. -/
theorem rounds_div {u v : UnpackedFloat} (left : Canonical u) (right : Canonical v)
    (nonzero : exactly v ≠ 0) :
    Rounds (exactly u / exactly v) (UnpackedFloat.div .binary32 u v) := by
  cases right with
  | zero => exact absurd rfl nonzero
  | @finite other n f positive =>
    cases left with
    | zero sign => exact .of_eq (.zero _) (zero_div _).symm
    | @finite sign m e some standard =>
      simp only [UnpackedFloat.div, divCore, exactly, signed_div]
      have targeted : Format.targetExponent .binary32 (totalExponent m e - totalExponent n f) =
          max (m.log2 + e - (n.log2 + f) - 24) (-149) := by
        simp only [Format.targetExponent, Format.minExponent, Format.mantissaBits, totalExponent]
        congr 1
        omega
      rw [targeted]
      generalize target_eq : min (e - f) (max (m.log2 + e - (n.log2 + f) - 24) (-149)) = target
      -- The dividend is shifted until the quotient has all its places.
      obtain ⟨count, shift⟩ : ∃ count : Nat, e - f - target = count :=
        ⟨(e - f - target).toNat, by omega⟩
      rw [shift, Int.toNat_natCast]
      have magnitude : (m * 2 ^ e / (n * 2 ^ f) : ℚ) = (m <<< count : Nat) / n * 2 ^ target := by
        have exponent : e = target + count + f := by omega
        have natural : (n : ℚ) ≠ 0 := by exact_mod_cast positive.ne'
        rw [exponent, zpow_add₀ two_ne_zero, zpow_add₀ two_ne_zero, zpow_natCast, Nat.shiftLeft_eq]
        push_cast
        field_simp
      rw [magnitude]
      exact rounds_quotient _ positive (le_lastPlace_quotient some positive (by omega))

/-! ### Stored results -/

theorem representable_zero : Representable 0 := ⟨0, 0, by decide, by decide, (zero_mul _).symm⟩

theorem representable_two_pow {exponent : Int} (least : -149 ≤ exponent) :
    Representable (2 ^ exponent) :=
  ⟨1, exponent, by decide, least, by simp⟩

/-- An integer of 24 bits is representable in every unit from the least on. -/
theorem representable_scaled {n unit : Int} (small : n.natAbs ≤ 2 ^ 24) (least : -149 ≤ unit) :
    Representable (n * 2 ^ unit) := by
  rcases Nat.lt_or_eq_of_le small with small | most
  · exact ⟨n, unit, small, least, rfl⟩
  · have same := Int.sign_mul_natAbs n
    rw [most] at same
    have same : (n : ℚ) = n.sign * 2 ^ 24 := by exact_mod_cast same.symm
    refine ⟨n.sign, unit + 24, ?_, by omega, ?_⟩
    · rw [Int.natAbs_sign]
      split <;> decide
    · rw [same, zpow_add₀ two_ne_zero]
      norm_num
      ring

theorem representable_int {n : Int} (small : n.natAbs ≤ 2 ^ 24) : Representable n := by
  have scaled := representable_scaled small (by decide : (-149 : Int) ≤ 0)
  rwa [zpow_zero, mul_one] at scaled

namespace Rounds

variable {exact : ℚ} {u : UnpackedFloat}

theorem eq_of_representable (rounds : Rounds exact u) (representable : Representable exact) :
    exactly u = exact :=
  le_antisymm (rounds.upper representable le_rfl) (rounds.lower representable le_rfl)

/-- A rounded result comes back from packing, unless it is too large. -/
theorem unpack_pack (rounds : Rounds exact u) (bounded : |exact| ≤ 2 ^ (127 : Int)) :
    unpack (pack u) = u := by
  have power : Representable (2 ^ (127 : Int)) := representable_two_pow (by decide)
  obtain ⟨low, high⟩ := abs_le.mp bounded
  apply unpack_pack_of_canonical rounds.canonical
  exact abs_le.mpr ⟨rounds.lower power.neg low, rounds.upper power high⟩

end Rounds

/-- A stored number and the exact result that it is the rounding of. -/
def Nearest (exact : ℚ) (x : Float32) : Prop := Rounds exact (unpack x)

namespace Nearest

variable {exact : ℚ} {x : Float32}

theorem of_rounds {u : UnpackedFloat} (rounds : Rounds exact u)
    (bounded : |exact| ≤ 2 ^ (127 : Int)) : Nearest exact (pack u) := by
  rw [Nearest, rounds.unpack_pack bounded]
  exact rounds

theorem isFinite (nearest : Nearest exact x) : x.isFinite = true := by
  exact Canonical.isFinite nearest.canonical

theorem value_eq (nearest : Nearest exact x) (representable : Representable exact) :
    value x = exact :=
  nearest.eq_of_representable representable

end Nearest

theorem abs_int_le {n : Int} (small : n.natAbs ≤ 2 ^ 24) : |(n : ℚ)| ≤ 2 ^ (127 : Int) := by
  have whole : |(n : ℚ)| = n.natAbs := by
    rw [Nat.cast_natAbs, Int.cast_abs]
  calc |(n : ℚ)| ≤ (2 ^ 24 : Nat) := by
        rw [whole]
        exact_mod_cast small
    _ ≤ 2 ^ (127 : Int) := by norm_num

theorem nearest_ofInt {n : Int} (small : n.natAbs ≤ 2 ^ 24) : Nearest n (ofInt n) :=
  .of_rounds (rounds_ofInt n) (abs_int_le small)

section Operations

variable {x y : Float32} (left : x.isFinite = true) (right : y.isFinite = true)

include left right

theorem nearest_sub (bounded : |value x - value y| ≤ 2 ^ (127 : Int)) :
    Nearest (value x - value y) (x - y) :=
  .of_rounds (rounds_sub (canonical_unpack left) (canonical_unpack right)) bounded

theorem nearest_add (bounded : |value x + value y| ≤ 2 ^ (127 : Int)) :
    Nearest (value x + value y) (x + y) :=
  .of_rounds (rounds_add (canonical_unpack left) (canonical_unpack right)) bounded

theorem nearest_mul (bounded : |value x * value y| ≤ 2 ^ (127 : Int)) :
    Nearest (value x * value y) (x * y) :=
  .of_rounds (rounds_mul (canonical_unpack left) (canonical_unpack right)) bounded

theorem nearest_div (nonzero : value y ≠ 0) (bounded : |value x / value y| ≤ 2 ^ (127 : Int)) :
    Nearest (value x / value y) (x / y) :=
  .of_rounds (rounds_div (canonical_unpack left) (canonical_unpack right) nonzero) bounded

end Operations

end Mecanum.Binary32
