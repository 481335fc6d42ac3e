import Mecanum.Proofs.Binary32.Order

/-!
# Rounding to the nearest

While a mantissa is shifted, its round bit and its sticky bit tell where the exact result lies
between two neighbours (`Reads`), so rounding takes the one that is closer. Nothing representable is
closer to the exact result (`Closest`), and of two exact results the greater one is not rounded to a
lesser number (`Closest.mono`). So products with a factor that is not negative grow with the other
factor, also where they are too large and become infinite (`mul_le_mul`).
-/
namespace Mecanum.Binary32

open Float.Model (Format UnpackedFloat)
open Float.Model.UnpackedFloat

/-! ### The round bit and the sticky bit -/

/-- A mantissa with its two bits shows where an exact result lies. -/
inductive Reads (exact : ℚ) : ExtendedMantissa → Prop where
  | whole {mantissa : Nat} (same : exact = mantissa) : Reads exact ⟨mantissa, false, false⟩
  | less {mantissa : Nat} (above : mantissa < exact) (below : exact < mantissa + 1 / 2) :
      Reads exact ⟨mantissa, false, true⟩
  | half {mantissa : Nat} (same : exact = mantissa + 1 / 2) : Reads exact ⟨mantissa, true, false⟩
  | more {mantissa : Nat} (above : mantissa + 1 / 2 < exact) (below : exact < mantissa + 1) :
      Reads exact ⟨mantissa, true, true⟩

namespace Reads

variable {exact : ℚ} {extended : ExtendedMantissa}

theorem shiftRightOne_even (quotient : Nat) (round sticky : Bool) :
    ExtendedMantissa.shiftRightOne ⟨2 * quotient, round, sticky⟩ =
      ⟨quotient, false, round || sticky⟩ := by
  simp [ExtendedMantissa.shiftRightOne]

theorem shiftRightOne_odd (quotient : Nat) (round sticky : Bool) :
    ExtendedMantissa.shiftRightOne ⟨2 * quotient + 1, round, sticky⟩ =
      ⟨quotient, true, round || sticky⟩ := by
  simp [ExtendedMantissa.shiftRightOne, Nat.mul_add_div]

/-- A shift by one bit reads the half. -/
theorem shiftRightOne (reads : Reads exact extended) :
    Reads (exact / 2) extended.shiftRightOne := by
  obtain ⟨mantissa, round, sticky⟩ := extended
  rcases Nat.even_or_odd' mantissa with ⟨quotient, rfl | rfl⟩
  · rw [shiftRightOne_even]
    cases reads with
    | whole same => exact .whole (by push_cast at same; linarith)
    | less above below =>
      push_cast at above below
      exact .less (by linarith) (by linarith)
    | half same => exact .less (by push_cast at same; linarith) (by push_cast at same; linarith)
    | more above below =>
      push_cast at above below
      exact .less (by linarith) (by linarith)
  · rw [shiftRightOne_odd]
    cases reads with
    | whole same => exact .half (by push_cast at same; linarith)
    | less above below =>
      push_cast at above below
      exact .more (by linarith) (by linarith)
    | half same => exact .more (by push_cast at same; linarith) (by push_cast at same; linarith)
    | more above below =>
      push_cast at above below
      exact .more (by linarith) (by linarith)

/-- A shift reads the quotient by the power. -/
theorem shiftRight (reads : Reads exact extended) (count : Nat) :
    Reads (exact / 2 ^ count) (extended >>> count) := by
  induction count with
  | zero => simpa [HShiftRight.hShiftRight, Nat.repeat] using reads
  | succ count step =>
    have one : (extended >>> (count + 1)) = (extended >>> count).shiftRightOne := rfl
    rw [one, pow_succ, ← div_div]
    exact step.shiftRightOne

/-- The rounded mantissa is within a half of what is read. -/
theorem abs_sub_le (reads : Reads exact extended) :
    |(extended.roundedMantissa : ℚ) - exact| ≤ 1 / 2 := by
  rw [abs_le]
  cases reads with
  | @whole mantissa same =>
    have kept : ExtendedMantissa.roundedMantissa ⟨mantissa, false, false⟩ = mantissa := rfl
    rw [kept]
    constructor <;> linarith
  | @less mantissa above below =>
    have kept : ExtendedMantissa.roundedMantissa ⟨mantissa, false, true⟩ = mantissa := rfl
    rw [kept]
    constructor <;> linarith
  | @half mantissa same =>
    have even : ExtendedMantissa.roundedMantissa ⟨mantissa, true, false⟩ =
      mantissa + mantissa % 2 := rfl
    rw [even]
    rcases Nat.mod_two_eq_zero_or_one mantissa with none | one
    · rw [none]
      push_cast
      constructor <;> linarith
    · rw [one]
      push_cast
      constructor <;> linarith
  | @more mantissa above below =>
    have next : ExtendedMantissa.roundedMantissa ⟨mantissa, true, true⟩ = mantissa + 1 := rfl
    rw [next]
    push_cast
    constructor <;> linarith

end Reads

/-! ### The closest number -/

/-- Nothing representable is closer to the exact result. -/
structure Closest (exact : ℚ) (u : UnpackedFloat) : Prop where
  canonical : Canonical u
  closest : ∀ {r}, Representable r → |exactly u - exact| ≤ |r - exact|

theorem abs_rounded_sub_le {mantissa : Nat} {exponent : Int}
    (within : exponent ≤ lastPlace mantissa exponent) :
    |(rounded mantissa exponent .exact * 2 ^ lastPlace mantissa exponent -
      mantissa * 2 ^ exponent : ℚ)| ≤ 2 ^ lastPlace mantissa exponent / 2 := by
  have start : Reads mantissa (ExtendedMantissa.ofMantissaAndAccuracy mantissa .exact) :=
    .whole rfl
  have near := (start.shiftRight (dropped mantissa exponent)).abs_sub_le
  have power : (0 : ℚ) < 2 ^ lastPlace mantissa exponent := by positivity
  have scaled : (mantissa * 2 ^ exponent : ℚ) =
      mantissa / 2 ^ dropped mantissa exponent * 2 ^ lastPlace mantissa exponent := by
    rw [two_pow_lastPlace within]
    field_simp
  rw [scaled, ← sub_mul, abs_mul, abs_of_pos power]
  calc _ ≤ 1 / 2 * (2 : ℚ) ^ lastPlace mantissa exponent := by gcongr; exact near
    _ = 2 ^ lastPlace mantissa exponent / 2 := by ring

/-- Rounding takes the closer of the two neighbours, and nothing representable lies between them. -/
theorem abs_rounded_sub_le_of_representable {mantissa : Nat} {exponent : Int}
    (within : exponent ≤ lastPlace mantissa exponent) {r : ℚ} (representable : Representable r) :
    |(rounded mantissa exponent .exact * 2 ^ lastPlace mantissa exponent -
      mantissa * 2 ^ exponent : ℚ)| ≤ |r - mantissa * 2 ^ exponent| := by
  have near := abs_le.mp (abs_rounded_sub_le within)
  obtain ⟨floor, ceiling⟩ := neighbours within
  have power : (0 : ℚ) < 2 ^ exponent := by positivity
  have sides : rounded mantissa exponent .exact = mantissa / 2 ^ dropped mantissa exponent ∨
      rounded mantissa exponent .exact = mantissa / 2 ^ dropped mantissa exponent + 1 := by
    have bounds := rounded_bounds mantissa exponent .exact
    omega
  have outside : r ≤ (mantissa / 2 ^ dropped mantissa exponent : Nat) *
        2 ^ lastPlace mantissa exponent ∨
      ((mantissa / 2 ^ dropped mantissa exponent : Nat) + 1) *
        2 ^ lastPlace mantissa exponent ≤ r := by
    rcases lt_or_ge r (((mantissa / 2 ^ dropped mantissa exponent : Nat) + 1) *
        2 ^ lastPlace mantissa exponent) with below | above
    · exact .inl (representable.le_of_lt (quotient_standard within).full below)
    · exact .inr above
  rw [add_mul] at ceiling
  rcases sides with low | high
  · rw [low] at near ⊢
    rw [abs_of_nonpos (by linarith)]
    rcases outside with below | above
    · rw [abs_of_nonpos (by linarith)]
      linarith
    · rw [abs_of_nonneg (by linarith)]
      linarith
  · rw [high] at near ⊢
    push_cast at near ⊢
    rw [abs_of_nonneg (by linarith)]
    rcases outside with below | above
    · rw [abs_of_nonpos (by linarith)]
      linarith
    · rw [abs_of_nonneg (by linarith)]
      linarith

/-- Exactly given, rounding ends at a closest number. -/
theorem closest_roundWithAccuracy (sign : Sign) {mantissa : Nat} {exponent : Int}
    (within : exponent ≤ lastPlace mantissa exponent) :
    Closest (signed sign (mantissa * 2 ^ exponent))
      (roundWithAccuracy .binary32 sign mantissa exponent .exact) := by
  obtain ⟨canonical, value⟩ := roundWithAccuracy_eq sign .exact within
  refine ⟨canonical, ?_⟩
  intro r representable
  rw [value]
  cases sign with
  | positive => exact abs_rounded_sub_le_of_representable within representable
  | negative =>
    have mirrored := abs_rounded_sub_le_of_representable within representable.neg
    simp only [signed]
    rw [← abs_neg, ← abs_neg (r - _)]
    convert mirrored using 2 <;> ring

/-- The product is closest to the exact one. -/
theorem closest_mul {u v : UnpackedFloat} (left : Canonical u) (right : Canonical v) :
    Closest (exactly u * exactly v) (UnpackedFloat.mul .binary32 u v) := by
  have none (sign : Sign) {exact : ℚ} (zero : exact = 0) : Closest exact (.zero sign) := by
    subst zero
    refine ⟨.zero sign, fun _ => ?_⟩
    have level : exactly (.zero sign) - 0 = 0 := sub_zero 0
    rw [level, abs_zero]
    exact abs_nonneg _
  cases left with
  | zero sign =>
    cases right with
    | zero other => exact none _ (zero_mul _)
    | finite other => exact none _ (zero_mul _)
  | @finite sign m e positive standard =>
    cases right with
    | zero other => exact none _ (mul_zero _)
    | @finite other n f positive' standard' =>
      have within := standard.mul_within standard' (Nat.mul_pos positive positive')
      simp only [UnpackedFloat.mul, exactly, signed_mul, scaled_mul]
      exact closest_roundWithAccuracy (sign * other) within

theorem Closest.eq_of_representable {exact : ℚ} {u : UnpackedFloat} (closest : Closest exact u)
    (representable : Representable exact) : exactly u = exact := by
  have distance := closest.closest representable
  rw [sub_self, abs_zero] at distance
  exact sub_eq_zero.mp (abs_nonpos_iff.mp distance)

/-- Of two numbers the closer one is on the side of the exact result. -/
theorem middle_le {exact low high : ℚ} (order : low < high)
    (closer : |high - exact| ≤ |low - exact|) : (low + high) / 2 ≤ exact := by
  have squares := sq_le_sq.mpr closer
  have factored : (high - low) * (low + high - 2 * exact) ≤ 0 := by linarith
  have side := nonpos_of_mul_nonpos_right factored (sub_pos.mpr order)
  linarith

/-- A greater exact result is not rounded to a lesser number. -/
theorem Closest.mono {exact greater : ℚ} {u v : UnpackedFloat} (less : exact < greater)
    (left : Closest exact u) (right : Closest greater v) : exactly u ≤ exactly v := by
  by_contra reversed
  have reversed := not_le.mp reversed
  -- The middle of the two numbers would lie below the lesser and above the greater result.
  have high := middle_le reversed (left.closest (representable_exactly right.canonical))
  have closer : |-exactly v - -greater| ≤ |-exactly u - -greater| := by
    rw [neg_sub_neg, neg_sub_neg, abs_sub_comm, abs_sub_comm greater]
    exact right.closest (representable_exactly left.canonical)
  have low := middle_le (neg_lt_neg reversed) closer
  linarith

/-- A rounded result is within one unit of the exact one, if 24 digits of the unit hold it. -/
theorem Rounds.abs_sub_le {exact : ℚ} {u : UnpackedFloat} (rounds : Rounds exact u) {unit : Int}
    (least : -149 ≤ unit) (bounded : |exact| ≤ 2 ^ (unit + 24)) :
    |exactly u - exact| ≤ 2 ^ unit := by
  have power : (0 : ℚ) < 2 ^ unit := by positivity
  have scaled : (2 : ℚ) ^ (unit + 24) = (2 ^ 24 : Int) * 2 ^ unit := by
    rw [zpow_add₀ two_ne_zero]
    norm_num
    ring
  obtain ⟨low, high⟩ := abs_le.mp bounded
  rw [scaled] at low high
  rw [← neg_mul, ← le_div_iff₀ power] at low
  rw [← div_le_iff₀ power] at high
  have inside : -2 ^ 24 ≤ ⌊exact / 2 ^ unit⌋ ∧ ⌈exact / 2 ^ unit⌉ ≤ 2 ^ 24 :=
    ⟨Int.le_floor.mpr (by exact_mod_cast low), Int.ceil_le.mpr high⟩
  have order := Int.floor_le_ceil (exact / 2 ^ unit)
  have next := Int.ceil_le_floor_add_one (exact / 2 ^ unit)
  -- The exact result lies between two neighbouring multiples of the unit.
  have floor := (le_div_iff₀ power).mp (Int.floor_le (exact / 2 ^ unit))
  have ceiling := (div_le_iff₀ power).mp (Int.le_ceil (exact / 2 ^ unit))
  have above := rounds.lower (representable_scaled (by omega) least) floor
  have below := rounds.upper (representable_scaled (by omega) least) ceiling
  have gap : (⌈exact / 2 ^ unit⌉ * 2 ^ unit : ℚ) ≤ ⌊exact / 2 ^ unit⌋ * 2 ^ unit + 2 ^ unit := by
    rw [← add_one_mul]
    gcongr
    exact_mod_cast next
  rw [abs_le]
  constructor <;> linarith

/-! ### Normal numbers -/

/-- A normal number has a mantissa of 24 bits. -/
theorem unpack_of_normal {x : Float32} (finite : x.isFinite = true)
    (normal : 2 ^ (-126 : Int) ≤ value x) : ∃ mantissa exponent positive,
      unpack x = .finite .positive mantissa exponent positive ∧ 2 ^ 23 ≤ mantissa ∧
        Standard mantissa exponent ∧ exponent ≤ 104 := by
  have stored := stored_unpack (isNaN_of_isFinite finite)
  obtain ⟨mantissa, exponent, positive, u⟩ :=
    unpack_of_pos finite (lt_of_lt_of_le (by positivity) normal)
  rw [u] at stored
  cases stored with
  | finite _ _ standard most =>
    refine ⟨mantissa, exponent, positive, u, ?_, standard, most⟩
    rcases standard.full with large | rfl
    · exact large
    · rw [value, u] at normal
      have normal : (2 : ℚ) ^ (-126 : Int) ≤ mantissa * 2 ^ (-149 : Int) := normal
      have power : (0 : ℚ) < 2 ^ (-149 : Int) := by positivity
      have scaled : (2 ^ 23 : ℚ) * 2 ^ (-149 : Int) ≤ mantissa * 2 ^ (-149 : Int) := by
        refine le_trans (le_of_eq ?_) normal
        norm_num
      exact_mod_cast le_of_mul_le_mul_right scaled power

/-- A normal result is hardly above the exact one. -/
theorem Nearest.value_le {exact : ℚ} {x : Float32} (nearest : Nearest exact x)
    (normal : 2 ^ (-126 : Int) ≤ value x) : value x ≤ exact * (1 + 1 / 2 ^ 22) := by
  obtain ⟨mantissa, exponent, positive, u, large, standard, -⟩ :=
    unpack_of_normal nearest.isFinite normal
  have exactly_u : value x = mantissa * 2 ^ exponent := by
    rw [value, u]
    rfl
  have power : (0 : ℚ) < 2 ^ exponent := by positivity
  have whole : (2 : ℚ) ^ (exponent + 24) = 2 ^ 24 * 2 ^ exponent := by
    rw [zpow_add₀ two_ne_zero, mul_comm]
    rfl
  have small : value x < 2 ^ (exponent + 24) := by
    rw [exactly_u, whole]
    gcongr
    exact_mod_cast standard.small
  have least : 2 ^ 23 * 2 ^ exponent ≤ value x := by
    rw [exactly_u]
    gcongr
    exact_mod_cast large
  have limit : Representable (2 ^ (exponent + 24)) :=
    representable_two_pow (by have := standard.least; omega)
  -- Otherwise the power of two, or its opposite, would be the nearer result.
  have bounded : |exact| ≤ 2 ^ (exponent + 24) := by
    rw [abs_le]
    constructor
    · by_contra below
      have above := nearest.upper limit.neg (not_le.mp below).le
      have above : value x ≤ -2 ^ (exponent + 24) := above
      linarith
    · by_contra above
      have below := nearest.lower limit (not_le.mp above).le
      exact absurd small below.not_gt
  have near := nearest.abs_sub_le standard.least bounded
  have near : value x - exact ≤ 2 ^ exponent := (abs_le.mp near).2
  linarith

/-! ### Products -/

/-- A product with a number that is not negative grows with a positive factor. -/
protected theorem mul_le_mul {factor x y : Float32} (natural : 0 ≤ factor)
    (left : x.isFinite = true) (right : y.isFinite = true) (positive : 0 < value x) (order : x ≤ y) :
    factor * x ≤ factor * y := by
  have product (z : Float32) :
    factor * z = pack (UnpackedFloat.mul .binary32 (unpack factor) (unpack z)) := rfl
  have order := (le_iff_value left right).mp order
  rw [product, product]
  rcases natural_cases natural with ⟨finite, above⟩ | infinite
  · have canonical := canonical_unpack finite
    have first := closest_mul canonical (canonical_unpack left)
    have second := closest_mul canonical (canonical_unpack right)
    apply pack_le_pack first.canonical second.canonical
    rcases order.lt_or_eq with less | same
    · rcases above.lt_or_eq with some | none
      · exact first.mono (mul_lt_mul_of_pos_left less some) second
      · have zero : exactly (unpack factor) = 0 := none.symm
        rw [zero, zero_mul] at first second
        rw [first.eq_of_representable representable_zero,
          second.eq_of_representable representable_zero]
    · rw [eq_of_value_eq left right same positive.ne']
  · have far {z : Float32} (finite : z.isFinite = true) (some : 0 < value z) :
        UnpackedFloat.mul .binary32 (.infinity .positive) (unpack z) = .infinity .positive := by
      rcases infinity_mul (canonical_unpack finite) some.le with ⟨-, none⟩ | infinite
      · exact absurd none some.ne'
      · exact infinite
    rw [infinite, far left positive, far right (positive.trans_le order)]
    exact Binary32.le_refl rfl

end Mecanum.Binary32
