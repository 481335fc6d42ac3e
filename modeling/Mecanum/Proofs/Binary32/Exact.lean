import Mecanum.Proofs.Binary32.Rounding

/-!
# Exact results

A number stores a rational if it is finite and has that value (`Stores`). An operation on numbers
that store theirs stores the exact result, if any number can (`Storable`), as for integers of 24
bits times a power of two. So a computation that stays among such results is exact to its end.
-/
namespace Mecanum.Binary32

open Float.Model (UnpackedFloat)

/-- A rational that a number can store. -/
structure Storable (exact : ℚ) : Prop where
  representable : Representable exact
  bounded : |exact| ≤ 2 ^ (127 : Int)

structure Stores (x : Float32) (exact : ℚ) : Prop where
  finite : x.isFinite = true
  value_eq : value x = exact

/-- A mantissa below 24 bits is stored exactly at every exponent in range. -/
theorem storable_dyadic {mantissa exponent : Int} (small : mantissa.natAbs < 2 ^ 24)
    (least : -149 ≤ exponent) (most : exponent ≤ 103) : Storable (mantissa * 2 ^ exponent) where
  representable := ⟨mantissa, exponent, small, least, rfl⟩
  bounded := by
    have magnitude : |(mantissa : ℚ)| ≤ 2 ^ 24 := by
      rw [← Int.cast_abs, Int.abs_eq_natAbs, Int.cast_natCast]
      exact_mod_cast small.le
    have power : (0 : ℚ) < 2 ^ exponent := zpow_pos two_pos exponent
    calc |(mantissa * 2 ^ exponent : ℚ)| = |(mantissa : ℚ)| * 2 ^ exponent := by
          rw [abs_mul, abs_of_pos power]
      _ ≤ 2 ^ 24 * 2 ^ (103 : Int) := by
          gcongr
          exact one_le_two
      _ = 2 ^ (127 : Int) := by norm_num

theorem storable_int {n : Int} (small : n.natAbs ≤ 2 ^ 24) : Storable n :=
  ⟨representable_int small, abs_int_le small⟩

theorem Nearest.stores {exact : ℚ} {x : Float32} (nearest : Nearest exact x)
    (storable : Storable exact) : Stores x exact :=
  ⟨nearest.isFinite, nearest.value_eq storable.representable⟩

/-- Small integers are converted exactly. -/
theorem stores_ofInt {n : Int} (small : n.natAbs ≤ 2 ^ 24) : Stores (ofInt n) n :=
  (nearest_ofInt small).stores (storable_int small)

theorem stores_of_eq_ofInt {x : Float32} {n : Int} (same : x = ofInt n)
    (small : n.natAbs ≤ 2 ^ 24) : Stores x n := by
  rw [same]
  exact stores_ofInt small

namespace Stores

variable {x y : Float32} {a b : ℚ} (left : Stores x a) (right : Stores y b)

include left right

theorem add (storable : Storable (a + b)) : Stores (x + y) (a + b) := by
  obtain ⟨finite, rfl⟩ := left
  obtain ⟨finite', rfl⟩ := right
  exact (nearest_add finite finite' storable.bounded).stores storable

theorem sub (storable : Storable (a - b)) : Stores (x - y) (a - b) := by
  obtain ⟨finite, rfl⟩ := left
  obtain ⟨finite', rfl⟩ := right
  exact (nearest_sub finite finite' storable.bounded).stores storable

theorem mul (storable : Storable (a * b)) : Stores (x * y) (a * b) := by
  obtain ⟨finite, rfl⟩ := left
  obtain ⟨finite', rfl⟩ := right
  exact (nearest_mul finite finite' storable.bounded).stores storable

theorem div (nonzero : b ≠ 0) (storable : Storable (a / b)) : Stores (x / y) (a / b) := by
  obtain ⟨finite, rfl⟩ := left
  obtain ⟨finite', rfl⟩ := right
  exact (nearest_div finite finite' nonzero storable.bounded).stores storable

theorem lt_iff : x < y ↔ a < b := by
  obtain ⟨finite, rfl⟩ := left
  obtain ⟨finite', rfl⟩ := right
  exact lt_iff_value finite finite'

end Stores

theorem stores_sub_ofInt {m n : Int} (left : m.natAbs ≤ 2 ^ 24) (right : n.natAbs ≤ 2 ^ 24)
    (small : (m - n).natAbs ≤ 2 ^ 24) : Stores (ofInt m - ofInt n) (m - n : Int) := by
  have storable := storable_int small
  rw [Int.cast_sub] at storable ⊢
  exact (stores_ofInt left).sub (stores_ofInt right) storable

/-! ### Words -/

theorem nearest_toFloat32 (word : UInt32) : Nearest (word.toNat : Int) word.toFloat32 := by
  have bounded : |((word.toNat : Int) : ℚ)| ≤ 2 ^ (127 : Int) := by
    have most : ((word.toNat : Int) : ℚ) ≤ 2 ^ 32 := by exact_mod_cast word.toNat_lt.le
    rw [abs_of_nonneg (by positivity)]
    exact most.trans (by norm_num)
  exact .of_rounds (rounds_ofInt word.toNat) bounded

/-- A word that is not zero is converted to a finite number that is not. -/
theorem exists_finite_toFloat32 {word : UInt32} (nonzero : word ≠ 0) :
    ∃ sign mantissa exponent positive,
      unpack word.toFloat32 = .finite sign mantissa exponent positive := by
  have some : 1 ≤ word.toNat := by
    by_contra none
    exact nonzero (UInt32.toNat_inj.mp (by simpa using none))
  have least : ((1 : Int) : ℚ) ≤ (word.toNat : Int) := by exact_mod_cast some
  have nearest := nearest_toFloat32 word
  have above := nearest.lower (representable_int (by decide)) least
  rcases unpack_of_isFinite nearest.isFinite with ⟨sign, zero⟩ | finite
  · rw [zero] at above
    exact absurd above (by simp [exactly])
  · exact finite

theorem isZero_div_toFloat32 {x : Float32} {word : UInt32} (zero : IsZero x) (nonzero : word ≠ 0) :
    IsZero (x / word.toFloat32) := by
  obtain ⟨sign, u⟩ := zero
  obtain ⟨other, mantissa, exponent, positive, v⟩ := exists_finite_toFloat32 nonzero
  have quotient : x / word.toFloat32 =
      pack (UnpackedFloat.div .binary32 (unpack x) (unpack word.toFloat32)) := rfl
  rw [quotient, u, v]
  exact isZero_pack _

end Mecanum.Binary32
