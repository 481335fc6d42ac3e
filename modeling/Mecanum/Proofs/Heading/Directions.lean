import Mathlib.Algebra.Order.ToIntervalMod
import Mecanum.Heading.Angle
import Mecanum.Proofs.Binary32.Remainder

/-!
# Normalised angles are exact

The remainder of an angle by a full turn is exact, however large the angle is. Where it is beyond
half a turn, the correction by a full turn leaves half a turn at most. That is no more than either
operand of the correction, which is therefore not rounded either (`principal_normalize`). What is
normalised is left as it is, and the angles of one direction are normalised to one angle.
-/
namespace Mecanum.Heading

open Binary32

/-- Angles that are whole turns apart. -/
def SameDirection (angle other : ℚ) : Prop := ∃ turns : Int, angle = other + 360 * turns

/-- The angle of a direction above -180 and up to 180 degrees. -/
structure Principal (angle principal : ℚ) : Prop where
  above : -180 < principal
  most : principal ≤ 180
  direction : SameDirection angle principal

/-! ### Exact angles -/

theorem turn_pos : (0 : ℚ) < 360 := by norm_num

/-- Every direction has one principal angle, the remainder that is centred at zero. -/
theorem principal_iff {angle principal : ℚ} :
    Principal angle principal ↔ toIocMod turn_pos (-180) angle = principal := by
  have edge : (-180 + 360 : ℚ) = 180 := by norm_num
  rw [toIocMod_eq_iff, Set.mem_Ioc, edge]
  simp only [zsmul_eq_mul, mul_comm _ (360 : ℚ)]
  constructor
  · rintro ⟨above, most, direction⟩
    exact ⟨⟨above, most⟩, direction⟩
  · rintro ⟨⟨above, most⟩, direction⟩
    exact ⟨above, most, direction⟩

/-- Two angles have one direction when they have one principal angle. -/
theorem sameDirection_iff {angle other : ℚ} : SameDirection angle other ↔
    toIocMod turn_pos (-180) angle = toIocMod turn_pos (-180) other := by
  have principal : Principal other (toIocMod turn_pos (-180) other) := principal_iff.mpr rfl
  obtain ⟨behind, shown⟩ := principal.direction
  rw [← principal_iff]
  constructor
  · rintro ⟨turns, rfl⟩
    refine ⟨principal.above, principal.most, turns + behind, ?_⟩
    push_cast
    linarith
  · rintro ⟨-, -, turns, same⟩
    refine ⟨turns - behind, ?_⟩
    push_cast
    linarith

/-! ### Normalised angles -/

theorem stores_turn : Stores 360 360 := by
  exact_mod_cast stores_of_eq_ofInt (x := 360) (n := 360) rfl (by decide)

theorem stores_half : Stores 180 180 := by
  exact_mod_cast stores_of_eq_ofInt (x := 180) (n := 180) rfl (by decide)

theorem stores_opposite : Stores (-180) (-180) := by
  exact_mod_cast stores_of_eq_ofInt (x := -180) (n := -180) rfl (by decide)

theorem representable_turn : Representable 360 := by
  exact_mod_cast representable_int (n := 360) (by decide)

section Finite

variable {angle : Float32} (finite : angle.isFinite = true)

include finite

theorem remains_turn : (remainder angle 360).isFinite = true ∧
    Remains (value angle) 360 (value (remainder angle 360)) := by
  have turn := stores_turn.value_eq
  have remains := remains_remainder finite stores_turn.finite (by rw [turn]; norm_num)
    (by rw [turn]; norm_num)
  rwa [turn] at remains

/-- The correction by a full turn is exact where it is made. -/
theorem principal_normalize :
    (normalize angle).isFinite = true ∧ Principal (value angle) (value (normalize angle)) := by
  obtain ⟨kept, remains⟩ := remains_turn finite
  obtain ⟨count, whole⟩ := remains.whole
  obtain ⟨low, high⟩ := abs_lt.mp remains.less
  rw [abs_of_pos turn_pos] at low high
  have stores : Stores (remainder angle 360) (value (remainder angle 360)) := ⟨kept, rfl⟩
  have representable : Representable (value (remainder angle 360)) :=
    representable_exactly (canonical_unpack kept)
  have half {r : ℚ} (small : |r| ≤ 180) : |r| ≤ 2 ^ (127 : Int) := small.trans (by norm_num)
  simp only [normalize]
  split
  next above =>
    rw [stores_half.lt_iff stores] at above
    have small : |value (remainder angle 360) - 360| ≤ 180 := abs_le.mpr ⟨by linarith, by linarith⟩
    have corrected := stores.sub stores_turn
      ⟨representable.sub representable_turn (small.trans (le_abs.mpr (.inl above.le)))
        (small.trans (by norm_num)), half small⟩
    refine ⟨corrected.finite, ?_⟩
    rw [corrected.value_eq]
    refine ⟨by linarith, by linarith, count + 1, ?_⟩
    push_cast
    linarith
  next inside =>
    rw [stores_half.lt_iff stores, not_lt] at inside
    split
    next below =>
      rw [le_iff_value kept stores_opposite.finite, stores_opposite.value_eq] at below
      have small : |value (remainder angle 360) - -360| ≤ 180 :=
        abs_le.mpr ⟨by linarith, by linarith⟩
      have exact := representable.sub representable_turn.neg
        (small.trans (le_abs.mpr (.inr (by linarith)))) (small.trans (by norm_num))
      rw [sub_neg_eq_add] at small exact
      have corrected := stores.add stores_turn ⟨exact, half small⟩
      refine ⟨corrected.finite, ?_⟩
      rw [corrected.value_eq]
      refine ⟨by linarith, by linarith, count - 1, ?_⟩
      push_cast
      linarith
    next beyond =>
      rw [le_iff_value kept stores_opposite.finite, stores_opposite.value_eq, not_le] at beyond
      exact ⟨kept, beyond, inside, count, by linarith⟩

/-- A principal angle is left as it is, a zero with its sign. -/
theorem normalize_eq_self (above : -180 < value angle) (most : value angle ≤ 180) :
    normalize angle = angle := by
  have turn := stores_turn.value_eq
  have small : |value angle| < |value 360| := by
    rw [turn, abs_of_pos turn_pos]
    exact abs_lt.mpr ⟨by linarith, by linarith⟩
  have whole : remainder angle 360 = angle := by
    apply remainder_eq_self finite stores_turn.finite _ _ small <;> rw [turn] <;> norm_num
  have inside : ¬180 < angle := by
    rw [stores_half.lt_iff ⟨finite, rfl⟩]
    exact most.not_gt
  have outside : ¬angle ≤ -180 := by
    rw [le_iff_value finite stores_opposite.finite, stores_opposite.value_eq]
    exact above.not_ge
  simp only [normalize, whole, if_neg inside, if_neg outside]

/--
An angle is normalised exactly: to the one principal angle of its direction, which is normalised
itself and is that of every angle of the direction.
-/
theorem normalize_exact :
    (normalize angle).isFinite = true ∧
    (∀ principal : ℚ, Principal (value angle) principal ↔ principal = value (normalize angle)) ∧
    normalize (normalize angle) = normalize angle ∧
    ∀ other : Float32, other.isFinite = true →
      (Same (normalize angle) (normalize other) ↔
        SameDirection (value angle) (value other)) := by
  obtain ⟨kept, normal⟩ := principal_normalize finite
  have centred := principal_iff.mp normal
  refine ⟨kept, ?_, normalize_eq_self kept normal.above normal.most, ?_⟩
  · intro principal
    rw [principal_iff, centred, eq_comm]
  · intro other finite'
    obtain ⟨kept', normal'⟩ := principal_normalize finite'
    rw [sameDirection_iff, centred, principal_iff.mp normal']
    exact ⟨Same.value_eq, same_of_value_eq kept kept'⟩

end Finite

/-- An angle far beyond the integers that a number of 24 bits can count is 16 degrees. -/
theorem normalize_exact_far :
    let far : Float32 := .ofBits 0x71800000
    far.isFinite = true ∧ value far = 2 ^ 100 ∧ normalize far = 16 ∧
      Principal (value far) (value 16) ∧ normalize (normalize far) = normalize far ∧
      Same (normalize far) (normalize (-344)) := by
  intro far
  have finite : far.isFinite = true := by decide +kernel
  have exact : value far = 2 ^ 100 := by
    have stored : unpack (.ofBits 0x71800000) = .finite .positive 8388608 77 (by decide) := rfl
    rw [value, stored, exactly, signed]
    norm_num
  have result : normalize far = 16 := by decide +kernel
  have other : value (-344) = -344 := by
    show -(11272192 * 2 ^ (-15 : Int) : ℚ) = -344
    norm_num
  obtain ⟨-, unique, idempotent, directions⟩ := normalize_exact finite
  refine ⟨finite, exact, result, ?_, idempotent, ?_⟩
  · rw [unique, result]
  · refine (directions (-344) (by decide +kernel)).mpr ?_
    rw [exact, other]
    exact ⟨(2 ^ 100 + 344) / 360, by norm_num⟩

end Mecanum.Heading
