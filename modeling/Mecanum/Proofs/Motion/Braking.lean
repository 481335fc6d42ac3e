import Mecanum.Motion.Profile
import Mecanum.Proofs.Binary32.Root

/-!
# The braking boundary

The boundary is the estimate of the root of twice the acceleration times the distance left. It grows
with the distance, through two rounded products and the estimate (`boundary_mono`). A chassis at the
boundary needs the square of the estimate over twice the acceleration to stop. The estimate is the
mean of two numbers, so what the chassis needs is above the distance left by the square of their
deviation (`brakes_iff`): hardly anything where the product is near a power of four, and up to an
eighth of the distance where it is far from one.
-/
namespace Mecanum.Motion.Profile

open Binary32

/--
From the boundary the chassis stops within the distance left, up to a relative error: `v² ≤ 2ad`.
-/
structure Brakes (profile : Profile) (remaining : Float32) (tolerance : ℚ) : Prop where
  finite : (profile.boundary remaining).isFinite = true
  enough : value (profile.boundary remaining) ^ 2 ≤
    2 * value profile.accel * value remaining * (1 + tolerance)

variable {profile : Profile} {remaining : Float32}

theorem boundary_of_lt (outside : profile.floorDistance < remaining) :
    profile.boundary remaining = rootEstimate (2 * profile.accel * remaining) := by
  obtain ⟨floor, number⟩ := numbers_of_lt outside
  have above : ¬remaining ≤ profile.floorDistance := by
    rw [← not_lt_iff_le floor number]
    exact not_not_intro outside
  rw [boundary, if_neg above]

/-! ### The square of the boundary -/

section Normal

variable (finite : (2 * profile.accel * remaining).isFinite = true)

include finite

/-- Doubling is exact, so the product is rounded once. -/
theorem nearest_product :
    Nearest (2 * value profile.accel * value remaining) (2 * profile.accel * remaining) := by
  obtain ⟨doubled, -⟩ := isFinite_of_mul finite
  obtain ⟨-, accel⟩ := isFinite_of_mul doubled
  have double : value (2 * profile.accel) = 2 * value profile.accel := by
    obtain ⟨mantissa, exponent, small, least, exact⟩ :=
      representable_exactly (canonical_unpack accel)
    have two : value 2 = 2 := by
      show (8388608 * 2 ^ (-22 : Int) : ℚ) = 2
      norm_num
    have nearest := nearest_mul_of_isFinite doubled
    rw [two] at nearest
    apply nearest.value_eq
    refine ⟨mantissa, exponent + 1, small, by omega, ?_⟩
    rw [value, exact, zpow_add_one₀ two_ne_zero]
    ring
  rw [← double]
  exact nearest_mul_of_isFinite finite

variable (natural : 0 ≤ profile.accel) (outside : profile.floorDistance < remaining)
  (normal : 2 ^ (-126 : Int) ≤ |value (2 * profile.accel * remaining)|)

include natural normal

/-- The product has the sign of the distance. -/
theorem value_product_pos_iff :
    2 ^ (-126 : Int) ≤ value (2 * profile.accel * remaining) ↔ 0 < value remaining := by
  have nearest := nearest_product finite
  obtain ⟨doubled, -⟩ := isFinite_of_mul finite
  obtain ⟨-, accel⟩ := isFinite_of_mul doubled
  have above : 0 ≤ value profile.accel := (le_iff_value rfl accel).mp natural
  have least : (0 : ℚ) < 2 ^ (-126 : Int) := by positivity
  constructor
  · intro large
    by_contra behind
    have product := mul_nonpos_of_nonneg_of_nonpos (mul_nonneg zero_le_two above) (not_lt.mp behind)
    have below : value (2 * profile.accel * remaining) ≤ 0 :=
      nearest.upper representable_zero product
    linarith
  · intro ahead
    have above : 0 ≤ value (2 * profile.accel * remaining) :=
      nearest.lower representable_zero (mul_nonneg (mul_nonneg zero_le_two above) ahead.le)
    rwa [abs_of_nonneg above] at normal

include outside

theorem sq_boundary (ahead : 0 < value remaining) : (profile.boundary remaining).isFinite = true ∧
    value (profile.boundary remaining) ^ 2 =
      shortened (value (2 * profile.accel * remaining)) +
        excess (value (2 * profile.accel * remaining)) := by
  have large := (value_product_pos_iff finite natural normal).mpr ahead
  obtain ⟨root, mean⟩ := value_rootEstimate finite large
  rw [boundary_of_lt outside, mean, sq_mean_eq]
  exact ⟨root, rfl⟩

/--
The chassis stops from the boundary exactly if the excess of the estimate's square fits into the
tolerance, and always with a tolerance of an eighth of the distance and the error of a rounding.
-/
theorem brakes_iff :
    (∀ tolerance, profile.Brakes remaining tolerance ↔ 0 < value remaining ∧
      shortened (value (2 * profile.accel * remaining)) +
        excess (value (2 * profile.accel * remaining)) ≤
          2 * value profile.accel * value remaining * (1 + tolerance)) ∧
    (0 < value remaining → profile.Brakes remaining (1 / 8 + 1 / 2 ^ 20)) := by
  constructor
  · intro tolerance
    constructor
    · rintro ⟨stored, enough⟩
      -- Behind the goal there is nothing to estimate.
      have ahead : 0 < value remaining := by
        rw [← value_product_pos_iff finite natural normal]
        by_contra small
        have below : ¬0 ≤ 2 * profile.accel * remaining := by
          rw [le_iff_value rfl finite, value_zero]
          intro above
          rw [abs_of_nonneg above] at normal
          exact small normal
        rw [boundary_of_lt outside, rootEstimate, if_neg below] at stored
        exact absurd stored (by decide)
      rw [(sq_boundary finite natural outside normal ahead).2] at enough
      exact ⟨ahead, enough⟩
    · rintro ⟨ahead, enough⟩
      obtain ⟨stored, square⟩ := sq_boundary finite natural outside normal ahead
      exact ⟨stored, by rwa [square]⟩
  · intro ahead
    obtain ⟨stored, square⟩ := sq_boundary finite natural outside normal ahead
    have large := (value_product_pos_iff finite natural normal).mpr ahead
    have near := (nearest_product finite).value_le large
    have positive : 0 < value (2 * profile.accel * remaining) :=
      lt_of_lt_of_le (by positivity) large
    have most := shortened_add_excess_le positive
    refine ⟨stored, ?_⟩
    rw [square]
    linarith

end Normal

/-- At 200 mm the product of the robot is 160000, in the middle between two powers of four. -/
theorem brakes_iff_robot :
    0 ≤ (ofConfig .default).accel ∧ (ofConfig .default).floorDistance < 200 ∧
    (2 * (ofConfig .default).accel * 200).isFinite = true ∧
    2 ^ (-126 : Int) ≤ |value (2 * (ofConfig .default).accel * 200)| ∧
    ∀ tolerance, (ofConfig .default).Brakes 200 tolerance ↔ 159201 / 2560000 ≤ tolerance := by
  have natural : 0 ≤ (ofConfig .default).accel := by decide +kernel
  have outside : (ofConfig .default).floorDistance < 200 := by decide +kernel
  have finite : (2 * (ofConfig .default).accel * 200).isFinite = true := by decide +kernel
  have product : value (2 * (ofConfig .default).accel * 200) =
    (10240000 : Nat) * 2 ^ (-6 : Int) := rfl
  have normal : 2 ^ (-126 : Int) ≤ |value (2 * (ofConfig .default).accel * 200)| := by
    rw [product]
    norm_num
  refine ⟨natural, outside, finite, normal, fun tolerance => ?_⟩
  have accel : value (ofConfig .default).accel = 400 := by
    show (13107200 * 2 ^ (-15 : Int) : ℚ) = 400
    norm_num
  have distance : value 200 = 200 := by
    show (13107200 * 2 ^ (-16 : Int) : ℚ) = 200
    norm_num
  rw [(brakes_iff finite natural outside normal).1 tolerance, product, accel, distance, excess,
    anchor, shortened_scaled (by norm_num) (by norm_num), log_scaled (by norm_num) (by norm_num)]
  norm_num
  constructor <;> intro <;> linarith

/-- Where the chassis can brake from 400 mm/s the boundary is 412.25 mm/s. -/
theorem not_brakes_robot :
    0 ≤ (ofConfig .default).accel ∧ (ofConfig .default).floorDistance < 200 ∧
    (2 * (ofConfig .default).accel * 200).isFinite = true ∧
    2 ^ (-126 : Int) ≤ |value (2 * (ofConfig .default).accel * 200)| ∧
    ¬(ofConfig .default).Brakes 200 (1 / 2 ^ 20) := by
  refine ⟨by decide +kernel, by decide +kernel, by decide +kernel, ?_, ?_⟩
  · show (2 : ℚ) ^ (-126 : Int) ≤ |(10240000 * 2 ^ (-6 : Int) : ℚ)|
    norm_num
  · rintro ⟨-, enough⟩
    have enough : (13508608 * 2 ^ (-15 : Int) : ℚ) ^ 2 ≤
      2 * (13107200 * 2 ^ (-15 : Int)) * (13107200 * 2 ^ (-16 : Int)) * (1 + 1 / 2 ^ 20) := enough
    norm_num at enough

/-! ### Growth -/

theorem two_mul_natural {x : Float32} (finite : x.isFinite = true) (natural : 0 ≤ x) :
    0 ≤ 2 * x := by
  have canonical := (rounds_mul (canonical_unpack (rfl : (2 : Float32).isFinite = true))
    (canonical_unpack finite)).canonical
  have number : (2 * x).isNaN = false := isNaN_pack canonical
  have two : 0 ≤ (2 : Float32) := by decide +kernel
  exact (mul_natural two natural).resolve_left (ne_true_of_eq_false number)

section Ahead

variable {factor : Float32} (natural : 0 ≤ factor)

include natural

/-- The product with a distance ahead is not negative. -/
theorem mul_ahead_natural (finite : remaining.isFinite = true) (ahead : 0 < value remaining) :
    0 ≤ factor * remaining := by
  have itself := Binary32.mul_le_mul natural finite finite ahead
    (Binary32.le_refl (isNaN_of_isFinite finite))
  exact (mul_natural natural ((le_iff_value rfl finite).mpr ahead.le)).resolve_left
    (ne_true_of_eq_false (numbers_of_le itself).1)

/-- The estimated root of a multiple grows with its factor. -/
theorem rootEstimate_mul_le {near far : Float32} (first : near.isFinite = true)
    (second : far.isFinite = true) (ahead : 0 < value near) (order : near ≤ far) :
    rootEstimate (factor * near) ≤ rootEstimate (factor * far) := by
  have further : 0 < value far := ahead.trans_le ((le_iff_value first second).mp order)
  obtain ⟨m, e, some, u⟩ := unpack_of_pos first ahead
  obtain ⟨n, f, some', v⟩ := unpack_of_pos second further
  rcases magnitude_or_neg_zero natural with magnitude | rfl
  · exact rootEstimate_le (magnitude.mul_finite u) (magnitude.mul_finite v)
      (Binary32.mul_le_mul natural first second ahead order)
  · -- Times the negative zero every distance is the negative zero.
    have vanishes {x : Float32} {mantissa : Nat} {exponent : Int} {positive : 0 < mantissa}
        (u : unpack x = .finite .positive mantissa exponent positive) : -0 * x = -0 := by
      have product : -0 * x = pack (.mul .binary32 (unpack (-0)) (unpack x)) := rfl
      rw [product, u]
      rfl
    rw [vanishes u, vanishes v]
    exact Binary32.le_refl (numbers_of_le (rootEstimate_natural natural)).2

end Ahead

/-- The boundary does not shrink with the distance, and the estimate stays within a word. -/
theorem boundary_mono {near far : Float32} (accel : profile.accel.isFinite = true)
    (natural : 0 ≤ profile.accel) (floor : 0 ≤ profile.floorDistance)
    (first : near.isFinite = true) (second : far.isFinite = true)
    (outside : profile.floorDistance < near) (order : near ≤ far) :
    profile.boundary near ≤ profile.boundary far ∧
      (profile.boundary near).isNaN = false ∧ (profile.boundary far).isNaN = false ∧
      ∀ distance ∈ [near, far],
        (2 * profile.accel * distance).toBits.toNat + (0x3f800000 : UInt32).toNat < 2 ^ 32 := by
  have positive : 0 < value near := by
    rw [← value_zero]
    exact (lt_iff_value rfl first).mp (Binary32.lt_of_le_of_lt floor outside)
  have further : 0 < value far := positive.trans_le ((le_iff_value first second).mp order)
  have factor := two_mul_natural accel natural
  rw [boundary_of_lt outside, boundary_of_lt (Binary32.lt_of_lt_of_le outside order)]
  have grows := rootEstimate_mul_le factor first second positive order
  refine ⟨grows, (numbers_of_le grows).1, (numbers_of_le grows).2, ?_⟩
  rintro distance (_ | ⟨_, _ | ⟨_, ⟨⟩⟩⟩)
  · exact toNat_toBits_add_lt (mul_ahead_natural factor first positive)
  · exact toNat_toBits_add_lt (mul_ahead_natural factor second further)

/-- The robot's boundary at half a metre and at a distance whose product is infinite. -/
theorem boundary_mono_robot :
    (ofConfig .default).accel.isFinite = true ∧ 0 ≤ (ofConfig .default).accel ∧
    0 ≤ (ofConfig .default).floorDistance ∧ (500 : Float32).isFinite = true ∧
    (3e38 : Float32).isFinite = true ∧ (ofConfig .default).floorDistance < 500 ∧
    (500 : Float32) ≤ 3e38 ∧
    (ofConfig .default).boundary 500 ≤ (ofConfig .default).boundary 3e38 := by
  have accel : (ofConfig .default).accel.isFinite = true := by decide +kernel
  have natural : 0 ≤ (ofConfig .default).accel := by decide +kernel
  have floor : 0 ≤ (ofConfig .default).floorDistance := by decide +kernel
  have first : (500 : Float32).isFinite = true := by decide +kernel
  have second : (3e38 : Float32).isFinite = true := by decide +kernel
  have outside : (ofConfig .default).floorDistance < 500 := by decide +kernel
  have order : (500 : Float32) ≤ 3e38 := by decide +kernel
  exact ⟨accel, natural, floor, first, second, outside, order,
    (boundary_mono accel natural floor first second outside order).1⟩

end Mecanum.Motion.Profile
