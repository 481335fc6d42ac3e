import Mecanum.Proofs.Binary32.Finite

/-!
# Values of numbers

A finite number stands for an exact rational, its mantissa times a power of two. The unpacked forms
of finite numbers are canonical: the mantissa has 24 bits, or fewer at the least exponent. A
canonical form comes back from packing (`unpack_pack_of_canonical`), and two of them compare as
their values do (`compare_eq`).
-/
namespace Mecanum.Binary32

open Float.Model (Format UnpackedFloat)
open Float.Model.UnpackedFloat

def signed : Sign → ℚ → ℚ
  | .positive, magnitude => magnitude
  | .negative, magnitude => -magnitude

/-- The exact value of a finite number. What is not finite has none and counts as zero. -/
def exactly : UnpackedFloat → ℚ
  | .finite sign mantissa exponent _ => signed sign (mantissa * 2 ^ exponent)
  | _ => 0

/-- A mantissa of 24 bits, or of fewer at the least exponent. -/
structure Standard (mantissa : Nat) (exponent : Int) : Prop where
  small : mantissa < 2 ^ 24
  least : -149 ≤ exponent
  full : 2 ^ 23 ≤ mantissa ∨ exponent = -149

/-- The form of an unpacked finite number. -/
inductive Canonical : UnpackedFloat → Prop where
  | zero (sign : Sign) : Canonical (.zero sign)
  | finite (sign : Sign) {mantissa : Nat} {exponent : Int} (positive : 0 < mantissa)
      (standard : Standard mantissa exponent) : Canonical (.finite sign mantissa exponent positive)

theorem Canonical.isFinite {u : UnpackedFloat} (canonical : Canonical u) : u.isFinite = true := by
  cases canonical <;> rfl

theorem Canonical.isNaN {u : UnpackedFloat} (canonical : Canonical u) : u.isNaN = false := by
  cases canonical <;> rfl

def value (x : Float32) : ℚ := exactly (unpack x)

theorem abs_signed (sign : Sign) {magnitude : ℚ} (natural : 0 ≤ magnitude) :
    |signed sign magnitude| = magnitude := by
  cases sign with
  | positive => exact abs_of_nonneg natural
  | negative => exact (abs_neg magnitude).trans (abs_of_nonneg natural)

theorem signed_neg (sign : Sign) (magnitude : ℚ) :
    signed (-sign) magnitude = -signed sign magnitude := by
  cases sign with
  | negative => exact (neg_neg magnitude).symm
  | positive => rfl

theorem signed_mul (sign other : Sign) (magnitude factor : ℚ) :
    signed sign magnitude * signed other factor = signed (sign * other) (magnitude * factor) := by
  cases sign <;> cases other
  · exact neg_mul_neg ..
  · exact neg_mul ..
  · exact mul_neg ..
  · rfl

theorem signed_div (sign other : Sign) (magnitude divisor : ℚ) :
    signed sign magnitude / signed other divisor = signed (sign / other) (magnitude / divisor) := by
  cases sign <;> cases other
  · exact neg_div_neg_eq ..
  · exact neg_div ..
  · exact div_neg _
  · rfl

/-! ### Packing -/

private theorem toNat_one_append (mantissa : BitVec 23) :
    (1#1 ++ mantissa).toNat = 2 ^ 23 + mantissa.toNat := by
  rw [BitVec.toNat_append, ← Nat.shiftLeft_add_eq_or_of_lt mantissa.isLt]
  simp [Nat.shiftLeft_eq]

/-- A finite number unpacks into canonical form. -/
theorem canonical_unpack {x : Float32} (finite : x.isFinite = true) : Canonical (unpack x) := by
  have bias : (Format.exponentBias .binary32 : Int) = 127 := rfl
  have finite : (unpack x).isFinite = true := finite
  obtain ⟨bits, same⟩ : ∃ bits : BitVec (Format.numBits .binary32),
      unpack x = UnpackedFloat.unpack .binary32 bits := ⟨x.toBits.toBitVec, rfl⟩
  rw [same] at finite ⊢
  have short : (unpackMantissa bits).toNat < 2 ^ 23 := (unpackMantissa bits).isLt
  unfold UnpackedFloat.unpack at finite ⊢
  dsimp only at finite ⊢
  split at finite
  next => split at finite <;> cases finite
  next number =>
    rw [if_neg number]
    split
    next subnormal =>
      split
      · exact .zero _
      next nonzero =>
        have none : (unpackExponent bits).toNat = 0 := congrArg BitVec.toNat subnormal
        rw [none, bias]
        exact .finite _ _ ⟨by omega, by decide, .inr rfl⟩
    next normal =>
      have some : (unpackExponent bits).toNat ≠ 0 := by
        intro none
        exact normal (BitVec.eq_of_toNat_eq none)
      have whole : (1#1 ++ unpackMantissa bits).toNat = 2 ^ 23 + (unpackMantissa bits).toNat :=
        toNat_one_append _
      refine .finite _ _ ⟨whole.trans_lt ?_, ?_, .inl ((Nat.le_add_right ..).trans_eq whole.symm)⟩
      · omega
      · rw [bias]
        omega

private theorem unpack_normal {sign : Sign} {mantissa biased : Nat} (positive : 0 < mantissa)
    (large : 2 ^ 23 ≤ mantissa) (small : mantissa < 2 ^ 24) (some : 0 < biased)
    (room : biased < 255) :
    UnpackedFloat.unpack .binary32 (packComponents .binary32 sign (BitVec.ofNat 8 biased)
      (BitVec.ofNat 23 mantissa)) = .finite sign mantissa (biased - 150) positive := by
  have bias : (Format.exponentBias .binary32 : Int) = 127 := rfl
  have value : (BitVec.ofNat 8 biased).toNat = biased := Nat.mod_eq_of_lt (by omega)
  have rest : (BitVec.ofNat 23 mantissa).toNat = mantissa - 2 ^ 23 := by
    rw [BitVec.toNat_ofNat]
    omega
  have number : BitVec.ofNat 8 biased ≠ -1#8 := by
    intro full
    have full : biased = 255 := value ▸ congrArg BitVec.toNat full
    omega
  have normal : BitVec.ofNat 8 biased ≠ 0#8 := by
    intro none
    have none : biased = 0 := value ▸ congrArg BitVec.toNat none
    omega
  unfold UnpackedFloat.unpack
  simp only [unpackMantissa_packComponents, unpackExponent_packComponents,
    unpackSign_packComponents, Sign.ofBitVec_toBitVec]
  rw [if_neg number, if_neg normal]
  congr 1
  · exact (toNat_one_append _).trans (by omega)
  · rw [value, bias]
    omega

private theorem unpack_subnormal {sign : Sign} {mantissa : Nat} (positive : 0 < mantissa)
    (short : mantissa < 2 ^ 23) :
    UnpackedFloat.unpack .binary32 (packComponents .binary32 sign 0#8 (BitVec.ofNat 23 mantissa)) =
      .finite sign mantissa (-149) positive := by
  have value : (BitVec.ofNat 23 mantissa).toNat = mantissa := Nat.mod_eq_of_lt short
  have some : BitVec.ofNat 23 mantissa ≠ 0#23 := by
    intro none
    have none : mantissa = 0 := value ▸ congrArg BitVec.toNat none
    omega
  unfold UnpackedFloat.unpack
  simp only [unpackMantissa_packComponents, unpackExponent_packComponents,
    unpackSign_packComponents, Sign.ofBitVec_toBitVec]
  rw [if_neg (by decide), if_pos trivial, dif_neg some]
  congr 1

/-- A bounded value leaves room for its exponent. -/
theorem Standard.exponent_le {mantissa : Nat} {exponent : Int}
    (standard : Standard mantissa exponent)
    (bounded : (mantissa * 2 ^ exponent : ℚ) ≤ 2 ^ (127 : Int)) : exponent ≤ 104 := by
  rcases standard.full with normal | subnormal
  · have power : (2 : ℚ) ^ (23 + exponent) ≤ 2 ^ (127 : Int) := by
      refine le_trans ?_ bounded
      rw [zpow_add₀ two_ne_zero]
      gcongr
      exact_mod_cast normal
    have := (zpow_le_zpow_iff_right₀ one_lt_two).mp power
    omega
  · omega

/-- A finite form comes back from packing, unless its exponent is too large. -/
theorem Standard.unpack_pack {sign : Sign} {mantissa : Nat} {exponent : Int}
    {positive : 0 < mantissa} (standard : Standard mantissa exponent) (fits : exponent ≤ 104) :
    unpack (pack (.finite sign mantissa exponent positive)) =
      .finite sign mantissa exponent positive := by
  have bias : (Format.exponentBias .binary32 : Int) = 127 := rfl
  have least := standard.least
  have log : mantissa.log2 < 24 := (Nat.log2_lt (Nat.ne_of_gt positive)).mpr standard.small
  show UnpackedFloat.unpack .binary32 (UnpackedFloat.pack .binary32 _) = _
  unfold UnpackedFloat.pack
  dsimp only
  obtain ⟨biased, stored⟩ : ∃ biased : Nat,
      (exponent + (Format.exponentBias .binary32 : Int) + (23 : Nat)).toNat = biased := ⟨_, rfl⟩
  rw [stored]
  have shown : (biased : Int) = exponent + 150 := by omega
  rw [if_neg (by omega : ¬2 ^ 8 ≤ biased + 1)]
  split
  next normal =>
    have normal : mantissa.log2 + 1 = 24 := normal
    have large : 2 ^ 23 ≤ mantissa := (Nat.le_log2 (Nat.ne_of_gt positive)).mp (by omega)
    rw [unpack_normal positive large standard.small (by omega) (by omega)]
    congr 1
    omega
  next subnormal =>
    have subnormal : mantissa.log2 + 1 ≠ 24 := subnormal
    have short : mantissa < 2 ^ 23 := (Nat.log2_lt (Nat.ne_of_gt positive)).mp (by omega)
    rw [standard.full.resolve_left (by omega)]
    exact unpack_subnormal positive short

/-- A canonical form comes back from packing, unless it is too large. -/
theorem unpack_pack_of_canonical {u : UnpackedFloat} (canonical : Canonical u)
    (bounded : |exactly u| ≤ 2 ^ (127 : Int)) : unpack (pack u) = u := by
  cases canonical with
  | zero sign => exact unpack_packedZero
  | @finite sign mantissa exponent positive standard =>
    rw [exactly, abs_signed sign (by positivity)] at bounded
    exact standard.unpack_pack (standard.exponent_le bounded)

/-! ### Order -/

/-- Two comparisons agree if they agree on both strict orders. -/
theorem compare_congr {α β : Type} [LinearOrder α] [LinearOrder β] {a b : α} {c d : β}
    (below : a < b ↔ c < d) (above : b < a ↔ d < c) : compare a b = compare c d := by
  rcases lt_trichotomy a b with less | rfl | more
  · rw [compare_lt_iff_lt.mpr less, compare_lt_iff_lt.mpr (below.mp less)]
  · have level : c = d := le_antisymm (by simpa using above) (by simpa using below)
    rw [compare_eq_iff_eq.mpr rfl, compare_eq_iff_eq.mpr level]
  · rw [compare_gt_iff_gt.mpr more, compare_gt_iff_gt.mpr (above.mp more)]

section Order

variable {m n : Nat} {e f : Int}

/-- A greater exponent outweighs every mantissa. -/
theorem Standard.scaled_lt (left : Standard m e) (right : Standard n f) (below : e < f) :
    (m * 2 ^ e : ℚ) < n * 2 ^ f := by
  have least := left.least
  have large : 2 ^ 23 ≤ n := right.full.resolve_right (by omega)
  calc (m * 2 ^ e : ℚ) < 2 ^ 24 * 2 ^ e := by
        gcongr
        exact_mod_cast left.small
    _ = 2 ^ 23 * 2 ^ (e + 1) := by
        rw [zpow_add_one₀ two_ne_zero]
        ring
    _ ≤ n * 2 ^ f := by
        gcongr
        · exact_mod_cast large
        · exact one_le_two
        · omega

/-- Standard forms are ordered by exponent, then by mantissa. -/
theorem Standard.compare_scaled (left : Standard m e) (right : Standard n f) :
    (compare e f).then (compare m n) = compare (m * 2 ^ e : ℚ) (n * 2 ^ f) := by
  rcases lt_trichotomy e f with below | rfl | above
  · rw [compare_lt_iff_lt.mpr below, compare_lt_iff_lt.mpr (left.scaled_lt right below)]
    rfl
  · have positive : (0 : ℚ) < 2 ^ e := by positivity
    rw [compare_eq_iff_eq.mpr rfl, Ordering.eq_then]
    apply compare_congr <;> simp [positive]
  · rw [compare_gt_iff_gt.mpr above, compare_gt_iff_gt.mpr (right.scaled_lt left above)]
    rfl

end Order

private theorem swap_compare (a b : ℚ) : (compare a b).swap = compare (-a) (-b) := by
  rw [← Std.OrientedCmp.eq_swap]
  apply compare_congr <;> simp

/-- Finite numbers compare as their values do. -/
theorem compare_eq {u v : UnpackedFloat} (left : Canonical u) (right : Canonical v) :
    u.compare v = some (compare (exactly u) (exactly v)) := by
  have above {m : Nat} (e : Int) (positive : 0 < m) : (0 : ℚ) < m * 2 ^ e := by positivity
  have below {m : Nat} (e : Int) (positive : 0 < m) : -(m * 2 ^ e : ℚ) < 0 :=
    neg_lt_zero.mpr (above e positive)
  cases left with
  | zero sign =>
    cases right with
    | zero other => exact congrArg some (compare_eq_iff_eq.mpr rfl).symm
    | finite other positive =>
      cases other with
      | positive => exact congrArg some (compare_lt_iff_lt.mpr (above _ positive)).symm
      | negative => exact congrArg some (compare_gt_iff_gt.mpr (below _ positive)).symm
  | finite sign some standard =>
    cases right with
    | zero other =>
      cases sign with
      | positive => exact congrArg _ (compare_gt_iff_gt.mpr (above _ some)).symm
      | negative => exact congrArg _ (compare_lt_iff_lt.mpr (below _ some)).symm
    | finite other some' standard' =>
      cases sign <;> cases other
      · exact congrArg _ ((congrArg _ (standard.compare_scaled standard')).trans (swap_compare ..))
      · exact congrArg _ (compare_lt_iff_lt.mpr ((below _ some).trans (above _ some'))).symm
      · exact congrArg _ (compare_gt_iff_gt.mpr ((below _ some').trans (above _ some))).symm
      · exact congrArg _ (standard.compare_scaled standard')

section Finite

variable {x y : Float32} (left : x.isFinite = true) (right : y.isFinite = true)

include left right

theorem lt_iff_value : x < y ↔ value x < value y := by
  rw [lt_iff, UnpackedFloat.lt, compare_eq (canonical_unpack left) (canonical_unpack right),
    beq_iff_eq, Option.some_inj, compare_lt_iff_lt]
  rfl

theorem le_iff_value : x ≤ y ↔ value x ≤ value y := by
  rw [le_iff, UnpackedFloat.le, compare_eq (canonical_unpack left) (canonical_unpack right),
    Option.any_some, Ordering.isLE_iff_ne_gt, compare_gt_iff_gt]
  exact not_lt

/-- Numbers of one value differ at most in the sign of a zero. -/
theorem same_of_value_eq (equal : value x = value y) : Same x y := by
  apply Same.of_beq
  show (unpack x).beq (unpack y) = true
  rw [UnpackedFloat.beq, compare_eq (canonical_unpack left) (canonical_unpack right), beq_iff_eq,
    Option.some_inj, compare_eq_iff_eq]
  exact equal

theorem eq_of_value_eq (equal : value x = value y) (some : value x ≠ 0) : x = y := by
  rcases same_of_value_eq left right equal with same | ⟨⟨sign, zero⟩, -⟩
  · exact same
  · refine absurd ?_ some
    rw [value, zero]
    rfl

/-- The lesser of two finite numbers has the lesser value. -/
theorem value_lesser : value (lesser x y) = min (value x) (value y) := by
  have number : x.isNaN = false := (canonical_unpack left).isNaN
  rw [lesser, number, if_neg Bool.false_ne_true]
  split
  next less => exact (min_eq_right ((lt_iff_value right left).mp less).le).symm
  next least =>
    rw [lt_iff_value right left, not_lt] at least
    exact (min_eq_left least).symm

/-- The greater of two finite numbers has the greater value. -/
theorem value_greater : value (greater x y) = max (value x) (value y) := by
  have number : x.isNaN = false := (canonical_unpack left).isNaN
  rw [greater, number, if_neg Bool.false_ne_true]
  split
  next more => exact (max_eq_right ((lt_iff_value left right).mp more).le).symm
  next most =>
    rw [lt_iff_value left right, not_lt] at most
    exact (max_eq_left most).symm

/-- The greater of two numbers is the first, unless its value is less. -/
theorem greater_eq_left (order : value y ≤ value x) : greater x y = x := by
  have number : x.isNaN = false := (canonical_unpack left).isNaN
  have level : ¬x < y := by
    rw [lt_iff_value left right]
    exact not_lt.mpr order
  rw [greater, if_neg (Bool.eq_false_iff.mp number), if_neg level]

end Finite

end Mecanum.Binary32
