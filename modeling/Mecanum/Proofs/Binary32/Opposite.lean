import Mecanum.Proofs.Binary32.Neutral

/-!
# Opposite operands

Negation changes the sign of a number and nothing else, and rounding does not look at the sign. So
a difference is the sum with the opposite number, an opposite factor makes an opposite product, and
a clamp between opposite bounds takes opposite numbers to opposite results, infinities and what is
not a number included. Only a sum that vanishes is the positive zero in either case, so sums of
opposite numbers are opposite up to the sign of a zero (`same_neg_add`).

From what holds above zero it follows what holds below: a sum, a product with a factor that is not
negative, a clamp and an integer part stay on the side of their operands (`Leans`).
-/
namespace Mecanum.Binary32

open Float.Model (Format UnpackedFloat)
open Float.Model.UnpackedFloat

/-! ### Rounding -/

theorem sign_mul_neg (sign other : Sign) : sign * -other = -(sign * other) := by
  cases sign <;> cases other <;> rfl

theorem roundWithAccuracy_neg (sign : Sign) (mantissa : Nat) (exponent : Int)
    (accuracy : Accuracy) :
    roundWithAccuracy .binary32 (-sign) mantissa exponent accuracy =
      (roundWithAccuracy .binary32 sign mantissa exponent accuracy).neg := by
  simp only [roundWithAccuracy]
  split <;> rfl

/-- A zero gets the sign that it is given, whatever it comes from. -/
theorem normalize_neg (n exponent : Int) (sign : Sign) :
    UnpackedFloat.normalize .binary32 (-n) exponent sign =
        (UnpackedFloat.normalize .binary32 n exponent sign).neg ∨
      UnpackedFloat.normalize .binary32 (-n) exponent sign = .zero sign ∧
        UnpackedFloat.normalize .binary32 n exponent sign = .zero sign := by
  rcases lt_trichotomy n 0 with below | rfl | above
  · left
    have opposite : compare (-n) 0 = .gt := compare_gt_iff_gt.mpr (neg_pos.mpr below)
    simp only [UnpackedFloat.normalize, compare_lt_iff_lt.mpr below, opposite]
    exact roundWithAccuracy_neg .negative ..
  · exact .inr ⟨rfl, rfl⟩
  · left
    have opposite : compare (-n) 0 = .lt := compare_lt_iff_lt.mpr (neg_neg_of_pos above)
    simp only [UnpackedFloat.normalize, compare_gt_iff_gt.mpr above, opposite, Int.neg_neg]
    exact roundWithAccuracy_neg .positive ..

/-! ### Packing -/

theorem unpack_packComponents_neg (sign : Sign) (exponent : BitVec (Format.exponentBits .binary32))
    (mantissa : BitVec (Format.mantissaBitsWithoutImplicit .binary32)) :
    UnpackedFloat.unpack .binary32 (packComponents .binary32 (-sign) exponent mantissa) =
      (UnpackedFloat.unpack .binary32 (packComponents .binary32 sign exponent mantissa)).neg := by
  unfold UnpackedFloat.unpack
  simp only [unpackMantissa_packComponents, unpackExponent_packComponents,
    unpackSign_packComponents, Sign.ofBitVec_toBitVec]
  split
  next => split <;> rfl
  next =>
    split
    · split <;> rfl
    · rfl

/-- The components of a packed form do not depend on its sign. -/
theorem exists_components (mantissa : Nat) (exponent : Int) (positive : 0 < mantissa) :
    ∃ stored fraction, ∀ sign,
      UnpackedFloat.pack .binary32 (.finite sign mantissa exponent positive) =
        packComponents .binary32 sign stored fraction := by
  unfold UnpackedFloat.pack
  dsimp only
  split
  · exact ⟨_, _, fun _ => rfl⟩
  · split
    · exact ⟨_, _, fun _ => rfl⟩
    · exact ⟨_, _, fun _ => rfl⟩

/-- Packing keeps opposite results apart by their sign alone. -/
theorem neg_pack (u : UnpackedFloat) : -pack u = pack u.neg := by
  suffices opposite : unpack (pack u.neg) = (unpack (pack u)).neg by
    rw [← pack_unpack (pack u.neg), opposite]
    rfl
  show UnpackedFloat.unpack .binary32 (UnpackedFloat.pack .binary32 u.neg) =
    (UnpackedFloat.unpack .binary32 (UnpackedFloat.pack .binary32 u)).neg
  cases u with
  | notANumber => rfl
  | infinity sign => exact unpack_packComponents_neg ..
  | zero sign => exact unpack_packComponents_neg ..
  | finite sign mantissa exponent positive =>
    obtain ⟨stored, fraction, packed⟩ := exists_components mantissa exponent positive
    rw [UnpackedFloat.neg, packed, packed]
    exact unpack_packComponents_neg ..

/-- A magnitude is its own. -/
theorem Magnitude.abs_eq {x : Float32} (magnitude : Magnitude x) : x.abs = x := by
  have same : (unpack x).abs = unpack x := by
    cases u : unpack x with
    | notANumber => rfl
    | _ =>
      rw [Magnitude, u] at magnitude
      cases magnitude
      rfl
  conv_rhs => rw [← pack_unpack x, ← same]
  rfl

/-! ### Operations -/

/-- Subtracting a number is adding its opposite. -/
protected theorem sub_eq_add_neg (x y : Float32) : x - y = x + -y := by
  have unpacked (u v : UnpackedFloat) :
      UnpackedFloat.sub .binary32 u v = UnpackedFloat.add .binary32 u v.neg := by
    cases u with
    | notANumber => rfl
    | finite sign =>
      cases v with
      | finite other =>
        simp only [UnpackedFloat.add, UnpackedFloat.sub, UnpackedFloat.neg, sign_apply_neg,
          sub_eq_add_neg]
      | _ => rfl
    | _ => cases v <;> rfl
  show pack (UnpackedFloat.sub .binary32 (unpack x) (unpack y)) =
    pack (UnpackedFloat.add .binary32 (unpack x) (unpack (-y)))
  rw [unpack_neg, unpacked]

/-- The opposite factor gives the opposite product. -/
protected theorem mul_neg (x y : Float32) : x * -y = -(x * y) := by
  have unpacked (u v : UnpackedFloat) :
      UnpackedFloat.mul .binary32 u v.neg = (UnpackedFloat.mul .binary32 u v).neg := by
    cases u with
    | notANumber => rfl
    | finite sign =>
      cases v with
      | notANumber => rfl
      | finite other =>
        simp only [UnpackedFloat.mul, UnpackedFloat.neg, sign_mul_neg, roundWithAccuracy_neg]
      | _ => simp only [UnpackedFloat.mul, UnpackedFloat.neg, sign_mul_neg]
    | _ => cases v <;> simp only [UnpackedFloat.mul, UnpackedFloat.neg, sign_mul_neg]
  show pack (UnpackedFloat.mul .binary32 (unpack x) (unpack (-y))) =
    -pack (UnpackedFloat.mul .binary32 (unpack x) (unpack y))
  rw [unpack_neg, unpacked, neg_pack]

/-- Sums of opposite numbers are opposite, up to the sign of a zero. -/
theorem same_neg_add (x y : Float32) : Same (-x + -y) (-(x + y)) := by
  have unpacked (u v : UnpackedFloat) :
      UnpackedFloat.add .binary32 u.neg v.neg = (UnpackedFloat.add .binary32 u v).neg ∨
        (∃ sign, UnpackedFloat.add .binary32 u.neg v.neg = .zero sign) ∧
          ∃ sign, (UnpackedFloat.add .binary32 u v).neg = .zero sign := by
    cases u with
    | notANumber => exact .inl rfl
    | infinity sign =>
      cases v with
      | infinity other => cases sign <;> cases other <;> exact .inl rfl
      | _ => exact .inl rfl
    | zero sign =>
      cases v with
      | zero other => cases sign <;> cases other <;> exact .inr ⟨⟨_, rfl⟩, ⟨_, rfl⟩⟩
      | _ => exact .inl rfl
    | finite sign mantissa exponent =>
      cases v with
      | finite other mantissa' exponent' =>
        simp only [UnpackedFloat.add, UnpackedFloat.neg, sign_apply_neg, ← Int.neg_add]
        rcases normalize_neg _ _ _ with opposite | ⟨left, right⟩
        · exact .inl opposite
        · rw [left, right]
          exact .inr ⟨⟨_, rfl⟩, ⟨_, rfl⟩⟩
      | _ => exact .inl rfl
  have sum : -x + -y = pack (UnpackedFloat.add .binary32 (unpack x).neg (unpack y).neg) := by
    rw [← unpack_neg, ← unpack_neg]
    rfl
  have opposite : -(x + y) = pack (UnpackedFloat.add .binary32 (unpack x) (unpack y)).neg :=
    neg_pack _
  rw [sum, opposite]
  rcases unpacked (unpack x) (unpack y) with equal | ⟨⟨left, zero⟩, ⟨right, zero'⟩⟩
  · rw [equal]
    exact .refl _
  · rw [zero, zero']
    exact .inr ⟨isZero_pack left, isZero_pack right⟩

/-! ### Clamps -/

protected theorem neg_lt_neg_iff {x y : Float32} : -x < -y ↔ y < x := by
  constructor
  · intro less
    obtain ⟨left, right⟩ := numbers_of_lt less
    rw [lt_iff_place left right, place_neg, place_neg] at less
    rw [isNaN_neg] at left right
    exact (lt_iff_place right left).mpr (by omega)
  · intro less
    obtain ⟨right, left⟩ := numbers_of_lt less
    rw [lt_iff_place right left] at less
    rw [lt_iff_place ((isNaN_neg x).trans left) ((isNaN_neg y).trans right), place_neg, place_neg]
    omega

/-- A number between the bounds of a clamp, or what is not a number. -/
def Within (limit x : Float32) : Prop := x.isNaN = true ∨ -limit ≤ x ∧ x ≤ limit

section Clamp

variable {limit : Float32} (natural : 0 ≤ limit)

include natural

/-- What is cut off on both sides is within the limit, or is no number. -/
theorem within_cutOff (x : Float32) : Within limit (cutOff (-limit) limit x) := by
  obtain ⟨-, bound⟩ := numbers_of_le natural
  have opposite : (-limit).isNaN = false := (isNaN_neg limit).trans bound
  have order : -limit ≤ limit :=
    (not_lt_iff_le bound opposite).mp (not_lt_neg natural natural)
  cases number : x.isNaN with
  | true =>
    rw [cutOff_of_isNaN number]
    exact .inl number
  | false =>
    right
    rw [cutOff]
    split
    next => exact ⟨Binary32.le_refl opposite, order⟩
    next above =>
      split
      next => exact ⟨order, Binary32.le_refl bound⟩
      next below =>
        exact ⟨(not_lt_iff_le number opposite).mp above, (not_lt_iff_le bound number).mp below⟩

theorem within_isZero {x : Float32} (zero : IsZero x) : Within limit x := by
  rw [← cutOff_isZero natural zero]
  exact within_cutOff natural x

/-- A clamp between opposite bounds takes opposite numbers to opposite results. -/
theorem cutOff_neg (x : Float32) :
    cutOff (-limit) limit (-x) = -cutOff (-limit) limit x := by
  have below : limit < -x ↔ x < -limit := by
    rw [← Binary32.neg_lt_neg_iff, Binary32.neg_neg]
  simp only [cutOff, Binary32.neg_lt_neg_iff, below]
  split
  next above =>
    have inside : ¬x < -limit := by
      intro under
      exact not_lt_neg natural natural (Binary32.lt_of_lt_of_le above (Binary32.le_of_lt under))
    rw [if_neg inside]
  next =>
    split
    next => exact (Binary32.neg_neg limit).symm
    next => rfl

end Clamp

/-! ### Sides -/

/-- A number that is not on the other side of zero, or what is not a number. -/
def Leans (sign : Sign) (x : Float32) : Prop := 0 ≤ sign.apply (place x)

/-- A number leans to the positive side when it is natural, or no number. -/
theorem leans_positive_iff {x : Float32} : Leans .positive x ↔ x.isNaN = true ∨ 0 ≤ x := by
  have zero : place 0 = 0 := rfl
  cases number : x.isNaN with
  | false =>
    rw [le_iff_place rfl number, zero]
    simp only [Bool.false_eq_true, false_or]
    exact Iff.rfl
  | true =>
    have none : place x = 0 := congrArg rank (unpack_of_isNaN number)
    exact iff_of_true none.ge (.inl rfl)

/-- What is not on the one side leans to the other. -/
theorem leans_of_not_lt {x : Float32} : (¬x < 0 → Leans .positive x) ∧
    (¬0 < x → Leans .negative x) := by
  have zero : place 0 = 0 := rfl
  cases number : x.isNaN with
  | false =>
    rw [lt_iff_place number rfl, lt_iff_place rfl number, zero]
    exact ⟨fun above => not_lt.mp above, fun below => neg_nonneg.mpr (not_lt.mp below)⟩
  | true =>
    have none : place x = 0 := congrArg rank (unpack_of_isNaN number)
    rw [Leans, Leans, none]
    exact ⟨fun _ => le_rfl, fun _ => le_rfl⟩

theorem leans_neg_iff {sign : Sign} {x : Float32} : Leans sign (-x) ↔ Leans (-sign) x := by
  rw [Leans, Leans, place_neg, sign_apply_neg]
  cases sign with
  | positive => exact Iff.rfl
  | negative => exact Iff.rfl

namespace Leans

variable {sign : Sign} {x y : Float32}

theorem of_isZero (sign : Sign) (zero : IsZero x) : Leans sign x := by
  obtain ⟨other, u⟩ := zero
  have none : place x = 0 := congrArg rank u
  rw [Leans, none]
  cases sign <;> exact le_rfl

theorem congr (same : Same x y) (leans : Leans sign x) : Leans sign y := by
  rcases same with rfl | ⟨-, zero⟩
  · exact leans
  · exact of_isZero sign zero

/-- What holds on the upper side for opposite operands holds on the lower side. -/
theorem add (left : Leans sign x) (right : Leans sign y) : Leans sign (x + y) := by
  have ahead {x y : Float32} (left : Leans .positive x) (right : Leans .positive y) :
      Leans .positive (x + y) := by
    rw [leans_positive_iff] at left right ⊢
    rcases left with none | natural
    · exact .inl (isNaN_add_left none)
    · refine (Binary32.le_add (numbers_of_le natural).2 right).imp_right ?_
      exact Binary32.le_trans natural
  cases sign with
  | positive => exact ahead left right
  | negative =>
    have opposite : Leans .positive (-x + -y) :=
      ahead (leans_neg_iff.mpr left) (leans_neg_iff.mpr right)
    exact leans_neg_iff.mp (opposite.congr (same_neg_add x y))

/-- A natural factor leaves the side. -/
theorem mul {factor : Float32} (natural : 0 ≤ factor) (leans : Leans sign x) :
    Leans sign (factor * x) := by
  have ahead {x : Float32} (leans : Leans .positive x) : Leans .positive (factor * x) := by
    rw [leans_positive_iff] at leans ⊢
    rcases leans with none | above
    · exact .inl (isNaN_mul_right none)
    · exact mul_natural natural above
  cases sign with
  | positive => exact ahead leans
  | negative =>
    have opposite : Leans .positive (factor * -x) := ahead (leans_neg_iff.mpr leans)
    rw [Binary32.mul_neg] at opposite
    exact leans_neg_iff.mp opposite

/-- Cutting off on both sides leaves the side. -/
theorem cutOff {limit : Float32} (natural : 0 ≤ limit) (leans : Leans sign x) :
    Leans sign (cutOff (-limit) limit x) := by
  have ahead {x : Float32} (leans : Leans .positive x) :
      Leans .positive (Binary32.cutOff (-limit) limit x) := by
    rw [leans_positive_iff] at leans
    rcases leans with none | above
    · rw [cutOff_of_isNaN none, leans_positive_iff]
      exact .inl none
    · rw [Binary32.cutOff, if_neg (not_lt_neg above natural)]
      split
      next => exact leans_positive_iff.mpr (.inr natural)
      next => exact leans_positive_iff.mpr (.inr above)
  cases sign with
  | positive => exact ahead leans
  | negative =>
    have opposite := ahead (leans_neg_iff.mpr leans)
    rw [cutOff_neg natural] at opposite
    exact leans_neg_iff.mp opposite

/-- The integer part of a number is on its side, and that of what is not a number is zero. -/
theorem toWord (leans : Leans sign x) : 0 ≤ sign.apply (Binary32.toWord x) := by
  cases sign with
  | positive =>
    rcases leans_positive_iff.mp leans with none | natural
    · exact (toWord_of_isNaN none).ge
    · exact toWord_natural natural
  | negative =>
    have opposite : Leans .positive (-x) := leans_neg_iff.mpr leans
    apply neg_nonneg.mpr
    rcases leans_positive_iff.mp opposite with none | natural
    · exact (toWord_of_isNaN ((isNaN_neg x).symm.trans none)).le
    · have word := toWord_neg_nonpos natural
      rwa [Binary32.neg_neg] at word

end Leans

/-! ### Words -/

/-- Opposite numbers have opposite words, if there is room for both. -/
theorem toWord_neg_of_small {x : Float32} (finite : x.isFinite = true)
    (small : |value x| < 2 ^ 31) : toWord (-x) = -toWord x := by
  obtain ⟨low, high⟩ := abs_lt.mp small
  rcases le_total 0 (value x) with natural | below
  · exact toWord_neg finite natural high
  · have finite' : (-x).isFinite = true := (isFinite_neg x).trans finite
    have opposite := toWord_neg finite' (by rw [value_neg]; linarith) (by rw [value_neg]; linarith)
    rw [Binary32.neg_neg] at opposite
    omega

/-- The word of a bounded number is bounded. -/
theorem abs_toWord_le {x : Float32} (finite : x.isFinite = true) {limit : Int}
    (bounded : |value x| ≤ limit) (room : limit < 2 ^ 31) : |toWord x| ≤ limit := by
  have room' : (limit : ℚ) < 2 ^ 31 := by exact_mod_cast room
  have word {y : Float32} (finite : y.isFinite = true) (natural : 0 ≤ value y)
      (most : value y ≤ limit) : 0 ≤ toWord y ∧ toWord y ≤ limit := by
    rw [toWord_eq_floor finite natural (most.trans_lt room')]
    have cut : (⌊value y⌋ : ℚ) ≤ limit := (Int.floor_le _).trans most
    exact ⟨Int.floor_nonneg.mpr natural, by exact_mod_cast cut⟩
  obtain ⟨low, high⟩ := abs_le.mp bounded
  rw [abs_le]
  rcases le_total 0 (value x) with natural | below
  · obtain ⟨least, most⟩ := word finite natural high
    omega
  · obtain ⟨least, most⟩ := word ((isFinite_neg x).trans finite) (by rw [value_neg]; linarith)
      (by rw [value_neg]; linarith)
    rw [toWord_neg_of_small finite (bounded.trans_lt room')] at least most
    omega

/-- A number between finite bounds is finite. -/
theorem isFinite_of_within {limit x : Float32} (finite : limit.isFinite = true)
    (number : x.isNaN = false) (within : Within limit x) : x.isFinite = true := by
  have bound := isNaN_of_isFinite finite
  obtain ⟨low, high⟩ := within.resolve_left (Bool.eq_false_iff.mp number)
  rw [le_iff_place ((isNaN_neg limit).trans bound) number, place_neg] at low
  rw [le_iff_place number bound] at high
  have inside := abs_lt.mp ((canonical_unpack finite).abs_rank_lt (stored_unpack bound))
  rcases finite_or_infinity number with done | ⟨sign, u⟩
  · exact done
  · have top : place x = sign.apply (255 * 2 ^ 23) := congrArg rank u
    have edge : place limit = rank (unpack limit) := rfl
    rw [top] at low high
    cases sign <;> simp only [Sign.apply] at low high <;> omega

end Mecanum.Binary32
