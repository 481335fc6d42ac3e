import Mecanum.Proofs.Binary32.Closest

/-!
# The estimate of a square root

The place of a magnitude is its bit pattern, and halving the pattern halves the place. So the
estimate grows with the number (`rootEstimate_le`). Of a normal number it is the mean of two numbers
whose product is that number, without an odd last digit: the power of two whose square is nearest
to it, up to a factor of two, and the quotient (`value_rootEstimate`). The square of a mean is above
the product (`excess`), here by up to an eighth of it (`shortened_add_excess_le`).
-/
namespace Mecanum.Binary32

open Float.Model (Format UnpackedFloat)
open Float.Model.UnpackedFloat

/-! ### Places and bit patterns -/

/-- In the word of a positive number the exponent stands above the mantissa. -/
theorem toNat_packComponents (exponent : BitVec 8) (mantissa : BitVec 23) :
    (packComponents .binary32 .positive exponent mantissa).toNat =
      exponent.toNat * 2 ^ 23 + mantissa.toNat := by
  have sign : (0#1 ++ exponent).toNat = exponent.toNat := by
    rw [BitVec.toNat_append]
    simp
  rw [packComponents, Sign.toBitVec, BitVec.toNat_append, sign,
    ← Nat.shiftLeft_add_eq_or_of_lt mantissa.isLt, Nat.shiftLeft_eq]

/-- The bit pattern of what is not negative is its place. -/
theorem toNat_pack {u : UnpackedFloat} (stored : Stored u) (signed : sign? u = some .positive) :
    ((UnpackedFloat.pack .binary32 u).toNat : Int) = rank u := by
  cases stored with
  | infinity sign =>
    cases signed
    rfl
  | zero sign =>
    cases signed
    rfl
  | @finite sign mantissa exponent positive standard most =>
    cases signed
    have bias : (Format.exponentBias .binary32 : Int) = 127 := rfl
    have least := standard.least
    have small := standard.small
    have log : mantissa.log2 < 24 := (Nat.log2_lt positive.ne').mpr small
    unfold UnpackedFloat.pack
    dsimp only
    obtain ⟨biased, shown⟩ : ∃ biased : Nat, exponent + 150 = biased :=
      ⟨(exponent + 150).toNat, by omega⟩
    have pattern : (exponent + (Format.exponentBias .binary32 : Int) + (23 : Nat)).toNat =
        biased := by
      omega
    rw [pattern, if_neg (by omega : ¬2 ^ 8 ≤ biased + 1)]
    split
    next normal =>
      have normal : mantissa.log2 + 1 = 24 := normal
      have large : 2 ^ 23 ≤ mantissa := (Nat.le_log2 positive.ne').mp (by omega)
      rw [toNat_packComponents, BitVec.toNat_ofNat, BitVec.toNat_ofNat]
      simp only [rank, Sign.apply]
      omega
    next subnormal =>
      have subnormal : mantissa.log2 + 1 ≠ 24 := subnormal
      have short : mantissa < 2 ^ 23 := (Nat.log2_lt positive.ne').mp (by omega)
      have last := standard.full.resolve_left (by omega)
      rw [toNat_packComponents, BitVec.toNat_ofNat, BitVec.toNat_ofNat]
      simp only [rank, Sign.apply]
      omega

theorem Magnitude.isNaN {x : Float32} (magnitude : Magnitude x) : x.isNaN = false := by
  show (unpack x).isNaN = false
  cases u : unpack x with
  | notANumber =>
    rw [Magnitude, u] at magnitude
    cases magnitude
  | _ => rfl

theorem toNat_toBits {x : Float32} (magnitude : Magnitude x) :
    (x.toBits.toNat : Int) = place x := by
  have bits : x.toBits.toNat = (UnpackedFloat.pack .binary32 (unpack x)).toNat := by
    conv_lhs => rw [← pack_unpack x]
    rfl
  rw [bits, place]
  exact toNat_pack (stored_unpack magnitude.isNaN) magnitude

/-- Every place up to that of infinity is taken. -/
theorem exists_place {n : Nat} (within : n ≤ 255 * 2 ^ 23) :
    ∃ x, Magnitude x ∧ place x = n := by
  have stored : ∃ u, Stored u ∧ sign? u = some .positive ∧ unpack (pack u) = u ∧ rank u = n := by
    rcases Nat.lt_or_eq_of_le within with finite | rfl
    · rcases Nat.eq_zero_or_pos n with rfl | some
      · exact ⟨.zero .positive, .zero _, rfl, rfl, rfl⟩
      · rcases Nat.lt_or_ge n (2 ^ 23) with short | large
        · have standard : Standard n (-149) := ⟨by omega, by decide, .inr rfl⟩
          refine ⟨.finite .positive n (-149) some, .finite _ _ standard (by decide), rfl,
            standard.unpack_pack (by decide), ?_⟩
          simp [rank, Sign.apply]
        · have standard : Standard (2 ^ 23 + n % 2 ^ 23) ((n / 2 ^ 23 : Nat) - 150) :=
            ⟨by omega, by omega, .inl (by omega)⟩
          refine ⟨.finite .positive _ _ (by omega), .finite _ _ standard (by omega), rfl,
            standard.unpack_pack (by omega), ?_⟩
          simp only [rank, Sign.apply]
          omega
    · exact ⟨.infinity .positive, .infinity _, rfl, rfl, rfl⟩
  obtain ⟨u, -, signed, behind, ranked⟩ := stored
  refine ⟨pack u, ?_, ?_⟩
  · rw [Magnitude, behind, signed]
  · rw [place, behind, ranked]

/-! ### The estimate -/

theorem toNat_toBits_le {x : Float32} (magnitude : Magnitude x) :
    x.toBits.toNat ≤ 255 * 2 ^ 23 := by
  have bits := toNat_toBits magnitude
  have bounds := abs_le.mp (stored_unpack magnitude.isNaN).abs_rank_le
  unfold place at bits
  omega

theorem Magnitude.natural {x : Float32} (magnitude : Magnitude x) : 0 ≤ x := by
  have bits := toNat_toBits magnitude
  rw [le_iff_place rfl magnitude.isNaN, ← bits]
  exact Int.natCast_nonneg _

/-- A magnitude is not negative, if it is a number. -/
theorem abs_natural (x : Float32) : x.abs.isNaN = true ∨ 0 ≤ x.abs := by
  cases number : x.isNaN with
  | false => exact .inr (Magnitude.abs number).natural
  | true =>
    have magnitude : x.abs = pack (unpack x).abs := rfl
    rw [magnitude, unpack_of_isNaN number]
    exact .inl rfl

/-- The estimate halves the place. -/
theorem place_rootEstimate {x : Float32} (magnitude : Magnitude x) :
    Magnitude (rootEstimate x) ∧ place (rootEstimate x) = (place x + 127 * 2 ^ 23) / 2 := by
  have bits := toNat_toBits magnitude
  have most := toNat_toBits_le magnitude
  have halved : ((x.toBits + 0x3f800000) >>> 1).toNat = (x.toBits.toNat + 127 * 2 ^ 23) / 2 := by
    have one : (0x3f800000 : UInt32).toNat = 127 * 2 ^ 23 := rfl
    rw [UInt32.toNat_shiftRight, UInt32.toNat_add, one, Nat.mod_eq_of_lt (by omega)]
    exact Nat.shiftRight_eq_div_pow _ _
  obtain ⟨root, positive, placed⟩ := exists_place (n := (x.toBits.toNat + 127 * 2 ^ 23) / 2)
    (by omega)
  have same : rootEstimate x = root := by
    have pattern := toNat_toBits positive
    have equal : (x.toBits + 0x3f800000) >>> 1 = root.toBits := by
      apply UInt32.toNat_inj.mp
      omega
    rw [rootEstimate, if_pos magnitude.natural, equal, Float32.ofBits_toBits]
  rw [same]
  exact ⟨positive, by omega⟩

theorem rootEstimate_le {x y : Float32} (left : Magnitude x) (right : Magnitude y)
    (order : x ≤ y) : rootEstimate x ≤ rootEstimate y := by
  obtain ⟨first, placed⟩ := place_rootEstimate left
  obtain ⟨second, placed'⟩ := place_rootEstimate right
  rw [le_iff_place left.isNaN right.isNaN] at order
  rw [le_iff_place first.isNaN second.isNaN]
  omega

/-- Of a number that is not negative the estimate is not negative. -/
theorem rootEstimate_natural {x : Float32} (natural : 0 ≤ x) : 0 ≤ rootEstimate x := by
  rcases magnitude_or_neg_zero natural with magnitude | rfl
  · exact (place_rootEstimate magnitude).1.natural
  · decide +kernel

/-- No estimate is above 2 to the 65th. -/
theorem rootEstimate_le_top {x : Float32} (natural : 0 ≤ x) :
    rootEstimate x ≤ 36893488147419103232 := by
  rcases magnitude_or_neg_zero natural with magnitude | rfl
  · obtain ⟨root, placed⟩ := place_rootEstimate magnitude
    have most := (abs_le.mp (stored_unpack magnitude.isNaN).abs_rank_le).2
    have top : place 36893488147419103232 = 192 * 2 ^ 23 := by decide +kernel
    rw [le_iff_place root.isNaN (by decide +kernel), placed, top]
    unfold place
    omega
  · decide +kernel

/-- The addition of the estimate stays within a word. -/
theorem toNat_toBits_add_lt {x : Float32} (natural : 0 ≤ x) :
    x.toBits.toNat + (0x3f800000 : UInt32).toNat < 2 ^ 32 := by
  have one : (0x3f800000 : UInt32).toNat = 127 * 2 ^ 23 := rfl
  rcases magnitude_or_neg_zero natural with magnitude | rfl
  · have most := toNat_toBits_le magnitude
    omega
  · decide +kernel

/-! ### The mean -/

/-- The power of two whose square is nearest to a number, up to a factor of two. -/
def anchor (exact : ℚ) : ℚ := 2 ^ ((Int.log 2 exact + 1) / 2)

/-- A number cut off behind its first 23 binary digits. -/
def shortened (exact : ℚ) : ℚ :=
  ⌊exact / 2 ^ (Int.log 2 exact - 22)⌋ * 2 ^ (Int.log 2 exact - 22)

section Scaled

variable {mantissa : Nat} {exponent : Int} (large : 2 ^ 23 ≤ mantissa) (small : mantissa < 2 ^ 24)

include large small

theorem log_scaled : Int.log 2 (mantissa * 2 ^ exponent : ℚ) = exponent + 23 := by
  have power : (0 : ℚ) < 2 ^ exponent := by positivity
  have least : (2 ^ 23 : ℚ) ≤ mantissa := by exact_mod_cast large
  have most : (mantissa : ℚ) < 2 ^ 24 := by exact_mod_cast small
  have some : (0 : ℚ) < mantissa * 2 ^ exponent := mul_pos (by linarith) power
  apply le_antisymm
  · rw [← Int.lt_add_one_iff, ← Int.lt_zpow_iff_log_lt (by decide) some, add_assoc,
      zpow_add₀ (by norm_num), mul_comm]
    push_cast
    gcongr
    exact_mod_cast small
  · rw [← Int.zpow_le_iff_le_log (by decide) some, zpow_add₀ (by norm_num), mul_comm]
    push_cast
    gcongr
    exact_mod_cast large

/-- Shortening drops the last bit of the mantissa. -/
theorem shortened_scaled : shortened (mantissa * 2 ^ exponent) =
    (mantissa / 2 : Nat) * 2 ^ (exponent + 1) := by
  have power : (2 : ℚ) ^ exponent ≠ 0 := by positivity
  have halved : (mantissa * 2 ^ exponent / 2 ^ (exponent + 1) : ℚ) = mantissa / 2 := by
    rw [zpow_add_one₀ two_ne_zero]
    field_simp
  have floored : ⌊(mantissa / 2 : ℚ)⌋ = (mantissa / 2 : Nat) :=
    Rat.floor_natCast_div_natCast mantissa 2
  rw [shortened, log_scaled large small, show exponent + 23 - 22 = exponent + 1 by ring, halved,
    floored, Int.cast_natCast]

end Scaled

/-- A magnitude in the place of a finite number has its value. -/
theorem value_of_place {x : Float32} (magnitude : Magnitude x) {mantissa : Nat} {exponent : Int}
    (positive : 0 < mantissa) (standard : Standard mantissa exponent) (most : exponent ≤ 104)
    (placed : place x = (exponent + 149) * 2 ^ 23 + mantissa) :
    x.isFinite = true ∧ value x = mantissa * 2 ^ exponent := by
  have behind : unpack (pack (.finite .positive mantissa exponent positive)) =
      .finite .positive mantissa exponent positive := standard.unpack_pack most
  have signed : Magnitude (pack (.finite .positive mantissa exponent positive)) := by
    rw [Magnitude, behind]
    rfl
  have same : x = pack (.finite .positive mantissa exponent positive) := by
    have bits := toNat_toBits magnitude
    have pattern := toNat_toBits signed
    rw [place, behind] at pattern
    have equal : x.toBits = (pack (.finite .positive mantissa exponent positive)).toBits := by
      apply UInt32.toNat_inj.mp
      rw [placed] at bits
      exact_mod_cast bits.trans pattern.symm
    rw [← Float32.ofBits_toBits x, equal, Float32.ofBits_toBits]
  have unpacked : unpack x = .finite .positive mantissa exponent positive := by rw [same, behind]
  refine ⟨congrArg UnpackedFloat.isFinite unpacked, ?_⟩
  rw [value, unpacked]
  rfl

theorem mean_scaled (quotient bits : Nat) (last : Int) :
    ((2 ^ (last + bits + 1) + quotient * 2 ^ (last + last + bits + 2) / 2 ^ (last + bits + 1)) / 2
      : ℚ) = (quotient + 2 ^ bits : Nat) * 2 ^ last := by
  have power : (2 : ℚ) ^ last ≠ 0 := by positivity
  simp only [zpow_add₀ (two_ne_zero : (2 : ℚ) ≠ 0), zpow_natCast, zpow_one]
  push_cast
  field_simp
  ring

/-- The estimate is the mean of two numbers whose product is the shortened number. -/
theorem value_rootEstimate {x : Float32} (finite : x.isFinite = true)
    (normal : 2 ^ (-126 : Int) ≤ value x) : (rootEstimate x).isFinite = true ∧
      value (rootEstimate x) =
        (anchor (value x) + shortened (value x) / anchor (value x)) / 2 := by
  obtain ⟨mantissa, exponent, positive, u, large, standard, most⟩ := unpack_of_normal finite normal
  have small := standard.small
  have least := standard.least
  have magnitude : Magnitude x := by
    rw [Magnitude, u]
    rfl
  have exact : value x = mantissa * 2 ^ exponent := by
    rw [value, u]
    rfl
  have placed : place x = (exponent + 149) * 2 ^ 23 + mantissa := by
    rw [place, u]
    rfl
  obtain ⟨root, halved⟩ := place_rootEstimate magnitude
  rw [exact, shortened_scaled large small, anchor, log_scaled large small]
  -- An odd exponent leaves half a unit of its own to the mantissa.
  obtain ⟨bits, last, parity, first, second⟩ : ∃ (bits : Nat) (last : Int),
      (bits = 22 ∨ bits = 23) ∧ (exponent + 23 + 1) / 2 = last + bits + 1 ∧
        exponent + 1 = last + last + bits + 2 := by
    rcases Int.even_or_odd' (exponent + 23) with ⟨half, even | odd⟩
    · exact ⟨22, half - 23, .inl rfl, by omega, by omega⟩
    · exact ⟨23, half - 23, .inr rfl, by omega, by omega⟩
  have standard : Standard (mantissa / 2 + 2 ^ bits) last := by
    rcases parity with rfl | rfl <;> exact ⟨by omega, by omega, .inl (by omega)⟩
  have rooted : place (rootEstimate x) =
      (last + 149) * 2 ^ 23 + (mantissa / 2 + 2 ^ bits : Nat) := by
    rcases parity with rfl | rfl <;> omega
  obtain ⟨finite, value⟩ := value_of_place root (by positivity) standard (by omega) rooted
  refine ⟨finite, ?_⟩
  rw [value, first, second, mean_scaled]

/-! ### The square of the mean -/

theorem anchor_pos (exact : ℚ) : 0 < anchor exact := zpow_pos two_pos _

/-- By how much the square of the mean is above the product. -/
def excess (exact : ℚ) : ℚ :=
  (anchor exact ^ 2 - shortened exact) ^ 2 / (4 * anchor exact ^ 2)

theorem sq_mean_eq (exact : ℚ) : ((anchor exact + shortened exact / anchor exact) / 2) ^ 2 =
    shortened exact + excess exact := by
  have power := (anchor_pos exact).ne'
  rw [excess]
  field_simp
  ring

section Square

variable {exact : ℚ} (positive : 0 < exact)

include positive

/-- The shortened number lies within a factor of two of the square of the power of two. -/
theorem shortened_bounds : anchor exact ^ 2 ≤ 2 * shortened exact ∧
    shortened exact ≤ 2 * anchor exact ^ 2 ∧ shortened exact ≤ exact := by
  have low := Int.zpow_log_le_self (b := 2) (by decide) positive
  have high := Int.lt_zpow_succ_log_self (b := 2) (by decide) exact
  push_cast at low high
  generalize log : Int.log 2 exact = bits at low high
  have unit : (0 : ℚ) < 2 ^ (bits - 22) := by positivity
  have most : shortened exact ≤ exact := by
    rw [shortened, log]
    exact (le_div_iff₀ unit).mp (Int.floor_le _)
  have least : 2 ^ bits ≤ shortened exact := by
    have whole : (2 : ℚ) ^ bits = (2 ^ 22 : Int) * 2 ^ (bits - 22) := by
      rw [zpow_sub₀ two_ne_zero]
      norm_num
      field_simp
    rw [shortened, log, whole]
    gcongr
    rw [Int.le_floor, le_div_iff₀ unit, ← whole]
    exact low
  have squared : anchor exact ^ 2 = 2 ^ ((bits + 1) / 2 * 2) := by
    rw [anchor, log, zpow_mul]
    rfl
  have half : (2 : ℚ) ^ ((bits + 1) / 2 * 2) ≤ 2 ^ (bits + 1) :=
    zpow_le_zpow_right₀ one_le_two (by omega)
  have whole : (2 : ℚ) ^ bits ≤ 2 ^ ((bits + 1) / 2 * 2) :=
    zpow_le_zpow_right₀ one_le_two (by omega)
  rw [zpow_add_one₀ two_ne_zero] at high half
  rw [squared]
  refine ⟨?_, ?_, most⟩
  · linarith
  · linarith

/-- The shortened value with its excess is at most nine eighths of the exact one. -/
theorem shortened_add_excess_le : shortened exact + excess exact ≤ 9 / 8 * exact := by
  obtain ⟨near, far, most⟩ := shortened_bounds positive
  have square : 0 < anchor exact ^ 2 := pow_pos (anchor_pos exact) 2
  -- The deviation is largest at the two ends of the factor of two.
  have ends : (anchor exact ^ 2 - shortened exact) ^ 2 ≤
      shortened exact / 8 * (4 * anchor exact ^ 2) := by
    have product := mul_nonneg (sub_nonneg.mpr near) (sub_nonneg.mpr far)
    linarith
  have deviation := (div_le_iff₀ (by linarith)).mpr ends
  rw [excess]
  linarith

end Square

end Mecanum.Binary32
