import Mecanum.Hardware.Timer

/-!
# The rate of the tick timer

The prescaler and the reload value of the timer count from zero and have 16 bits each, so a register
keeps the low half of the word that is written to it. The prescaler brings the clock down to a
megahertz and fits for any clock. The reload value counts microseconds, and those of a rate below 16
are too many for its register: there the timer runs faster than it reports.
-/
namespace Mecanum.Hardware

/-- What a register of 16 bits keeps of a word. -/
def kept (word : UInt32) : Nat := word.toNat % 65536

theorem kept_of_fits {word : UInt32} (fits : word.toNat < 65536) : kept word = word.toNat :=
  Nat.mod_eq_of_lt fits

theorem kept_lt {word : UInt32} (wide : 65536 ≤ word.toNat) : kept word < word.toNat :=
  Nat.lt_of_lt_of_le (Nat.mod_lt _ (by decide)) wide

namespace TimerRegisters

/-- The clocks between two interrupts, as the dividers were written. -/
def period (registers : TimerRegisters) : Nat :=
  (registers.prescaler.toNat + 1) * (registers.reload.toNat + 1)

/-- The clocks between two interrupts, as the registers keep the dividers. -/
def keptPeriod (registers : TimerRegisters) : Nat :=
  (kept registers.prescaler + 1) * (kept registers.reload + 1)

/-- The dividers fit their registers, and an interrupt comes once in the whole microseconds of a
rate that the counter can have. -/
structure RunsAt (registers : TimerRegisters) (clockHz rateHz : UInt32) : Prop where
  prescaler : registers.prescaler.toNat < 65536
  reload : registers.reload.toNat < 65536
  period : registers.period = clockHz.toNat / 1000000 * (1000000 / rateHz.toNat)
  least : 1 ≤ rateHz.toNat
  greatest : rateHz.toNat ≤ 1000000

theorem keptPeriod_of_fits {registers : TimerRegisters}
    (prescaler : registers.prescaler.toNat < 65536) (reload : registers.reload.toNat < 65536) :
    registers.keptPeriod = registers.period := by
  rw [keptPeriod, period, kept_of_fits prescaler, kept_of_fits reload]

/-- A reload value that is cut off makes the interrupts come sooner. -/
theorem keptPeriod_lt {registers : TimerRegisters}
    (prescaler : registers.prescaler.toNat < 65536) (wide : 65536 ≤ registers.reload.toNat) :
    registers.keptPeriod < registers.period := by
  rw [keptPeriod, period, kept_of_fits prescaler]
  exact Nat.mul_lt_mul_of_pos_left (Nat.succ_lt_succ (kept_lt wide)) (Nat.succ_pos _)

end TimerRegisters

namespace Timer

/-! ### The two dividers -/

theorem toNat_counterHz : counterHz.toNat = 1000000 := rfl

theorem toNat_dividerValue {divider : UInt32} (some : 0 < divider.toNat) :
    (dividerValue divider).toNat + 1 = divider.toNat := by
  have nonzero : divider ≠ 0 := fun zero => by
    rw [zero] at some
    exact absurd some (by decide)
  have least : (1 : UInt32) ≤ divider := UInt32.le_iff_toNat_le.mpr some
  rw [dividerValue, if_neg nonzero, UInt32.toNat_sub_of_le _ _ least]
  exact Nat.sub_add_cancel some

theorem toNat_max (x y : UInt32) : (max x y).toNat = max x.toNat y.toNat := by
  have larger : max x y = if x ≤ y then y else x := rfl
  simp only [larger, Nat.max_def, apply_ite UInt32.toNat, UInt32.le_iff_toNat_le]

theorem toNat_min (x y : UInt32) : (min x y).toNat = min x.toNat y.toNat := by
  have smaller : min x y = if x ≤ y then x else y := rfl
  simp only [smaller, Nat.min_def, apply_ite UInt32.toNat, UInt32.le_iff_toNat_le]

/-- The rate reported is the one asked for, brought between one and the rate of the counter. -/
theorem toNat_rateFor (rateHz : UInt32) :
    (rateFor rateHz).toNat = max 1 (min rateHz.toNat 1000000) := by
  have one : (1 : UInt32).toNat = 1 := rfl
  rw [rateFor, toNat_max, toNat_min, one, toNat_counterHz]

theorem rateFor_bounds (rateHz : UInt32) :
    1 ≤ (rateFor rateHz).toNat ∧ (rateFor rateHz).toNat ≤ 1000000 := by
  rw [toNat_rateFor]
  omega

theorem toNat_prescalerFor {clockHz : UInt32} (fed : 1000000 ≤ clockHz.toNat) :
    (prescalerFor clockHz).toNat + 1 = clockHz.toNat / 1000000 := by
  have quotient : (clockHz / counterHz).toNat = clockHz.toNat / 1000000 := UInt32.toNat_div ..
  rw [prescalerFor, toNat_dividerValue, quotient]
  rw [quotient]
  exact Nat.div_pos fed (by decide)

theorem toNat_reloadFor (rateHz : UInt32) :
    (reloadFor rateHz).toNat + 1 = 1000000 / (rateFor rateHz).toNat := by
  obtain ⟨least, greatest⟩ := rateFor_bounds rateHz
  have quotient : (counterHz / rateFor rateHz).toNat = 1000000 / (rateFor rateHz).toNat :=
    UInt32.toNat_div ..
  rw [reloadFor, toNat_dividerValue, quotient]
  rw [quotient]
  exact Nat.div_pos greatest least

/-! ### What fits -/

/-- A clock of 32 bits has less than 4295 megahertz. -/
theorem prescalerFor_fits {clockHz : UInt32} (fed : 1000000 ≤ clockHz.toNat) :
    (prescalerFor clockHz).toNat < 65536 := by
  have exact := toNat_prescalerFor fed
  have bound := clockHz.toNat_lt
  omega

/-- The reload value fits the register from rate 16 on. -/
theorem reloadFor_fits_iff (rateHz : UInt32) :
    (reloadFor rateHz).toNat < 65536 ↔ 16 ≤ rateHz.toNat := by
  have exact := toNat_reloadFor rateHz
  have positive := (rateFor_bounds rateHz).1
  have fits : (reloadFor rateHz).toNat < 65536 ↔
      1000000 / (rateFor rateHz).toNat < 65536 + 1 := by omega
  rw [fits, Nat.div_lt_iff_lt_mul positive, toNat_rateFor]
  omega

/-! ### The rate -/

/-- Fed with whole megahertz, the timer runs at the rate that it reports exactly if a rate of at
least 16 was asked for. Only the reload value stands against lower rates: as written, the dividers
are right for all of them, but the register cuts the reload value off. -/
theorem runs_at_rate_iff {clockHz : UInt32} (fed : 0 < clockHz.toNat)
    (whole : 1000000 ∣ clockHz.toNat) (timer : Timer) (rateHz : UInt32) :
    ∃ reported, (timer.start clockHz rateHz).rateHz = some reported ∧
      reported.toNat = max 1 (min rateHz.toNat 1000000) ∧
      ((timer.start clockHz rateHz).registers.RunsAt clockHz reported ↔ 16 ≤ rateHz.toNat) ∧
      ((timer.start clockHz rateHz).registers.keptPeriod =
        clockHz.toNat / 1000000 * (1000000 / reported.toNat) ↔ 16 ≤ rateHz.toNat) ∧
      (timer.start clockHz rateHz).registers.prescaler.toNat < 65536 ∧
      (timer.start clockHz rateHz).registers.period =
        clockHz.toNat / 1000000 * (1000000 / reported.toNat) := by
  have megahertz : 1000000 ≤ clockHz.toNat := Nat.le_of_dvd fed whole
  have fits : (timer.start clockHz rateHz).registers.prescaler.toNat < 65536 :=
    prescalerFor_fits megahertz
  have room := reloadFor_fits_iff rateHz
  have written : (timer.start clockHz rateHz).registers.period =
      clockHz.toNat / 1000000 * (1000000 / (rateFor rateHz).toNat) := by
    rw [← toNat_prescalerFor megahertz, ← toNat_reloadFor rateHz]
    rfl
  refine ⟨rateFor rateHz, rfl, toNat_rateFor rateHz, ?_, ?_, fits, written⟩
  · constructor
    · exact fun runs => room.mp runs.reload
    · intro enough
      obtain ⟨least, greatest⟩ := rateFor_bounds rateHz
      exact ⟨fits, room.mpr enough, written, least, greatest⟩
  · rw [← written]
    constructor
    · intro same
      refine room.mp (Nat.lt_of_not_le fun wide => ?_)
      exact Nat.ne_of_lt (TimerRegisters.keptPeriod_lt fits wide) same
    · intro enough
      exact TimerRegisters.keptPeriod_of_fits fits (room.mpr enough)

/-- A clock of 108 MHz and 50000 interrupts a second. -/
theorem runs_at_rate_iff_board :
    (0 < (108000000 : UInt32).toNat ∧ 1000000 ∣ (108000000 : UInt32).toNat) ∧
      (idle.start 108000000 50000).registers.RunsAt 108000000 50000 := by
  have fed : 0 < (108000000 : UInt32).toNat := by decide
  have whole : 1000000 ∣ (108000000 : UInt32).toNat := by decide
  obtain ⟨reported, same, _, runs, _⟩ := runs_at_rate_iff fed whole idle 50000
  cases same
  exact ⟨⟨fed, whole⟩, runs.mpr (by decide)⟩

/-- Ten interrupts a second are reported, but the register keeps 34464 microseconds of 100000. -/
theorem not_runs_at_ten :
    (idle.start 108000000 10).rateHz = some 10 ∧
      (idle.start 108000000 10).registers.reload.toNat = 99999 ∧
      (idle.start 108000000 10).registers.keptPeriod = 108 * 34464 ∧
      ¬(idle.start 108000000 10).registers.RunsAt 108000000 10 :=
  ⟨by decide, by decide, by decide, fun runs => absurd runs.reload (by decide)⟩

end Timer

end Mecanum.Hardware
