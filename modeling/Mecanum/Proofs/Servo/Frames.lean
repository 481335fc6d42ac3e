import Mathlib.Algebra.Order.Floor.Div
import Mecanum.Servo

/-!
# One pulse to a frame

A frame has as many ticks as it takes to fill it, whether or not the period divides its length. Its
first tick raises the pin, and the pulse goes on while every tick so far has ended before the width
commanded at that tick. As no width is longer than a frame, the pin is low again when the next frame
begins, so the frames of a generator are all alike (`ready_frame`).
-/
namespace Mecanum.Servo.Generator

open Hardware (Output)

/-- The generator behind the first ticks, at a width of its own each. -/
def after (generator : Generator) (widths : Nat → UInt16) : Nat → Generator
  | 0 => generator
  | count + 1 => (generator.after widths count).tick (widths count)

def frameTicks (generator : Generator) : Nat := frameUs ⌈/⌉ generator.tickUs

/-! ### One tick -/

section Tick

variable (generator : Generator) (width : UInt16)

/-- The pin is high from the start of a frame, as long as each tick finds the width not yet passed.
-/
theorem high_tick :
    (generator.tick width).pin.high = true ↔
      (generator.elapsed = 0 ∨ generator.pin.high = true) ∧
        generator.elapsed + generator.tickUs < width.toNat := by
  by_cases ended : width.toNat ≤ generator.elapsed + generator.tickUs
  · simp [tick, ended]
  · have lasts := Nat.not_le.mp ended
    simp only [tick, if_neg ended, lasts, and_true]
    by_cases begins : generator.elapsed = 0 <;> simp [begins]

/-- From a low pin, the first tick of a frame is the one that raises it. -/
theorem rises_tick (low : generator.elapsed = 0 → generator.pin.high = false) :
    (generator.tick width).pin.rises =
      generator.pin.rises + if generator.elapsed = 0 then 1 else 0 := by
  have fall (pin : Output) (ended : Prop) [Decidable ended] :
      (if ended then pin.set false else pin).rises = pin.rises := by
    split <;> simp
  rw [tick, fall]
  by_cases begins : generator.elapsed = 0
  · simp [begins, Output.rises_set_true (low begins)]
  · simp [begins]

end Tick

theorem tickUs_after (generator : Generator) (widths : Nat → UInt16) (count : Nat) :
    (generator.after widths count).tickUs = generator.tickUs := by
  induction count with
  | zero => rfl
  | succ count ih => simpa [after, tick] using ih

theorem frameTicks_after (generator : Generator) (widths : Nat → UInt16) (count : Nat) :
    (generator.after widths count).frameTicks = generator.frameTicks := by
  rw [frameTicks, tickUs_after, frameTicks]

theorem after_add (generator : Generator) (widths : Nat → UInt16) (front back : Nat) :
    generator.after widths (front + back) =
      (generator.after widths front).after (fun count => widths (front + count)) back := by
  induction back with
  | zero => rfl
  | succ back ih => rw [← Nat.add_assoc, after, ih, after]

/-! ### One frame -/

/-- A generator before the first tick of a frame. -/
structure Ready (generator : Generator) : Prop where
  positive : 0 < generator.tickUs
  elapsed : generator.elapsed = 0
  low : generator.pin.high = false

theorem ready_new (pin : Output) (tickUs : Nat) : (new pin tickUs).Ready where
  positive := Nat.le_max_right ..
  elapsed := rfl
  low := rfl

section Frame

variable {generator : Generator} (ready : generator.Ready)

include ready

/-- A tick is inside a frame if the ticks before it have not filled the frame. -/
theorem lt_frameTicks (tick : Nat) :
    tick < generator.frameTicks ↔ tick * generator.tickUs < frameUs := by
  rw [frameTicks, ← not_le, ceilDiv_le_iff_le_mul ready.positive, not_le, Nat.mul_comm]

section Inside

variable (widths : Nat → UInt16)

/-- Inside a frame the time elapsed is that of its ticks. -/
theorem elapsed_inside {tick : Nat} (inside : tick < generator.frameTicks) :
    (generator.after widths tick).elapsed = tick * generator.tickUs := by
  induction tick with
  | zero => simp [after, ready.elapsed]
  | succ tick ih =>
    have before := ih (by omega)
    have room := (lt_frameTicks ready (tick + 1)).mp inside
    rw [Nat.succ_mul] at room ⊢
    rw [after, Generator.tick, before, tickUs_after, if_neg (Nat.not_le.mpr room)]

/-- The pulse lasts as long as every tick has ended before its width. -/
theorem high_inside {tick : Nat} (inside : tick < generator.frameTicks) :
    (generator.after widths (tick + 1)).pin.high = true ↔
      ∀ earlier ≤ tick, (earlier + 1) * generator.tickUs < (widths earlier).toNat := by
  induction tick with
  | zero => simp [after, high_tick, ready.elapsed]
  | succ tick ih =>
    have positive := ready.positive
    have elapsed := elapsed_inside ready widths inside
    have begun : (tick + 1) * generator.tickUs ≠ 0 :=
      Nat.mul_ne_zero (Nat.succ_ne_zero tick) positive.ne'
    rw [after, high_tick, elapsed, tickUs_after, ih (by omega), ← Nat.succ_mul]
    constructor
    · rintro ⟨begins | lasted, lasts⟩ earlier upTo
      · exact absurd begins begun
      · rcases Nat.le_succ_iff.mp upTo with before | rfl
        · exact lasted earlier before
        · exact lasts
    · intro lasted
      exact ⟨.inr fun earlier before => lasted earlier (by omega), lasted (tick + 1) le_rfl⟩

end Inside

variable {widths : Nat → UInt16} (fits : ∀ count, (widths count).toNat ≤ frameUs)

include fits

/-- The last tick of a frame fills it, so no width is left. -/
theorem ready_frame : (generator.after widths generator.frameTicks).Ready := by
  have positive := ready.positive
  obtain ⟨last, length⟩ : ∃ last, generator.frameTicks = last + 1 := by
    have some := (lt_frameTicks ready 0).mpr (by simp [frameUs])
    exact ⟨generator.frameTicks - 1, by omega⟩
  have inside : last < generator.frameTicks := by omega
  have filled : frameUs ≤ (last + 1) * generator.tickUs := by
    have outside := (lt_frameTicks ready (last + 1)).not.mp (by omega)
    omega
  have elapsed := elapsed_inside ready widths inside
  rw [length]
  refine ⟨by rwa [tickUs_after], ?_, ?_⟩
  · rw [after, Generator.tick, elapsed, tickUs_after, ← Nat.succ_mul, if_pos filled]
  · rw [← Bool.not_eq_true, high_inside ready widths inside]
    intro lasted
    have short := lasted last le_rfl
    have width := fits last
    omega

/-- Every frame begins like the first. -/
theorem ready_frames (frame : Nat) :
    (generator.after widths (frame * generator.frameTicks)).Ready := by
  induction frame generalizing generator widths with
  | zero => simpa [after] using ready
  | succ frame ih =>
    have next := ih (ready_frame ready fits) fun count => fits (generator.frameTicks + count)
    rwa [frameTicks_after, ← after_add, Nat.add_comm, ← Nat.succ_mul] at next

end Frame

/-! ### Constant widths -/

section Constant

variable {generator : Generator} (ready : generator.Ready) (width : UInt16)

include ready

/-- With a constant width the pin is high for the ticks the width has room for. -/
theorem high_constant {tick : Nat} (inside : tick < generator.frameTicks) :
    (generator.after (fun _ => width) (tick + 1)).pin.high = true ↔
      tick + 1 < width.toNat ⌈/⌉ generator.tickUs := by
  have last : (tick + 1) * generator.tickUs < width.toNat ↔
      tick + 1 < width.toNat ⌈/⌉ generator.tickUs := by
    rw [← not_le, ← not_le, ceilDiv_le_iff_le_mul ready.positive, Nat.mul_comm]
  rw [high_inside ready _ inside, ← last]
  constructor
  · intro lasted
    exact lasted tick le_rfl
  · intro lasts earlier upTo
    refine lt_of_le_of_lt ?_ lasts
    gcongr

/-- The ticks from any tick of a frame on that end with the pin high. -/
theorem run_inside (tick count : Nat) (inside : tick + count ≤ generator.frameTicks) :
    ((generator.after (fun _ => width) tick).run width count).1 =
      min count (width.toNat ⌈/⌉ generator.tickUs - 1 - tick) := by
  induction count generalizing tick with
  | zero => simp [run]
  | succ count ih =>
    have onward : (generator.after (fun _ => width) tick).tick width =
        generator.after (fun _ => width) (tick + 1) := rfl
    have high := high_constant ready width (by omega : tick < generator.frameTicks)
    simp only [run, onward, ih (tick + 1) (by omega), high]
    split <;> omega

end Constant

/-! ### All frames -/

/-- The pulses that a generator makes, one to a frame. -/
structure OnePulse (generator : Generator) (widths : Nat → UInt16) : Prop where
  -- Nothing of a frame is over before each of its first ticks, and at no other moment.
  begins : ∀ count, (generator.after widths count).elapsed = 0 ↔ generator.frameTicks ∣ count
  -- The first tick of a frame raises the pin, and no other tick does.
  rises : ∀ count, (generator.after widths (count + 1)).pin.rises =
    (generator.after widths count).pin.rises + if generator.frameTicks ∣ count then 1 else 0
  -- The pin is high behind a tick while the pulse has lasted through all ticks of its frame so far.
  lasts : ∀ frame tick, tick < generator.frameTicks →
    let start := frame * generator.frameTicks
    (generator.after widths (start + tick + 1)).pin.high = true ↔
      ∀ earlier ≤ tick, (earlier + 1) * generator.tickUs < (widths (start + earlier)).toNat
  -- A pulse that has ended does not begin again.
  ended : ∀ frame tick later, tick ≤ later → later < generator.frameTicks →
    let start := frame * generator.frameTicks
    (generator.after widths (start + tick + 1)).pin.high = false →
      (generator.after widths (start + later + 1)).pin.high = false
  constant : ∀ frame (width : UInt16), 1 ≤ width.toNat → width.toNat ≤ frameUs →
    ((generator.after widths (frame * generator.frameTicks)).run width generator.frameTicks).1 =
      width.toNat ⌈/⌉ generator.tickUs - 1
  -- What a tick makes of the time that is over fits a word of 32 bits.
  word : ∀ count, (generator.after widths count).elapsed + generator.tickUs < 2 ^ 32

section OnePulse

variable {generator : Generator} {widths : Nat → UInt16} (ready : generator.Ready)
  (fits : ∀ count, (widths count).toNat ≤ frameUs)

include ready

theorem frameTicks_pos : 0 < generator.frameTicks :=
  (lt_frameTicks ready 0).mpr (by simp [frameUs])

include fits

theorem elapsed_in_frame (frame : Nat) {tick : Nat} (inside : tick < generator.frameTicks) :
    (generator.after widths (frame * generator.frameTicks + tick)).elapsed =
      tick * generator.tickUs := by
  have next := ready_frames ready fits frame
  rw [← frameTicks_after generator widths (frame * generator.frameTicks)] at inside
  rw [after_add, elapsed_inside next _ inside, tickUs_after]

theorem elapsed_after (count : Nat) :
    (generator.after widths count).elapsed = count % generator.frameTicks * generator.tickUs := by
  have inside := Nat.mod_lt count (frameTicks_pos ready)
  have elapsed := elapsed_in_frame ready fits (count / generator.frameTicks) inside
  rwa [Nat.div_add_mod'] at elapsed

theorem begins_iff (count : Nat) :
    (generator.after widths count).elapsed = 0 ↔ generator.frameTicks ∣ count := by
  rw [elapsed_after ready fits, Nat.mul_eq_zero, or_iff_left ready.positive.ne',
    Nat.dvd_iff_mod_eq_zero]

/-- The pin is low whenever a frame begins. -/
theorem low_of_begins {count : Nat} (begins : (generator.after widths count).elapsed = 0) :
    (generator.after widths count).pin.high = false := by
  obtain ⟨frame, rfl⟩ := (begins_iff ready fits count).mp begins
  rw [Nat.mul_comm]
  exact (ready_frames ready fits frame).low

/-- The pin is high at a tick when every tick of the frame up to it found the width not yet passed.
-/
theorem lasts_iff (frame tick : Nat) (inside : tick < generator.frameTicks) :
    (generator.after widths (frame * generator.frameTicks + tick + 1)).pin.high = true ↔
      ∀ earlier ≤ tick, (earlier + 1) * generator.tickUs <
        (widths (frame * generator.frameTicks + earlier)).toNat := by
  have next := ready_frames ready fits frame
  rw [← frameTicks_after generator widths (frame * generator.frameTicks)] at inside
  have lasts := high_inside next
    (fun count => widths (frame * generator.frameTicks + count)) inside
  rwa [← after_add, tickUs_after, ← Nat.add_assoc] at lasts

/-- A period that does not fill a frame at once is shorter than a frame. -/
theorem elapsed_add_lt (small : generator.tickUs < 2 ^ 32) (count : Nat) :
    (generator.after widths count).elapsed + generator.tickUs < 2 ^ 32 := by
  have inside := (lt_frameTicks ready _).mp (Nat.mod_lt count (frameTicks_pos ready))
  rw [elapsed_after ready fits]
  cases tick : count % generator.frameTicks with
  | zero => simpa using small
  | succ before =>
    rw [tick, Nat.succ_mul, frameUs] at inside
    rw [Nat.succ_mul]
    omega

end OnePulse

/-- Whatever the period and however the widths change, the pulses are one to a frame. -/
theorem one_pulse_per_frame (pin : Output) (tickUs : UInt32) (widths : Nat → UInt16)
    (fits : ∀ count, (widths count).toNat ≤ frameUs) :
    (new pin tickUs.toNat).OnePulse widths := by
  have ready := ready_new pin tickUs.toNat
  have lasts := lasts_iff ready fits
  refine ⟨begins_iff ready fits, ?_, lasts, ?_, ?_, ?_⟩
  · intro count
    rw [after, rises_tick _ _ (low_of_begins ready fits)]
    simp only [begins_iff ready fits]
  · intro frame tick later order inside start low
    rw [← Bool.not_eq_true, lasts frame tick (by omega)] at low
    rw [← Bool.not_eq_true, lasts frame later inside]
    intro lasted
    exact low fun earlier upTo => lasted earlier (upTo.trans order)
  · intro frame width some short
    have next := ready_frames ready fits frame
    have most : width.toNat ⌈/⌉ (new pin tickUs.toNat).tickUs ≤
        (new pin tickUs.toNat).frameTicks := by
      rw [frameTicks, ceilDiv_le_iff_le_mul ready.positive]
      exact short.trans (le_smul_ceilDiv ready.positive)
    have whole := run_inside next width 0 (new pin tickUs.toNat).frameTicks
      (by rw [frameTicks_after]; omega)
    rw [tickUs_after] at whole
    refine whole.trans ?_
    omega
  · apply elapsed_add_lt ready fits
    have word := tickUs.toNat_lt
    simp only [new]
    omega

/-- A width of two ticks, commanded at the third, ends a pulse. The longer width of the fourth tick
does not raise the pin again. -/
theorem one_pulse_per_frame_cutShort :
    let widths : Nat → UInt16 := fun count => if count = 2 then 60 else 1500
    let generator := new (.new true) 30
    (∀ count, (widths count).toNat ≤ frameUs) ∧ generator.OnePulse widths ∧
      (generator.after widths 2).pin.high = true ∧
        (generator.after widths 4).pin.high = false := by
  intro widths generator
  have fits (count : Nat) : (widths count).toNat ≤ frameUs := by
    simp only [widths]
    split <;> decide
  have pulses : generator.OnePulse widths := one_pulse_per_frame (.new true) 30 widths fits
  have lasts := pulses.lasts 0 1 (by decide)
  have ended := pulses.ended 0 2 3 (by decide) (by decide)
  simp only [Nat.zero_mul, Nat.zero_add, Nat.reduceAdd] at lasts ended
  exact ⟨fits, pulses, lasts.mpr (by decide), ended (by decide)⟩

end Mecanum.Servo.Generator
