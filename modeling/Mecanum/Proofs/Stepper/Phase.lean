import Mecanum.Proofs.Stepper.Edges

/-!
# Nothing of the phase is lost

Two overflows make one step, so the rises of the step pin, its level and the phase are together one
number, the position of the channel. A tick moves the position by the increment of its speed, no
more and no less (`position_tick`), so a run moves it by the sum of the increments. Rises and phase
are read off the position again, which gives both of them in closed form (`phase_adds_up`).
-/
namespace Mecanum.Stepper.Channel

open Hardware (Output)

/-- The channel set for a speed. -/
def tuned (channel : Channel) (speed : Int) : Channel :=
  if speed = channel.speed then channel else channel.retune speed

def after (channel : Channel) (speeds : List Int) : Channel :=
  speeds.foldl (fun channel speed => (channel.tick speed).2) channel

/-- What each of these ticks adds to the phase. -/
def increments (channel : Channel) : List Int → List UInt32
  | [] => []
  | speed :: rest => (channel.tuned speed).increment :: (channel.tick speed).2.increments rest

/-- The sum of the increments, without any overflow. -/
def travel (channel : Channel) (speeds : List Int) : Nat :=
  ((channel.increments speeds).map UInt32.toNat).sum

/-- Where a channel comes to when its phase goes on to a total that does not overflow. -/
structure Advanced (channel next : Channel) (total : Nat) : Prop where
  -- From a low pin every odd overflow is a rise, from a high pin every even one.
  rises : next.step.rises =
    channel.step.rises + (total / 2 ^ 32 + 1 - channel.level.toNat) / 2
  phase : next.phase.toNat = total % 2 ^ 32

/-! ### One tick -/

section Tick

variable (channel : Channel) (speed : Int)

theorem tick_eq :
    channel.tick speed =
      if (channel.tuned speed).increment = 0 then (0, channel.tuned speed)
      else (channel.tuned speed).accumulate :=
  rfl

@[simp]
theorem step_tuned : (channel.tuned speed).step = channel.step := by
  unfold tuned
  split <;> rfl

@[simp]
theorem phase_tuned : (channel.tuned speed).phase = channel.phase := by
  unfold tuned
  split <;> rfl

@[simp]
theorem level_tuned : (channel.tuned speed).level = channel.level := by
  unfold tuned
  split <;> rfl

@[simp]
theorem speed_tuned : (channel.tuned speed).speed = speed := by
  unfold tuned
  split
  next same => exact same.symm
  next => rfl

/-- A tick leaves a channel set for its speed. -/
theorem speed_tick :
    (channel.tick speed).2.speed = speed ∧
      (channel.tick speed).2.increment = (channel.tuned speed).increment := by
  simp only [tick_eq, accumulate]
  split_ifs <;> simp

theorem hzPerUnit_tick : (channel.tick speed).2.hzPerUnit = channel.hzPerUnit := by
  simp only [tick, accumulate, retune]
  split_ifs <;> rfl

theorem tickHz_tick : (channel.tick speed).2.tickHz = channel.tickHz := by
  simp only [tick, accumulate, retune]
  split_ifs <;> rfl

theorem incrementAt_tick : (channel.tick speed).2.incrementAt = channel.incrementAt := by
  funext other
  simp only [incrementAt, hzPerUnit_tick, tickHz_tick]

end Tick

/-- The step pin is at the level that was last given to it. -/
def Shown (channel : Channel) : Prop := channel.step.high = channel.level

theorem shown_new (step direction : Output) (hzPerUnit : Float32) (tickHz : UInt32)
    (reversed : Bool) : (new step direction hzPerUnit tickHz reversed).Shown := by
  simp [Shown, new, Output.set]

/-- The way since the pin was new, where an overflow is `2 ^ 32` and a step two overflows. A high
pin has only the first overflow of its last step behind it. -/
def position (channel : Channel) : Int :=
  2 ^ 32 * (2 * channel.step.rises - channel.level.toNat) + channel.phase.toNat

section Position

variable {channel : Channel} (shown : channel.Shown)

include shown

/-- Rises and phase together advance by the increment. -/
theorem position_accumulate :
    channel.accumulate.2.Shown ∧
      channel.accumulate.2.position = channel.position + channel.increment.toNat := by
  unfold Shown at shown
  have phase := UInt32.toNat_add channel.phase channel.increment
  have small := channel.phase.toNat_lt
  have most := channel.increment.toNat_lt
  simp only [accumulate, UInt32.size]
  split
  next room =>
    refine ⟨shown, ?_⟩
    simp only [position, phase]
    omega
  next full =>
    refine ⟨by simp [Shown, Output.set], ?_⟩
    -- What the overflow takes off the phase, the pin that it flips stands for.
    cases lifted : channel.level with
    | false =>
      have rise : (channel.step.set true).rises = channel.step.rises + 1 := by
        simp [Output.set, shown, lifted]
      simp only [position, phase, lifted, Bool.not_false, rise, Bool.toNat_true, Bool.toNat_false]
      omega
    | true =>
      have fall : (channel.step.set false).rises = channel.step.rises := by simp [Output.set]
      simp only [position, phase, lifted, Bool.not_true, fall, Bool.toNat_true, Bool.toNat_false]
      omega

/-- A tick moves the position by the increment of its speed. -/
theorem position_tick (speed : Int) :
    (channel.tick speed).2.Shown ∧
      (channel.tick speed).2.position =
        channel.position + (channel.tuned speed).increment.toNat := by
  have same : (channel.tuned speed).position = channel.position := by simp [position]
  have kept : (channel.tuned speed).Shown := by simpa [Shown] using shown
  rw [tick_eq]
  by_cases still : (channel.tuned speed).increment = 0
  · simp [still, same, kept]
  · rw [if_neg still, ← same]
    exact position_accumulate kept

end Position

/-! ### Runs -/

theorem after_cons (channel : Channel) (speed : Int) (rest : List Int) :
    channel.after (speed :: rest) = (channel.tick speed).2.after rest := by
  simp [after]

theorem hzPerUnit_after (channel : Channel) (speeds : List Int) :
    (channel.after speeds).hzPerUnit = channel.hzPerUnit := by
  induction speeds generalizing channel with
  | nil => simp [after]
  | cons speed rest ih => rw [after_cons, ih, hzPerUnit_tick]

theorem travel_cons (channel : Channel) (speed : Int) (rest : List Int) :
    channel.travel (speed :: rest) =
      (channel.tuned speed).increment.toNat + (channel.tick speed).2.travel rest := by
  simp [travel, increments]

/-- A run moves the position by the sum of the increments. -/
theorem position_after {channel : Channel} (shown : channel.Shown) (speeds : List Int) :
    (channel.after speeds).Shown ∧
      (channel.after speeds).position = channel.position + channel.travel speeds := by
  induction speeds generalizing channel with
  | nil => simp [after, travel, increments, shown]
  | cons speed rest ih =>
    obtain ⟨kept, first⟩ := position_tick shown speed
    obtain ⟨last, run⟩ := ih kept
    rw [after_cons, travel_cons]
    refine ⟨last, ?_⟩
    rw [run, first]
    push_cast
    ring

/-- Over any speeds the rises and the phase are the division of the travel by the size of a word. -/
theorem advanced_after {channel : Channel} (shown : channel.Shown) (speeds : List Int) :
    Advanced channel (channel.after speeds) (channel.phase.toNat + channel.travel speeds) := by
  obtain ⟨-, moved⟩ := position_after shown speeds
  have small := (channel.after speeds).phase.toNat_lt
  have level := channel.level.toNat_lt
  have last := (channel.after speeds).level.toNat_lt
  unfold position at moved
  constructor <;> omega

/-! ### Increments -/

section Constant

variable (channel : Channel) (speed : Int) (count : Nat)

theorem run_eq_after :
    (channel.run speed count).2 = channel.after (List.replicate count speed) := by
  induction count generalizing channel with
  | zero => simp [run, after]
  | succ count ih => simp only [run, ih, List.replicate_succ, after_cons]

/-- At one speed every tick adds the same. -/
theorem travel_replicate :
    channel.travel (List.replicate count speed) =
      count * (channel.tuned speed).increment.toNat := by
  induction count generalizing channel with
  | zero => simp [travel, increments]
  | succ count ih =>
    obtain ⟨kept, same⟩ := channel.speed_tick speed
    have again : ((channel.tick speed).2.tuned speed).increment =
        (channel.tuned speed).increment := by rw [tuned, if_pos kept.symm, same]
    rw [List.replicate_succ, travel_cons, ih, again]
    ring

end Constant

def InTune (channel : Channel) : Prop := channel.increment = channel.incrementAt channel.speed

section InTune

variable {channel : Channel}

theorem inTune_new (step direction : Output) {hzPerUnit : Float32}
    (finite : hzPerUnit.isFinite = true) (tickHz : UInt32) (reversed : Bool) :
    (new step direction hzPerUnit tickHz reversed).InTune := by
  have fits := fits_new step direction finite tickHz reversed
  exact (incrementAt_zero fits.finite fits.clocked).symm

theorem InTune.increment_tuned (inTune : channel.InTune) (speed : Int) :
    (channel.tuned speed).increment = channel.incrementAt speed := by
  unfold tuned
  split
  next same => rw [same, inTune]
  next => rfl

theorem InTune.tick (inTune : channel.InTune) (speed : Int) : (channel.tick speed).2.InTune := by
  obtain ⟨kept, same⟩ := channel.speed_tick speed
  rw [InTune, kept, same, incrementAt_tick, inTune.increment_tuned]

theorem InTune.after (inTune : channel.InTune) (speeds : List Int) :
    (channel.after speeds).InTune := by
  induction speeds generalizing channel with
  | nil => exact inTune
  | cons speed rest ih =>
    rw [after_cons]
    exact ih (inTune.tick speed)

/-- The increments go by the speeds alone, in whatever order they come. -/
theorem InTune.increments_eq (inTune : channel.InTune) (speeds : List Int) :
    channel.increments speeds = speeds.map channel.incrementAt := by
  induction speeds generalizing channel with
  | nil => rfl
  | cons speed rest ih =>
    rw [increments, ih (inTune.tick speed), inTune.increment_tuned, incrementAt_tick, List.map_cons]

end InTune

/-- The phase of a channel behind some ticks adds up over further ones. -/
structure AddsUp (channel : Channel) (speeds : List Int) : Prop where
  advanced :
    Advanced channel (channel.after speeds) (channel.phase.toNat + channel.travel speeds)
  -- The increment of a tick is that of its speed, whatever the speeds before.
  inTune : channel.hzPerUnit.isFinite = true →
    channel.increments speeds = speeds.map channel.incrementAt
  -- A constant speed adds its increment any number of times.
  steady : ∀ speed count, Advanced channel (channel.run speed count).2
    (channel.phase.toNat + count * (channel.tuned speed).increment.toNat)

/-- From any reachable channel, the rises and the phase are those of the travel added to the phase.
-/
theorem phase_adds_up (step direction : Output) (hzPerUnit : Float32) (tickHz : UInt32)
    (reversed : Bool) (earlier speeds : List Int) :
    ((new step direction hzPerUnit tickHz reversed).after earlier).AddsUp speeds := by
  have shown := (position_after (shown_new step direction hzPerUnit tickHz reversed) earlier).1
  refine ⟨advanced_after shown speeds, ?_, ?_⟩
  · intro finite
    rw [hzPerUnit_after] at finite
    exact ((inTune_new step direction finite tickHz reversed).after earlier).increments_eq speeds
  · intro speed count
    rw [run_eq_after, ← travel_replicate]
    exact advanced_after shown _

/-- At the greatest increment, one short of an overflow, five ticks make four overflows. -/
example :
    let last := (new (.new false) (.new false) 1 2 false).after [1, 1, 1, 1, 1]
    last.step.rises = 2 ∧ last.phase = 4294967291 := by
  decide +kernel

end Mecanum.Stepper.Channel
