import Mathlib.Data.List.DropRight
import Mathlib.Data.List.Induction
import Mecanum.Proofs.Binary32.Exact
import Mecanum.Stepper.Bank

/-!
# Step counters and step edges

A channel raises its step pin only at a speed other than zero, and then its direction pin shows the
sign of the speed. So the counter of a channel is what its pins did since the last reset: the rising
edges forward less the rising edges backward, as a word of 32 bits.
-/
namespace Mecanum.Stepper

open Hardware (Output)

/-! ### Channels -/

namespace Channel

/-- At speed zero nothing is added to the phase. -/
theorem incrementAt_zero {channel : Channel} (finite : channel.hzPerUnit.isFinite = true)
    (clocked : channel.tickHz ≠ 0) : channel.incrementAt 0 = 0 := by
  have none : Binary32.IsZero (Binary32.ofInt ((0 : Int).natAbs : Int)) := ⟨.positive, rfl⟩
  have rate := Binary32.isZero_mul_left none finite
  have twice := Binary32.isZero_mul_right rate (rfl : Float32.isFinite 2 = true)
  have share := Binary32.isZero_lesser_one (Binary32.isZero_div_toFloat32 twice clocked)
  exact Binary32.toUInt32_of_isZero (Binary32.isZero_mul_left share rfl)

/-- How the pins of a channel, its speed and its increment fit together. -/
structure Fits (channel : Channel) : Prop where
  finite : channel.hzPerUnit.isFinite = true
  clocked : channel.tickHz ≠ 0
  level : channel.step.high = channel.level
  pointed : channel.speed ≠ 0 →
    channel.direction.high = (decide (channel.speed < 0) != channel.reversed)
  idle : channel.speed = 0 → channel.increment = 0

theorem fits_new (step direction : Output) {hzPerUnit : Float32}
    (finite : hzPerUnit.isFinite = true) (tickHz : UInt32) (reversed : Bool) :
    (new step direction hzPerUnit tickHz reversed).Fits where
  finite := finite
  clocked := by
    show (if tickHz ≤ 1 then 1 else tickHz) ≠ 0
    split
    next => decide
    next more =>
      rintro rfl
      exact more (by decide)
  level := rfl
  pointed moves := absurd rfl moves
  idle _ := rfl

theorem Fits.retune {channel : Channel} (fits : channel.Fits) (speed : Int) :
    (channel.retune speed).Fits where
  finite := fits.finite
  clocked := fits.clocked
  level := fits.level
  pointed _ := rfl
  idle stopped := by
    cases stopped
    exact incrementAt_zero fits.finite fits.clocked

/-- What one tick does to the pins, by the steps that it makes. -/
inductive Ticked (channel : Channel) (speed : Int) (next : Channel) : Int → Prop where
  | still (step : next.step = channel.step) : Ticked channel speed next 0
  | fell (moves : speed ≠ 0) (step : next.step = channel.step.set false) :
      Ticked channel speed next 0
  | rose (moves : speed ≠ 0) (low : channel.step.high = false)
      (step : next.step = channel.step.set true)
      (pointed : next.direction.high = (decide (speed < 0) != next.reversed)) :
      Ticked channel speed next speed.sign

/-- Accumulating, a moving channel does what a tick may do. -/
theorem Fits.accumulate {channel : Channel} (fits : channel.Fits) (moves : channel.speed ≠ 0) :
    channel.accumulate.2.Fits ∧
      Ticked channel channel.speed channel.accumulate.2 channel.accumulate.1 := by
  unfold Channel.accumulate
  split
  · exact ⟨⟨fits.finite, fits.clocked, fits.level, fits.pointed, fits.idle⟩, .still rfl⟩
  · refine ⟨⟨fits.finite, fits.clocked, rfl, fits.pointed, fits.idle⟩, ?_⟩
    have level := fits.level
    cases lifted : channel.level with
    | true => exact .fell moves rfl
    | false =>
      rw [lifted] at level
      exact .rose moves level rfl (fits.pointed moves)

/-- Setting the direction pin beforehand makes no difference to the step pin. -/
theorem Ticked.of_step {channel tuned next : Channel} {speed made : Int}
    (same : tuned.step = channel.step) (ticked : Ticked tuned speed next made) :
    Ticked channel speed next made := by
  cases ticked with
  | still kept => exact .still (kept.trans same)
  | fell moves fall => exact .fell moves (by rw [fall, same])
  | rose moves low rise pointed =>
    exact .rose moves (by rw [← same, low]) (by rw [rise, same]) pointed

/-- A tick keeps a channel fitting and does what a tick may do. -/
theorem Fits.tick {channel : Channel} (fits : channel.Fits) (speed : Int) :
    (channel.tick speed).2.Fits ∧
      Ticked channel speed (channel.tick speed).2 (channel.tick speed).1 := by
  -- Whether it is set anew or not, the channel is at the speed from here on.
  obtain ⟨tuned, tuning, fit, rfl, step⟩ : ∃ tuned,
      channel.tick speed = (if tuned.increment = 0 then (0, tuned) else tuned.accumulate) ∧
        tuned.Fits ∧ tuned.speed = speed ∧ tuned.step = channel.step := by
    by_cases kept : speed = channel.speed
    · exact ⟨channel, by rw [Channel.tick, if_pos kept], fits, kept.symm, rfl⟩
    · exact ⟨channel.retune speed, by rw [Channel.tick, if_neg kept], fits.retune speed, rfl, rfl⟩
  rw [tuning]
  split
  next => exact ⟨fit, .still step⟩
  next moving =>
    have moves : tuned.speed ≠ 0 := fun stopped => moving (fit.idle stopped)
    obtain ⟨next, ticked⟩ := fit.accumulate moves
    exact ⟨next, ticked.of_step step⟩

theorem reversed_tick (channel : Channel) (speed : Int) :
    (channel.tick speed).2.reversed = channel.reversed := by
  simp only [tick, accumulate, retune]
  split_ifs <;> rfl

end Channel

/-! ### Rising edges -/

/-- A change of a step pin from low to high, by what the direction pin shows. -/
inductive Rise where
  | forward
  | backward
deriving DecidableEq

/-- The forward edges less the backward ones. -/
def net (rises : List Rise) : Int := rises.count .forward - rises.count .backward

theorem net_append (front back : List Rise) : net (front ++ back) = net front + net back := by
  simp only [net, List.count_append]
  omega

namespace Channel

/-- The edge between two moments. Forward the direction pin is low, on a reversed channel high. -/
def rise? (before after : Channel) : Option Rise :=
  -- A tick sets the direction pin before the step pin, so the edge finds it as it is afterwards.
  if !before.step.high && after.step.high then
    some (if after.direction.high = after.reversed then .forward else .backward)
  else none

theorem rise?_of_step {before after : Channel} (same : after.step = before.step) :
    before.rise? after = none := by
  rw [rise?, same, Bool.not_and_self, if_neg Bool.false_ne_true]

theorem rise?_of_high {before after : Channel} (high : before.step.high = true) :
    before.rise? after = none := by
  rw [rise?, high, Bool.not_true, Bool.false_and, if_neg Bool.false_ne_true]

theorem high_of_rise? {before after : Channel} {rise : Rise}
    (rises : before.rise? after = some rise) : after.step.high = true := by
  unfold rise? at rises
  split at rises
  next up => exact (Bool.and_eq_true_iff.mp up).2
  next => cases rises

namespace Ticked

variable {channel next : Channel} {speed made : Int}

/-- The steps made are the edge, with the sign that the direction pin shows. -/
theorem net_eq (ticked : Ticked channel speed next made) :
    net (channel.rise? next).toList = made := by
  cases ticked with
  | still step => rw [rise?_of_step step]; rfl
  | fell _ step => simp [rise?, step, Output.set, net]
  | rose moves low step pointed =>
    have up : next.step.high = true := by rw [step, Output.set]
    rcases lt_or_gt_of_ne moves with back | forth
    · rw [Int.sign_eq_neg_one_of_neg back]
      simp [rise?, low, up, pointed, back, net]
    · rw [Int.sign_eq_one_of_pos forth]
      simp [rise?, low, up, pointed, forth.not_gt, net]

/-- The pin itself records the edge. -/
theorem rises_eq (ticked : Ticked channel speed next made) :
    next.step.rises = channel.step.rises + (channel.rise? next).toList.length := by
  cases ticked with
  | still step => rw [rise?_of_step step, step]; rfl
  | fell _ step => simp [rise?, step, Output.set]
  | rose _ low step => simp [rise?, step, Output.set, low]

/-- On a reversed channel the speed changes its sign while the step pin is high. -/
example :
    let turned := ((Channel.new (.new false) (.new true) 1 2 true).run 5 2).2.run (-5) 4
    turned.1 = [0, -1, 0, -1] ∧ turned.2.step.rises = 3 ∧ turned.2.direction.high = false := by
  decide +kernel

theorem step_of_stopped (ticked : Ticked channel 0 next made) : next.step = channel.step := by
  cases ticked with
  | still step => exact step
  | fell moves => exact absurd rfl moves
  | rose moves => exact absurd rfl moves

end Ticked

end Channel

/-! ### Banks -/

namespace Bank

variable {n : Nat} (bank : Bank n) (channels : Vector Channel n) (index : Fin n)

theorem channels_service :
    (bank.service channels).2[index] = (channels[index].tick bank.speeds[index]).2 := by
  simp [service]

theorem counts_service :
    (bank.service channels).1.counts[index] =
      bank.counts[index] + Int32.ofInt (channels[index].tick bank.speeds[index]).1 := by
  simp [service]

theorem speed_eq : bank.speed index = bank.speeds[index] := by simp [speed]

theorem steps_eq : bank.steps index = bank.counts[index].toInt := by simp [steps]

variable {channel other : Nat}

theorem speed_setSpeed (apart : other ≠ channel) (speed : Int) :
    (bank.setSpeed channel speed).speed other = bank.speed other := by
  simp [setSpeed, Bank.speed, apart.symm]

theorem steps_resetSteps (apart : other ≠ channel) :
    (bank.resetSteps channel).steps other = bank.steps other := by
  simp [resetSteps, steps, apart.symm]

end Bank

/-! ### Rigs -/

structure Wiring where
  step : Output
  direction : Output
  hzPerUnit : Float32
  finite : hzPerUnit.isFinite = true
  tickHz : UInt32
  reversed : Bool

def Wiring.channel (wiring : Wiring) : Channel :=
  .new wiring.step wiring.direction wiring.hzPerUnit wiring.tickHz wiring.reversed

structure Rig (n : Nat) where
  bank : Bank n
  channels : Vector Channel n

inductive Operation where
  | setSpeed (channel : Nat) (speed : Int)
  | resetSteps (channel : Nat)
  | service
deriving DecidableEq

def Operation.channel? : Operation → Option Nat
  | setSpeed channel _ => some channel
  | resetSteps channel => some channel
  | service => none

namespace Rig

variable {n : Nat}

def new (wirings : Vector Wiring n) : Rig n := ⟨.new, wirings.map Wiring.channel⟩

theorem channels_new (wirings : Vector Wiring n) (index : Fin n) :
    (new wirings).channels[index] = wirings[index].channel := Vector.getElem_map ..

def perform (rig : Rig n) : Operation → Rig n
  | .setSpeed channel speed => { rig with bank := rig.bank.setSpeed channel speed }
  | .resetSteps channel => { rig with bank := rig.bank.resetSteps channel }
  | .service => ⟨(rig.bank.service rig.channels).1, (rig.bank.service rig.channels).2⟩

def run (rig : Rig n) (operations : List Operation) : Rig n := operations.foldl perform rig

/-- The rising edge of a step pin while one operation is performed. -/
def rise? (rig : Rig n) (index : Fin n) (operation : Operation) : Option Rise :=
  rig.channels[index].rise? (rig.perform operation).channels[index]

def rises (rig : Rig n) (index : Fin n) : List Operation → List Rise
  | [] => []
  | operation :: rest =>
    (rig.rise? index operation).toList ++ (rig.perform operation).rises index rest

def Fits (rig : Rig n) : Prop := ∀ index : Fin n, rig.channels[index].Fits

theorem fits_new (wirings : Vector Wiring n) : (new wirings).Fits := by
  intro index
  rw [channels_new]
  exact Channel.fits_new _ _ wirings[index].finite _ _

section Perform

variable {rig : Rig n}

theorem channels_of_named {operation : Operation} (named : operation ≠ .service) :
    (rig.perform operation).channels = rig.channels := by
  cases operation with
  | service => exact absurd rfl named
  | _ => rfl

theorem rise?_of_named {operation : Operation} (named : operation ≠ .service) (index : Fin n) :
    rig.rise? index operation = none := by
  rw [rise?, channels_of_named named, Channel.rise?_of_step rfl]

theorem Fits.perform (fits : rig.Fits) (operation : Operation) : (rig.perform operation).Fits := by
  intro index
  cases operation with
  | service =>
    rw [Rig.perform, Bank.channels_service]
    exact ((fits index).tick _).1
  | _ => exact fits index

/-- How a service ticks each channel. -/
theorem Fits.ticked (fits : rig.Fits) (index : Fin n) :
    rig.channels[index].Ticked rig.bank.speeds[index] (rig.perform .service).channels[index]
      (rig.channels[index].tick rig.bank.speeds[index]).1 := by
  rw [Rig.perform, Bank.channels_service]
  exact ((fits index).tick _).2

/-- A count follows the edges, up to a reset. -/
theorem Fits.counts_perform (fits : rig.Fits) {index : Fin n} {operation : Operation}
    (kept : operation ≠ .resetSteps index) :
    (rig.perform operation).bank.counts[index] =
      rig.bank.counts[index] + Int32.ofInt (net (rig.rise? index operation).toList) := by
  cases operation with
  | setSpeed channel speed =>
    rw [rise?_of_named Operation.noConfusion]
    exact (Int32.add_zero _).symm
  | resetSteps channel =>
    have apart : channel ≠ index := fun same => kept (by rw [same])
    rw [rise?_of_named Operation.noConfusion]
    exact (Vector.getElem_setIfInBounds_ne _ apart).trans (Int32.add_zero _).symm
  | service =>
    rw [rise?, (fits.ticked index).net_eq]
    exact rig.bank.counts_service rig.channels index

/-- An operation adds the rises it tells of a channel. -/
theorem Fits.rises_perform (fits : rig.Fits) (index : Fin n) (operation : Operation) :
    (rig.perform operation).channels[index].step.rises =
      rig.channels[index].step.rises + (rig.rise? index operation).toList.length := by
  by_cases named : operation = .service
  · rw [named]
    exact (fits.ticked index).rises_eq
  · rw [rise?_of_named named, channels_of_named named]
    rfl

theorem reversed_perform (rig : Rig n) (index : Fin n) (operation : Operation) :
    (rig.perform operation).channels[index].reversed = rig.channels[index].reversed := by
  by_cases named : operation = .service
  · rw [named, perform, Bank.channels_service, Channel.reversed_tick]
  · rw [channels_of_named named]

end Perform

section Run

variable {rig : Rig n}

theorem run_append (rig : Rig n) (front back : List Operation) :
    rig.run (front ++ back) = (rig.run front).run back := List.foldl_append

theorem run_concat (rig : Rig n) (operations : List Operation) (operation : Operation) :
    rig.run (operations ++ [operation]) = (rig.run operations).perform operation :=
  List.foldl_concat ..

theorem Fits.run (fits : rig.Fits) (operations : List Operation) : (rig.run operations).Fits := by
  induction operations using List.reverseRecOn with
  | nil => exact fits
  | append_singleton operations operation ih =>
    rw [run_concat]
    exact ih.perform operation

/-- Without a reset, a run adds the edges to a count. -/
theorem Fits.counts_run (fits : rig.Fits) {index : Fin n} {operations : List Operation}
    (kept : .resetSteps index ∉ operations) :
    (rig.run operations).bank.counts[index] =
      rig.bank.counts[index] + Int32.ofInt (net (rig.rises index operations)) := by
  induction operations generalizing rig with
  | nil => exact (Int32.add_zero _).symm
  | cons operation rest ih =>
    obtain ⟨first, later⟩ := List.ne_and_not_mem_of_not_mem_cons kept
    have step := fits.counts_perform (Ne.symm first)
    have tail := ih (fits.perform operation) later
    rw [rises, net_append, Int32.ofInt_add, ← Int32.add_assoc, ← step]
    exact tail

/-- Over a session the rises of a channel add up. -/
theorem Fits.rises_run (fits : rig.Fits) (index : Fin n) (operations : List Operation) :
    (rig.run operations).channels[index].step.rises =
      rig.channels[index].step.rises + (rig.rises index operations).length := by
  induction operations generalizing rig with
  | nil => rfl
  | cons operation rest ih =>
    have step := fits.rises_perform index operation
    rw [rises, List.length_append, ← Nat.add_assoc, ← step]
    exact ih (fits.perform operation)

theorem reversed_run (rig : Rig n) (index : Fin n) (operations : List Operation) :
    (rig.run operations).channels[index].reversed = rig.channels[index].reversed := by
  induction operations using List.reverseRecOn with
  | nil => rfl
  | append_singleton operations operation ih => rw [run_concat, reversed_perform, ih]

theorem channels_run {operations : List Operation} (named : .service ∉ operations) :
    (rig.run operations).channels = rig.channels := by
  induction operations generalizing rig with
  | nil => rfl
  | cons operation rest ih =>
    obtain ⟨first, later⟩ := List.ne_and_not_mem_of_not_mem_cons named
    exact (ih later).trans (channels_of_named (Ne.symm first))

/-- Between two edges a step pin must fall, and a service changes it once. -/
theorem Fits.rises_twice (fits : rig.Fits) (index : Fin n) {between : List Operation}
    (named : .service ∉ between) :
    (((rig.perform .service).run between).perform .service).channels[index].step.rises ≤
      rig.channels[index].step.rises + 1 := by
  have first := fits.rises_perform index .service
  have second := ((fits.perform .service).run between).rises_perform index .service
  rw [channels_run named] at second
  rw [second, first]
  cases up : rig.rise? index .service with
  | none => exact Nat.add_le_add_left Option.length_toList_le _
  | some rise =>
    have high := Channel.high_of_rise? up
    rw [rise?, channels_run named, Channel.rise?_of_high high]
    exact Nat.le_refl _

end Run

end Rig

/-! ### Counts and pins -/

/-- The operations up to the last reset of a channel; without one, none. -/
def upToReset (channel : Nat) (operations : List Operation) : List Operation :=
  operations.rdropWhile (· ≠ .resetSteps channel)

/-- The operations since the last reset of a channel. -/
def sinceReset (channel : Nat) (operations : List Operation) : List Operation :=
  operations.rtakeWhile (· ≠ .resetSteps channel)

section Reset

variable {n : Nat} (wirings : Vector Wiring n) (operations : List Operation)

/-- A new rig behind some operations. -/
def rigAfter : Rig n := (Rig.new wirings).run operations

theorem rigAfter_concat (operation : Operation) :
    rigAfter wirings (operations ++ [operation]) =
      (rigAfter wirings operations).perform operation :=
  Rig.run_concat ..

theorem fits_rigAfter : (rigAfter wirings operations).Fits := (Rig.fits_new wirings).run operations

/-- A count is zero up to the last reset. -/
theorem counts_upToReset (index : Fin n) :
    (rigAfter wirings (upToReset index operations)).bank.counts[index] = 0 := by
  induction operations using List.reverseRecOn with
  | nil => exact Vector.getElem_replicate _
  | append_singleton operations operation ih =>
    by_cases reset : operation = .resetSteps index
    · rw [upToReset, List.rdropWhile_concat_neg _ _ _ (by simp [reset]), rigAfter, Rig.run_concat,
        reset]
      exact Vector.getElem_setIfInBounds_self _
    · rw [upToReset, List.rdropWhile_concat_pos _ _ _ (by simp [reset])]
      exact ih

theorem rigAfter_eq (channel : Nat) :
    rigAfter wirings operations =
      (rigAfter wirings (upToReset channel operations)).run (sinceReset channel operations) := by
  rw [rigAfter, rigAfter, ← Rig.run_append, upToReset, sinceReset,
    List.rdropWhile_append_rtakeWhile]

theorem reset_notMem_sinceReset (channel : Nat) :
    .resetSteps channel ∉ sinceReset channel operations := by
  intro reset
  have kept := List.mem_rtakeWhile_imp reset
  simp at kept

end Reset

/-- The counters and the pins of a new rig behind some operations. -/
structure StepsFollowPins {n : Nat} (wirings : Vector Wiring n) (operations : List Operation) :
    Prop where
  -- A counter is the forward edges less the backward ones since the last reset, as a word.
  counted : ∀ index : Fin n,
    (rigAfter wirings operations).bank.steps index =
      (net ((rigAfter wirings (upToReset index operations)).rises index
        (sinceReset index operations))).bmod (2 ^ 32)
  -- The edges are those that the pin has made, and their direction goes by the wiring.
  recorded : ∀ index : Fin n,
    (rigAfter wirings operations).channels[index].step.rises =
      wirings[index].step.rises + ((Rig.new wirings).rises index operations).length
  mounted : ∀ index : Fin n,
    (rigAfter wirings operations).channels[index].reversed = wirings[index].reversed
  -- At speed zero a step pin is left alone.
  still : ∀ index : Fin n, (rigAfter wirings operations).bank.speed index = 0 →
    (rigAfter wirings (operations ++ [.service])).channels[index].step =
      (rigAfter wirings operations).channels[index].step
  -- Two services with no other between them make one edge at most.
  apart : ∀ (index : Fin n) (between : List Operation), .service ∉ between →
    let later := rigAfter wirings (operations ++ .service :: between ++ [.service])
    later.channels[index].step.rises ≤ (rigAfter wirings operations).channels[index].step.rises + 1
  -- An operation that names a channel changes no pin, and nothing of any other channel.
  others : ∀ (operation : Operation) (channel : Nat), operation.channel? = some channel →
    (rigAfter wirings (operations ++ [operation])).channels =
        (rigAfter wirings operations).channels ∧
      ∀ other, other ≠ channel →
        (rigAfter wirings (operations ++ [operation])).bank.speed other =
            (rigAfter wirings operations).bank.speed other ∧
          (rigAfter wirings (operations ++ [operation])).bank.steps other =
            (rigAfter wirings operations).bank.steps other

/-- The steps counted are the edges at the pins, signed by the direction, since the last reset. -/
theorem steps_follow_pins {n : Nat} (wirings : Vector Wiring n) (operations : List Operation) :
    StepsFollowPins wirings operations := by
  have fits := fits_rigAfter wirings operations
  refine ⟨fun index => ?_, fun index => ?_, fun index => ?_, fun index stopped => ?_,
    fun index between named => ?_, fun operation channel names => ?_⟩
  · have counts := (fits_rigAfter wirings (upToReset index operations)).counts_run
      (reset_notMem_sinceReset operations index)
    rw [← rigAfter_eq, counts_upToReset, Int32.zero_add] at counts
    rw [Bank.steps_eq, counts, Int32.toInt_ofInt]
    rfl
  · rw [rigAfter, (Rig.fits_new wirings).rises_run, Rig.channels_new]
    rfl
  · rw [rigAfter, Rig.reversed_run, Rig.channels_new]
    rfl
  · rw [Bank.speed_eq] at stopped
    have ticked := fits.ticked index
    rw [stopped] at ticked
    rw [rigAfter_concat]
    exact ticked.step_of_stopped
  · have twice := fits.rises_twice index named
    have split : operations ++ .service :: between ++ [.service] =
        operations ++ [.service] ++ between ++ [.service] := by simp
    rw [split, rigAfter_concat, rigAfter, Rig.run_append, Rig.run_concat]
    exact twice
  · rw [rigAfter_concat]
    cases operation with
    | service => cases names
    | setSpeed _ speed =>
      cases names
      exact ⟨rfl, fun _ apart => ⟨Bank.speed_setSpeed _ apart speed, rfl⟩⟩
    | resetSteps =>
      cases names
      exact ⟨rfl, fun _ apart => ⟨rfl, Bank.steps_resetSteps _ apart⟩⟩

/-- A channel that takes four ticks to a step at speed 1. -/
def wheelWiring (reversed : Bool) : Wiring := ⟨.new false, .new false, 1, by decide, 4, reversed⟩

/-- Two such channels, the second mounted mirrored. -/
def wheelPair : Vector Wiring 2 := #v[wheelWiring false, wheelWiring true]

def serviced (operations : List Operation) (count : Nat) : List Operation :=
  operations ++ List.replicate count .service

/-- The first channel turns around. The second is reset, rests and goes backward twice as fast. A
channel that is not there is commanded as well. -/
def wheelSession : List Operation :=
  serviced [.setSpeed 0 1, .setSpeed 1 1] 9 ++ serviced [.setSpeed 0 (-1), .setSpeed 7 100] 16 ++
    serviced [.resetSteps 1, .setSpeed 1 0] 3 ++ serviced [.setSpeed 1 (-2)] 5

/-- The first channel has made two steps forward and six backward, all of which count; of the nine
steps of the second only the last three count. -/
theorem steps_follow_pins_wheelPair :
    StepsFollowPins wheelPair wheelSession ∧
      (rigAfter wheelPair wheelSession).bank.steps 0 = -4 ∧
      (rigAfter wheelPair wheelSession).bank.steps 1 = -3 ∧
      (rigAfter wheelPair wheelSession).channels.map (·.step.rises) = #v[8, 9] ∧
      (rigAfter wheelPair wheelSession).channels.map (·.direction.high) = #v[true, false] :=
  ⟨steps_follow_pins _ _, by decide +kernel, by decide +kernel, by decide +kernel,
    by decide +kernel⟩

end Mecanum.Stepper
