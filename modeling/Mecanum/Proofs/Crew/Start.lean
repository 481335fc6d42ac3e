import Mathlib.Data.Finset.Card
import Mecanum.Proofs.Crew.Chassis
import Mecanum.Proofs.Crew.Moments
import Mecanum.Proofs.Mission.Opening

/-!
# Presses and runs

A run starts with a press of its own. The poller turns the samples of the start button into presses,
and the signal between the poller and the mission remembers no more than that there was one. The
mission clears the signal when it begins to wait for it, so the press that ends the wait was sampled
during the wait, and no press starts two runs.
-/
namespace Mecanum.Robot.Crew

open Mission (Errand)
open Motion (WheelDrive)

variable {W : Type}

/-! ### Samples and presses -/

def samples (schedule : List (Move W)) : List Reading := schedule.filterMap Move.sample?

/-- Whether a place of a schedule samples a press: the button is down, and was not down in the
sample before, if there is one. -/
def PressAt (schedule : List (Move W)) (place : Nat) : Prop :=
  schedule[place]?.bind Move.sample? = some .low ∧
    (samples (schedule.take place)).getLast? ≠ some .low

instance (schedule : List (Move W)) : DecidablePred (PressAt schedule) :=
  fun _ => inferInstanceAs (Decidable (_ ∧ _))

theorem PressAt.lt {schedule : List (Move W)} {place : Nat} (pressed : PressAt schedule place) :
    place < schedule.length := by
  obtain ⟨move, present, _⟩ := Option.bind_eq_some_iff.mp pressed.1
  exact (List.getElem?_eq_some_iff.mp present).1

theorem samples_take_succ {schedule : List (Move W)} {place : Nat}
    (within : place < schedule.length) :
    samples (schedule.take (place + 1)) =
      samples (schedule.take place) ++ schedule[place].sample?.toList := by
  rw [samples, List.take_add_one, List.getElem?_eq_getElem within, List.filterMap_append, samples]
  cases sampled : schedule[place].sample? <;> simp [sampled]

/-- The poller sees a press in a sample that is down behind one that is not. -/
theorem poll_pressed_iff {button : Button} {reading : Reading} :
    (button.poll reading).1 = true ↔ reading = .low ∧ button.detector.down = false := by
  simp [Button.poll, EdgeDetector.update]

/-- The start signal is raised only by a press. -/
theorem Supply.raised {crew next : Crew W} {move : Move W} {events : List Event}
    (supply : Supply crew move next events) (raised : next.shared.missionStart.isRaised = true) :
    crew.shared.missionStart.isRaised = true ∨
      ∃ reading, move = .button reading ∧ (crew.button.poll reading).1 = true := by
  cases supply with
  | @operation _ opening behind errand begun left shared button =>
    -- An operation of the mission may clear the signal, and that is all.
    have way := errand.step_stepped crew.shared
    rw [shared] at raised
    generalize errand.step crew.shared = result at way raised
    cases way <;> first | exact .inl raised | cases raised
  | sample reading shared button =>
    cases pressed : (crew.button.poll reading).1 with
    | true => exact .inr ⟨reading, rfl, pressed⟩
    | false =>
      rw [shared, pressed] at raised
      exact .inl raised
  | headed start => exact .inl (start ▸ raised)
  | framed start => exact .inl (start ▸ raised)
  | apart unread same =>
    have start : next.shared.missionStart = crew.shared.missionStart := congrArg Prod.fst same
    exact .inl (start ▸ raised)

/-- The poller remembers its latest sample. -/
theorem Supply.down {crew next : Crew W} {move : Move W} {events : List Event}
    (supply : Supply crew move next events) :
    next.button.detector.down =
      (move.sample?.map fun reading => decide (reading = .low)).getD
        crew.button.detector.down := by
  cases supply with
  | operation _ _ _ button => rw [button]; rfl
  | sample reading _ button => rw [button]; rfl
  | headed _ _ _ button => rw [button]; rfl
  | framed _ _ _ button => rw [button]; rfl
  | apart unread _ button => rw [button, unread]; rfl

/-! ### The wait for the start button -/

/-- Whether the mission waits for a press, with the older ones cleared. -/
def Waits (crew : Crew W) : Prop := crew.pending = some (.errand (.start true))

instance (crew : Crew W) : Decidable crew.Waits := inferInstanceAs (Decidable (_ = _))

/-- A wait either goes on, or begins without a press. -/
theorem Transition.waits [WheelDrive W] {crew next : Crew W} {events : List Event}
    (transition : Transition crew next events) (waits : next.Waits) :
    crew.Waits ∨ ¬crew.Waits ∧ next.shared.missionStart = .empty := by
  cases transition with
  | enter free => rw [Waits, free] at waits; cases waits
  | pause => cases waits
  | blocked begun stepped =>
    cases waits
    cases Errand.stepped_of_step stepped with
    | startAwaited => exact .inl (begun.pending (by simp [Errand.call, Errand.ofCall?])).2
  | moved begun stepped =>
    cases waits
    cases Errand.stepped_of_step stepped with
    | startCleared =>
      refine .inr ⟨fun pending => ?_, rfl⟩
      cases begun with
      | first free => rw [Waits, free] at pending; cases pending
      | again uncleared => rw [Waits, uncleared] at pending; cases pending
  | ended => cases waits
  | wake => cases waits
  | expire => cases waits
  | period => exact .inl waits
  | arm => exact .inl waits
  | aside aside => exact .inl (aside.pending.symm.trans waits)

theorem poised_reached [WheelDrive W] (setup : Setup) (wheels : W) (schedule : List (Move W)) :
    (reached setup wheels schedule).runner.Poised :=
  runner_invariant (fun _ => Mission.Runner.poised_enter) Mission.Runner.poised_reply
    (Mission.Runner.poised_new _) wheels schedule

/-- A run starts from the wait for the start button, with the signal raised, and ends the wait. -/
theorem Transition.start [WheelDrive W] {crew next : Crew W} {history events : List Event}
    (transition : Transition crew next events) (underWay : UnderWay crew history)
    (poised : crew.runner.Poised) (idle : crew.runner.state = .idle)
    (started : next.runner.state = .scanCode) :
    crew.Waits ∧ crew.shared.missionStart.isRaised = true ∧ ¬next.Waits := by
  have unchanged (same : next.runner = crew.runner) : False := by
    rw [same, idle] at started
    cases started
  cases transition with
  | enter _ _ entered =>
    rw [Mission.Runner.state_enter_idle entered idle] at started
    cases started
  | ended begun stepped resumed =>
    have awaited := (Mission.Runner.start_of_reply poised resumed idle started).1
    rw [(underWay.begun begun).1] at awaited
    cases Errand.stepped_of_step stepped with
    | started raised =>
      exact ⟨(begun.pending (by simp [Errand.call, Errand.ofCall?])).2, raised, nofun⟩
    | _ => cases awaited
  | wake pending resumed =>
    obtain ⟨ms, waiting, _⟩ := underWay.pause pending
    rw [(Mission.Runner.start_of_reply poised resumed idle started).1] at waiting
    cases waiting
  | expire pending guarded resumed =>
    cases (Mission.Runner.start_of_reply poised resumed idle started).2
  | aside aside => exact (unchanged aside.runner).elim
  | _ => exact (unchanged rfl).elim

section Places

variable [WheelDrive W] (setup : Setup) (wheels : W) (schedule : List (Move W))

/-- Whether the mission begins at a place of a schedule to wait for a press. -/
def AsksAt (place : Nat) : Prop :=
  ¬(reached setup wheels (schedule.take place)).Waits ∧
    (reached setup wheels (schedule.take (place + 1))).Waits

/-- Whether a run starts at a place of a schedule. -/
def StartsAt (place : Nat) : Prop :=
  (reached setup wheels (schedule.take place)).runner.state = .idle ∧
    (reached setup wheels (schedule.take (place + 1))).runner.state = .scanCode

instance : DecidablePred (StartsAt setup wheels schedule) :=
  fun _ => inferInstanceAs (Decidable (_ ∧ _))

/-- Whether a press between two places comes within one wait for it: the wait begins at the first
and goes on up to the second. -/
structure PressedWithin (asked press place : Nat) : Prop where
  asks : AsksAt setup wheels schedule asked
  behind : asked < press
  ahead : press < place
  pressed : PressAt schedule press
  waits : ∀ between, asked < between → between ≤ place →
    (reached setup wheels (schedule.take between)).Waits

/-- The wait for the start button at a place of a schedule: since when it has gone on, and the press
that the signal stands for. -/
structure Awaiting (place : Nat) : Prop where
  down : (reached setup wheels (schedule.take place)).button.detector.down =
    decide ((samples (schedule.take place)).getLast? = some .low)
  waits : (reached setup wheels (schedule.take place)).Waits → ∃ asked, asked < place ∧
    AsksAt setup wheels schedule asked ∧
    (∀ between, asked < between → between ≤ place →
      (reached setup wheels (schedule.take between)).Waits) ∧
    ((reached setup wheels (schedule.take place)).shared.missionStart.isRaised = true →
      ∃ press, asked < press ∧ press < place ∧ PressAt schedule press)

variable {setup wheels schedule}

/-- The poller signals at a place exactly what the samples show there. -/
theorem Awaiting.press {place : Nat} (awaiting : Awaiting setup wheels schedule place)
    {reading : Reading} (present : schedule[place]? = some (.button reading))
    (pressed : ((reached setup wheels (schedule.take place)).button.poll reading).1 = true) :
    PressAt schedule place := by
  obtain ⟨low, up⟩ := poll_pressed_iff.mp pressed
  rw [awaiting.down] at up
  exact ⟨by rw [present, low]; rfl, of_decide_eq_false up⟩

/-- One move on, the wait goes on, ends or begins anew, and a raised signal still stands for a press
within it. -/
theorem Awaiting.succ {place : Nat} (awaiting : Awaiting setup wheels schedule place)
    (within : place < schedule.length)
    (sound : (new setup wheels).Sound (schedule.take (place + 1))) :
    Awaiting setup wheels schedule (place + 1) := by
  obtain ⟨events, moved⟩ : ∃ events, (reached setup wheels (schedule.take place)).step
      schedule[place] = .ok (reached setup wheels (schedule.take (place + 1)), events) :=
    sound.step_at within
  have present : schedule[place]? = some schedule[place] := List.getElem?_eq_getElem within
  have supply := step_supply moved
  refine ⟨?_, fun waits => ?_⟩
  · rw [supply.down, samples_take_succ within, awaiting.down]
    cases sampled : schedule[place].sample? <;> simp
  · -- The wait has gone on, perhaps with a press just now, or it begins here.
    rcases (step_transition moved).waits waits with before | ⟨idle, cleared⟩
    · obtain ⟨asked, earlier, asks, always, signalled⟩ := awaiting.waits before
      refine ⟨asked, by omega, asks, fun between later upTo => ?_, fun raised => ?_⟩
      · rcases Nat.le_succ_iff.mp upTo with upTo | rfl
        · exact always between later upTo
        · exact waits
      · rcases supply.raised raised with old | ⟨reading, button, pressed⟩
        · obtain ⟨press, later, ahead, edge⟩ := signalled old
          exact ⟨press, later, by omega, edge⟩
        · exact ⟨place, earlier, by omega, awaiting.press (button ▸ present) pressed⟩
    · refine ⟨place, by omega, ⟨idle, waits⟩, fun between later upTo => ?_, fun raised => ?_⟩
      · have same : between = place + 1 := by omega
        exact same ▸ waits
      · rw [cleared] at raised
        cases raised

theorem awaiting_of_sound {place : Nat} (within : place ≤ schedule.length)
    (sound : (new setup wheels).Sound (schedule.take place)) :
    Awaiting setup wheels schedule place := by
  induction place with
  | zero => exact ⟨rfl, fun waits => by cases waits⟩
  | succ place ih =>
    exact (ih (by omega) sound.of_take_succ).succ within sound

/-- A run starts with a press within the wait for it, and the start ends the wait. -/
theorem pressed_of_start {place : Nat} (starts : StartsAt setup wheels schedule place) :
    place < schedule.length ∧
      (∃ press asked, PressedWithin setup wheels schedule asked press place) ∧
      ¬(reached setup wheels (schedule.take (place + 1))).Waits := by
  obtain ⟨idle, started⟩ := starts
  obtain ⟨within, sound⟩ : place < schedule.length ∧
      (new setup wheels).Sound (schedule.take (place + 1)) := by
    refine sound_of_run_ne fun same => ?_
    rw [reached, same] at started
    cases idle.symm.trans started
  obtain ⟨events, moved⟩ : ∃ events, (reached setup wheels (schedule.take place)).step
      schedule[place] = .ok (reached setup wheels (schedule.take (place + 1)), events) :=
    sound.step_at within
  obtain ⟨waits, raised, ends⟩ := (step_transition moved).start
    (underWay_reached setup wheels (schedule.take place))
    (poised_reached setup wheels (schedule.take place)) idle started
  obtain ⟨asked, _, asks, always, signalled⟩ :=
    (awaiting_of_sound within.le sound.of_take_succ).waits waits
  obtain ⟨press, later, ahead, edge⟩ := signalled raised
  exact ⟨within, ⟨press, asked, asks, later, ahead, edge, always⟩, ends⟩

/-- The press of a later start is later, for the wait that it ends began behind the earlier start. -/
theorem press_lt_of_start {asked press place askedLater pressLater later : Nat}
    (first : PressedWithin setup wheels schedule asked press place)
    (second : PressedWithin setup wheels schedule askedLater pressLater later)
    (starts : StartsAt setup wheels schedule place) (before : place < later) :
    press < pressLater := by
  have ends := (pressed_of_start starts).2.2
  have begun : place + 1 ≤ askedLater := by
    by_contra early
    -- A wait that began before the earlier start would have gone on past it.
    exact ends (second.waits (place + 1) (by omega) (by omega))
  have ahead := first.ahead
  have behind := second.behind
  omega

end Places

/-- Every start of a run has a press of its own, sampled within the wait that the start ends. So
there are no more starts than presses. -/
theorem starts_of_presses [WheelDrive W] (setup : Setup) (wheels : W) (schedule : List (Move W)) :
    (∃ press : Nat → Nat,
      Set.InjOn press {place | StartsAt setup wheels schedule place} ∧
        ∀ place, StartsAt setup wheels schedule place → place < schedule.length ∧
          ∃ asked, PressedWithin setup wheels schedule asked (press place) place) ∧
      ((Finset.range schedule.length).filter (StartsAt setup wheels schedule)).card ≤
        ((Finset.range schedule.length).filter (PressAt schedule)).card := by
  have matched : ∀ place, ∃ press, StartsAt setup wheels schedule place →
      ∃ asked, PressedWithin setup wheels schedule asked press place := by
    intro place
    by_cases starts : StartsAt setup wheels schedule place
    · obtain ⟨_, ⟨press, within⟩, _⟩ := pressed_of_start starts
      exact ⟨press, fun _ => within⟩
    · exact ⟨0, fun other => absurd other starts⟩
  choose press within using matched
  -- The presses come in the order of their starts, so no two starts share one.
  have injective : Set.InjOn press {place | StartsAt setup wheels schedule place} := by
    intro place starts later startsLater same
    obtain ⟨asked, first⟩ := within place starts
    obtain ⟨askedLater, second⟩ := within later startsLater
    rcases lt_trichotomy place later with before | equal | behind
    · exact absurd same (press_lt_of_start first second starts before).ne
    · exact equal
    · exact absurd same.symm (press_lt_of_start second first startsLater behind).ne
  refine ⟨⟨press, injective, fun place starts => ⟨(pressed_of_start starts).1,
    within place starts⟩⟩, Finset.card_le_card_of_injOn press ?_ ?_⟩
  · intro place member
    obtain ⟨asked, found⟩ := within place (Finset.mem_filter.mp member).2
    exact Finset.mem_filter.mpr ⟨Finset.mem_range.mpr found.pressed.lt, found.pressed⟩
  · intro place member later memberLater
    exact injective (Finset.mem_filter.mp member).2 (Finset.mem_filter.mp memberLater).2

/-- The first run starts at its fourth move, with the press right before it. -/
example : StartsAt {} (.new {}) firstDrive 3 ∧ PressAt firstDrive 2 := by decide +kernel

end Mecanum.Robot.Crew
