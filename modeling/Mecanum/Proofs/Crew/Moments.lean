import Mecanum.Proofs.Crew.Transition
import Mecanum.Proofs.Motion.Period

/-!
# The moments of a run

A run is cut at one of its moves: what comes before the move, the move itself, and what comes
behind it. Up to the first fault the run of two schedules in a row is the run of the second from
where the first has led. A move of the devices or of the mission also bears on what the devices
leave for the mission, the start signal, the request for a new zero and the queue of tokens, and
`Supply` says how.
-/
namespace Mecanum.Robot.Crew

open Mission (Errand)
open Motion (WheelDrive)

variable {W : Type}

/-! ### Schedules in a row -/

section Schedules

variable [WheelDrive W]

/-- Whether no move of a schedule faults. -/
def Sound (crew : Crew W) : List (Move W) → Prop
  | [] => True
  | move :: rest => ∃ next events, crew.step move = .ok (next, events) ∧ next.Sound rest

/-- Whatever is behind a schedule without a fault goes on where the schedule has led. -/
theorem Sound.run_append {crew : Crew W} {first : List (Move W)} (sound : crew.Sound first)
    (later : List (Move W)) :
    crew.run (first ++ later) = (((crew.run first).1.run later).1,
      (crew.run first).2 ++ ((crew.run first).1.run later).2) := by
  induction first generalizing crew with
  | nil => rfl
  | cons move rest ih =>
    obtain ⟨next, events, moved, onward⟩ := sound
    simp only [List.cons_append, run, moved, ih onward, List.append_assoc]

/-- Behind a fault nothing is done. -/
theorem run_append_of_fault {crew : Crew W} {first : List (Move W)} (faulty : ¬crew.Sound first)
    (later : List (Move W)) : crew.run (first ++ later) = crew.run first := by
  induction first generalizing crew with
  | nil => exact absurd trivial faulty
  | cons move rest ih =>
    rw [List.cons_append, run, run]
    cases moved : crew.step move with
    | error fault => rfl
    | ok result =>
      have onward : ¬result.1.Sound rest := fun sound => faulty ⟨_, _, moved, sound⟩
      simp only [ih onward]

/-- A schedule is free of faults exactly if both of its parts are. -/
theorem sound_append_iff {crew : Crew W} {first later : List (Move W)} :
    crew.Sound (first ++ later) ↔ crew.Sound first ∧ (crew.run first).1.Sound later := by
  induction first generalizing crew with
  | nil => exact ⟨fun sound => ⟨trivial, sound⟩, fun both => both.2⟩
  | cons move rest ih =>
    constructor
    · rintro ⟨next, events, moved, onward⟩
      obtain ⟨front, back⟩ := ih.mp onward
      exact ⟨⟨next, events, moved, front⟩, by simpa only [run, moved] using back⟩
    · rintro ⟨⟨next, events, moved, front⟩, back⟩
      simp only [run, moved] at back
      exact ⟨next, events, moved, ih.mpr ⟨front, back⟩⟩

/-- The run up to a place has no fault if the run one place further has none. -/
theorem Sound.of_take_succ {crew : Crew W} {schedule : List (Move W)} {place : Nat}
    (sound : crew.Sound (schedule.take (place + 1))) : crew.Sound (schedule.take place) := by
  rw [List.take_add_one] at sound
  exact (sound_append_iff.mp sound).1

/-- A move that is made takes the run one place further. -/
theorem Sound.step_at {crew : Crew W} {schedule : List (Move W)} {place : Nat}
    (sound : crew.Sound (schedule.take (place + 1))) (within : place < schedule.length) :
    ∃ events, (crew.run (schedule.take place)).1.step schedule[place] =
      .ok ((crew.run (schedule.take (place + 1))).1, events) := by
  rw [List.take_add_one, List.getElem?_eq_getElem within, Option.toList_some] at sound ⊢
  obtain ⟨front, next, events, moved, _⟩ := sound_append_iff.mp sound
  exact ⟨events, by rw [front.run_append]; simp [run, moved]⟩

/-- A place where anything happens has a move that is made. -/
theorem sound_of_run_ne {crew : Crew W} {schedule : List (Move W)} {place : Nat}
    (changed : crew.run (schedule.take (place + 1)) ≠ crew.run (schedule.take place)) :
    place < schedule.length ∧ crew.Sound (schedule.take (place + 1)) := by
  have within : place < schedule.length := by
    by_contra beyond
    rw [List.take_of_length_le (by omega), List.take_of_length_le (by omega)] at changed
    exact changed rfl
  refine ⟨within, ?_⟩
  rw [List.take_add_one, List.getElem?_eq_getElem within, Option.toList_some] at changed ⊢
  -- Neither a fault before the move nor one of the move changes anything.
  by_cases front : crew.Sound (schedule.take place)
  · rw [front.run_append] at changed
    refine sound_append_iff.mpr ⟨front, ?_⟩
    cases moved : (crew.run (schedule.take place)).1.step schedule[place] with
    | error fault => simp [run, moved] at changed
    | ok result => exact ⟨result.1, result.2, moved, trivial⟩
  · exact absurd (run_append_of_fault front _) changed

/-- What every move keeps, a run keeps. -/
theorem run_keeps (inv : Crew W → List Event → Prop)
    (kept : ∀ {crew move next history events}, inv crew history →
      crew.step move = .ok (next, events) → inv next (history ++ events))
    {crew : Crew W} {earlier : List Event} (initial : inv crew earlier) (schedule : List (Move W)) :
    inv (crew.run schedule).1 (earlier ++ (crew.run schedule).2) := by
  induction schedule generalizing crew earlier with
  | nil => simpa [run] using initial
  | cons move rest ih =>
    simp only [run]
    cases moved : crew.step move with
    | error fault => simpa using initial
    | ok result =>
      have later := ih (kept initial moved)
      rwa [List.append_assoc] at later

/-- What the steps of the runner keep holds of the runner of every crew. -/
theorem runner_invariant {inv : Mission.Runner → Prop}
    (entered : ∀ {runner progress}, inv runner → runner.enter = .ok progress → inv progress.runner)
    (replied : ∀ {runner reply progress}, inv runner → runner.reply reply = .ok progress →
      inv progress.runner)
    {setup : Setup} (initial : inv (.new setup.mission)) (wheels : W) (schedule : List (Move W)) :
    inv (reached setup wheels schedule).runner := by
  have kept {crew next : Crew W} {events : List Event} (holds : inv crew.runner)
      (transition : Transition crew next events) : inv next.runner := by
    cases transition with
    | enter _ _ made => exact entered holds made
    | ended _ _ resumed => exact replied holds resumed
    | wake _ resumed => exact replied holds resumed
    | expire _ _ resumed => exact replied holds resumed
    | aside aside => exact aside.runner ▸ holds
    | _ => exact holds
  exact @run_invariant W _ (fun crew _ => inv crew.runner) (fun holds => kept holds)
    (new setup wheels) [] initial schedule

/-- An event of a run belongs to one of its moves. -/
theorem run_at_event {crew : Crew W} {schedule : List (Move W)} {front back : List Event}
    {event : Event} (split : (crew.run schedule).2 = front ++ event :: back) :
    ∃ (first : List (Move W)) (move : Move W) (rest : List (Move W)) (next : Crew W)
        (early late : List Event),
      crew.Sound first ∧ (crew.run first).1.step move = .ok (next, early ++ event :: late) ∧
        front = (crew.run first).2 ++ early ∧ back = late ++ (next.run rest).2 := by
  induction schedule generalizing crew front with
  | nil => simp [run] at split
  | cons move rest ih =>
    cases moved : crew.step move with
    | error fault => simp [run, moved] at split
    | ok result =>
      obtain ⟨next, events⟩ := result
      simp only [run, moved] at split
      -- The event is among those of the first move, or the rest of the run has it.
      have onward {between : List Event} (behind : (next.run rest).2 = between ++ event :: back)
          (same : front = events ++ between) :
          ∃ (first : List (Move W)) (move : Move W) (rest : List (Move W)) (next : Crew W)
              (early late : List Event),
            crew.Sound first ∧ (crew.run first).1.step move = .ok (next, early ++ event :: late) ∧
              front = (crew.run first).2 ++ early ∧ back = late ++ (next.run rest).2 := by
        obtain ⟨first, present, later, last, early, late, sound, made, rfl, rfl⟩ := ih behind
        exact ⟨move :: first, present, later, last, early, late, ⟨next, events, moved, sound⟩,
          by simpa only [run, moved] using made, by simp only [run, moved, same, List.append_assoc],
          rfl⟩
      rcases List.append_eq_append_iff.mp split with ⟨middle, rfl, behind⟩ | ⟨middle, rfl, behind⟩
      · exact onward behind rfl
      · rcases List.cons_eq_append_iff.mp behind with ⟨rfl, behind⟩ | ⟨late, rfl, rfl⟩
        · have start : (next.run rest).2 = [] ++ event :: back := behind.symm
          exact onward start (by simp)
        · exact ⟨[], move, rest, next, front, late, trivial, moved, by simp [run], rfl⟩

end Schedules

/-! ### What the devices leave for the mission -/

/-- The start signal, the request for a new zero, and the tokens. -/
def supplies (shared : Shared.State) :
    Shared.Signal Unit × Shared.Signal Unit × Shared.TokenQueue :=
  (shared.missionStart, shared.heading.rezero, shared.tokens)

/-- Whether an event bears on the start signal, the request for a new zero or the tokens. -/
def Event.bears : Event → Bool
  | called .rezero | replied (.token _) | headed .. | framed _ | pressed => true
  | _ => false

/-- The events of an operation of an errand, behind the call that it may begin. -/
inductive Behind (errand : Errand) : Errand.Step → List Event → Prop where
  | blocked {next : Errand} {shared : Shared.State} : Behind errand (.blocked next shared) []
  | moved {next : Errand} {shared : Shared.State} :
      Behind errand (.moved next shared) (requestsOf errand)
  | ended {reply : Mission.Reply} {shared : Shared.State} {progress : Mission.Progress} :
      Behind errand (.over reply shared) (.replied reply :: endings progress)

/-- The sample of the start button that a move takes. -/
def Move.sample? : Move W → Option Reading
  | .button reading => some reading
  | _ => none

/-- How a move bears on what the devices leave for the mission. -/
inductive Supply (crew : Crew W) : Move W → Crew W → List Event → Prop where
  | operation {next : Crew W} {opening behind : List Event} {errand : Errand}
      (begun : Begun crew opening errand) (left : Behind errand (errand.step crew.shared) behind)
      (shared : next.shared = (errand.step crew.shared).shared)
      (button : next.button = crew.button) : Supply crew .mission next (opening ++ behind)
  | sample {next : Crew W} (reading : Reading)
      (shared : next.shared =
        if (crew.button.poll reading).1 then crew.shared.signalStart else crew.shared)
      (button : next.button = (crew.button.poll reading).2) :
      Supply crew (.button reading) next (if (crew.button.poll reading).1 then [.pressed] else [])
  | headed {next : Crew W} {snapshot : Heading.Snapshot}
      (start : next.shared.missionStart = crew.shared.missionStart)
      (heading : next.shared.heading = ⟨snapshot, .empty⟩)
      (tokens : next.shared.tokens = crew.shared.tokens) (button : next.button = crew.button) :
      Supply crew (.intake .inertial) next [.headed snapshot crew.shared.heading.rezero.isRaised]
  | framed {next : Crew W} {token : Scanner.Token}
      (start : next.shared.missionStart = crew.shared.missionStart)
      (heading : next.shared.heading = crew.shared.heading)
      (tokens : next.shared.tokens = (crew.shared.tokens.push? token).getD crew.shared.tokens)
      (button : next.button = crew.button) : Supply crew (.intake .scanner) next [.framed token]
  | apart {move : Move W} {next : Crew W} {events : List Event}
      (unread : move.sample? = none)
      (same : supplies next.shared = supplies crew.shared) (button : next.button = crew.button)
      (aside : ∀ event ∈ events, event.bears = false) : Supply crew move next events

theorem bears_endings (progress : Mission.Progress) :
    ∀ event ∈ endings progress, event.bears = false :=
  forall_endings (fun _ => rfl) progress

private theorem operate_supply {crew next : Crew W} {opening events : List Event}
    {errand : Errand} (begun : Begun crew opening errand)
    (moved : crew.operate opening errand = .ok (next, events)) :
    Supply crew .mission next events := by
  unfold operate at moved
  split at moved
  next next shared stepped =>
    cases moved
    have left : Behind errand (errand.step crew.shared) [] := stepped ▸ .blocked
    have shared_eq : shared = (errand.step crew.shared).shared := by rw [stepped]; rfl
    rw [← List.append_nil opening]
    exact .operation begun left shared_eq rfl
  next shared stepped =>
    cases moved
    exact .operation begun (stepped ▸ .moved) (by rw [stepped]; rfl) rfl
  next reply shared stepped =>
    obtain ⟨progress, resumed, produced⟩ := bind_eq_ok_iff.mp moved
    cases produced
    exact .operation begun (stepped ▸ .ended) (by rw [stepped]; rfl) rfl

/-- An operation of the mission bears on the supplies as its errand does. -/
private theorem stepMission_supply {crew next : Crew W} {events : List Event}
    (moved : crew.stepMission = .ok (next, events)) : Supply crew .mission next events := by
  unfold stepMission at moved
  split at moved
  next pending =>
    obtain ⟨progress, resumed, produced⟩ := bind_eq_ok_iff.mp moved
    cases produced
    exact .apart rfl rfl rfl (List.forall_mem_cons.mpr ⟨rfl, bears_endings progress⟩)
  next pending => exact operate_supply (.again pending) moved
  next free =>
    split at moved
    next resting =>
      obtain ⟨progress, entered, produced⟩ := bind_eq_ok_iff.mp moved
      cases produced
      exact .apart rfl rfl rfl (List.forall_mem_cons.mpr ⟨rfl, bears_endings progress⟩)
    next call waiting =>
      split at moved
      next made => exact operate_supply (.first free waiting made) moved
      next made =>
        obtain ⟨ms, rfl⟩ := Errand.ofCall?_eq_none made
        cases moved
        exact .apart rfl rfl rfl (List.forall_mem_singleton.mpr rfl)

private theorem supplies_period [WheelDrive W] {loop : Motion.Loop W} {shared : Shared.State}
    {step : Motion.Loop.Step W} (stepped : loop.step shared = .ok step) :
    supplies step.shared = supplies shared := by
  obtain ⟨tick, _, _, _, _, produced⟩ := Motion.Loop.step_ok stepped
  rw [produced]
  split <;> rfl

private theorem supplies_arm {task next : ArmTask} {shared behind : Shared.State}
    {entry : Option Arm.Entry} (stepped : ArmTask.Stepped task shared next behind entry) :
    supplies behind = supplies shared := by
  cases stepped with
  | finishing => split <;> rfl
  | _ => rfl

/-- An angle packet publishes a heading and honours the request; any other byte leaves both. -/
theorem feed_cases (provider : Heading.Provider) (byte : UInt8) (cell : Shared.HeadingCell) :
    (∃ snapshot, (provider.feed byte cell).published = some snapshot ∧
        (provider.feed byte cell).cell = ⟨snapshot, .empty⟩) ∨
      (provider.feed byte cell).published = none ∧ (provider.feed byte cell).cell = cell := by
  unfold Heading.Provider.feed
  split
  · exact .inl ⟨_, rfl, rfl⟩
  · exact .inr ⟨rfl, rfl⟩

/-- A token that a byte completes goes to the queue if it has room; any other byte leaves it. -/
theorem intake_cases (framer : Scanner.Framer) (byte : UInt8) (tokens : Shared.TokenQueue) :
    (∃ token, (Scanner.Intake.feed framer byte tokens).framed = some token ∧
        (Scanner.Intake.feed framer byte tokens).tokens = (tokens.push? token).getD tokens) ∨
      (Scanner.Intake.feed framer byte tokens).framed = none ∧
        (Scanner.Intake.feed framer byte tokens).tokens = tokens := by
  unfold Scanner.Intake.feed
  split
  · exact .inr ⟨rfl, rfl⟩
  · split
    next pushed => exact .inl ⟨_, rfl, by rw [pushed]; rfl⟩
    next refused => exact .inl ⟨_, rfl, by rw [refused]; rfl⟩

/-- A byte taken in publishes a heading, frames a token, or leaves the supplies alone. -/
private theorem intake_supply (crew : Crew W) (port : Port) :
    Supply crew (.intake port) (crew.intake port).1 (crew.intake port).2 := by
  cases port with
  | inertial =>
    simp only [intake, takeInertial]
    split
    next => exact .apart rfl rfl rfl (List.forall_mem_nil _)
    next byte rest _ =>
      obtain ⟨snapshot, published, cell⟩ | ⟨silent, cell⟩ :=
        feed_cases crew.provider byte crew.shared.heading
      · simp only [published, cell]
        exact .headed rfl rfl rfl rfl
      · simp only [silent, cell]
        exact .apart rfl rfl rfl (List.forall_mem_nil _)
  | camera =>
    simp only [intake, takeCamera]
    split
    next => exact .apart rfl rfl rfl (List.forall_mem_nil _)
    next =>
      split
      · exact .apart rfl rfl rfl (List.forall_mem_nil _)
      · exact .apart rfl rfl rfl (List.forall_mem_singleton.mpr rfl)
  | scanner =>
    simp only [intake, takeScanner]
    split
    next => exact .apart rfl rfl rfl (List.forall_mem_nil _)
    next byte rest _ =>
      obtain ⟨token, framed, tokens⟩ | ⟨unfinished, tokens⟩ :=
        intake_cases crew.framer byte crew.shared.tokens
      · simp only [framed, tokens]
        exact .framed rfl rfl rfl rfl
      · simp only [unfinished, tokens]
        exact .apart rfl rfl rfl (List.forall_mem_nil _)

/-- Every move bears on the supplies in one of the ways told. -/
theorem step_supply [WheelDrive W] {crew next : Crew W} {move : Move W} {events : List Event}
    (moved : crew.step move = .ok (next, events)) : Supply crew move next events := by
  cases move with
  | mission => exact stepMission_supply moved
  | watchdog =>
    simp only [step, stepWatchdog] at moved
    split at moved
    next =>
      obtain ⟨progress, resumed, produced⟩ := bind_eq_ok_iff.mp moved
      cases produced
      exact .apart rfl rfl rfl (List.forall_mem_cons.mpr ⟨rfl, bears_endings progress⟩)
    next =>
      cases moved
      exact .apart rfl rfl rfl (List.forall_mem_nil _)
  | motion =>
    obtain ⟨step, stepped, produced⟩ := bind_eq_ok_iff.mp moved
    cases produced
    exact .apart rfl (supplies_period stepped) rfl (List.forall_mem_singleton.mpr rfl)
  | arm now body pulses =>
    obtain ⟨step, stepped, produced⟩ := bind_eq_ok_iff.mp moved
    cases produced
    exact .apart rfl (supplies_arm (ArmTask.step_stepped stepped)) rfl
      (forall_serve (fun _ => rfl) (fun _ => rfl) (fun _ => rfl) crew step.entry step.task)
  | intake port =>
    have supply := intake_supply crew port
    rw [Except.ok.inj moved] at supply
    exact supply
  | button reading =>
    cases moved
    have shared : (crew.sampleButton reading).1.shared =
        if (crew.button.poll reading).1 then crew.shared.signalStart else crew.shared := by
      unfold sampleButton StartTask.sample
      rcases crew.button.poll reading with ⟨pressed, button⟩
      cases pressed <;> rfl
    have button : (crew.sampleButton reading).1.button = (crew.button.poll reading).2 := by
      unfold sampleButton StartTask.sample
      rcases crew.button.poll reading with ⟨pressed, button⟩
      cases pressed <;> rfl
    exact .sample reading shared button
  | arrival port byte =>
    cases moved
    refine .apart rfl ?_ rfl (List.forall_mem_nil _)
    cases port <;> rfl
  | wheels wheels =>
    cases moved
    exact .apart rfl rfl rfl (List.forall_mem_nil _)
  | heading snapshot =>
    cases moved
    exact .apart rfl rfl rfl (List.forall_mem_nil _)

end Mecanum.Robot.Crew
