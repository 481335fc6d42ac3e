import Mecanum.Proofs.Crew.Chassis
import Mecanum.Proofs.Crew.Moments
import Mecanum.Proofs.Mission.Opening

/-!
# New zeros of the heading

Every run asks for a new zero before it drives, but the request only leaves a note for the heading
provider, which honours it with the next heading that it publishes; nobody waits for that. So the
commands of a run are all carried out in one frame of headings exactly if a heading comes in between
the request and the first of them. Otherwise a command may be picked up in the old frame, and the
new zero falls into the middle of it.
-/
namespace Mecanum.Robot.Crew

open Mission (Errand)
open Motion (Command Loop WheelDrive)

variable {W : Type}

/-! ### Latches over histories -/

/-- Whether a history holds an event that sets a latch, and behind it none that clears it. -/
def latched (sets clears : Event → Bool) (history : List Event) : Bool :=
  history.foldl (fun on event => sets event || on && !clears event) false

section Latches

variable {sets clears : Event → Bool}

theorem latched_concat (history : List Event) (event : Event) :
    latched sets clears (history ++ [event]) =
      (sets event || latched sets clears history && !clears event) := by
  simp [latched]

/-- A latch is set exactly if something has set it and nothing since has cleared it. -/
theorem latched_iff {history : List Event} :
    latched sets clears history = true ↔ ∃ before event since,
      history = before ++ event :: since ∧ sets event = true ∧
        ∀ later ∈ since, sets later = false ∧ clears later = false := by
  induction history using List.reverseRecOn with
  | nil => simp [latched]
  | append_singleton earlier event ih =>
    rw [latched_concat]
    cases setting : sets event with
    | true => exact iff_of_true rfl ⟨earlier, event, [], rfl, setting, List.forall_mem_nil _⟩
    | false =>
      rw [Bool.false_or, Bool.and_eq_true, ih, Bool.not_eq_true']
      constructor
      · rintro ⟨⟨before, first, since, rfl, set, quiet⟩, kept⟩
        refine ⟨before, first, since ++ [event], by simp, set, ?_⟩
        exact List.forall_mem_append.mpr ⟨quiet, List.forall_mem_singleton.mpr ⟨setting, kept⟩⟩
      · rintro ⟨before, first, since, split, set, quiet⟩
        -- The last event does not set the latch, so it is behind the one that does.
        rcases List.eq_nil_or_concat since with rfl | ⟨others, last, rfl⟩
        · obtain ⟨rfl, same⟩ := List.append_inj' split rfl
          cases same
          rw [set] at setting
          cases setting
        · rw [List.concat_eq_append, ← List.cons_append, ← List.append_assoc] at split
          obtain ⟨rfl, same⟩ := List.append_inj' split rfl
          cases same
          obtain ⟨quiet, final⟩ := List.forall_mem_append.mp (List.concat_eq_append ▸ quiet)
          exact ⟨⟨before, first, others, rfl, set, quiet⟩, (final event List.mem_cons_self).2⟩

/-- Events that do not set a latch leave it set exactly if none of them clears it. -/
theorem latched_append_iff {history events : List Event}
    (unset : ∀ event ∈ events, sets event = false) :
    latched sets clears (history ++ events) = true ↔
      latched sets clears history = true ∧ ∀ event ∈ events, clears event = false := by
  induction events using List.reverseRecOn with
  | nil => simp
  | append_singleton earlier event ih =>
    rw [← List.append_assoc, latched_concat, unset event List.mem_concat_self, Bool.false_or,
      Bool.and_eq_true, ih fun other member => unset other (List.mem_append_left _ member),
      Bool.not_eq_true', and_assoc, List.forall_mem_append, List.forall_mem_singleton]

/-- Events that do not clear a latch leave it set. -/
theorem latched_append {history events : List Event} (on : latched sets clears history = true)
    (kept : ∀ event ∈ events, clears event = false) :
    latched sets clears (history ++ events) = true := by
  induction events using List.reverseRecOn with
  | nil => rwa [List.append_nil]
  | append_singleton earlier event ih =>
    rw [← List.append_assoc, latched_concat,
      ih fun other member => kept other (List.mem_append_left _ member),
      kept event List.mem_concat_self]
    exact Bool.or_true _

theorem latched_aside {events : List Event}
    (aside : ∀ event ∈ events, sets event = false ∧ clears event = false) (history : List Event) :
    latched sets clears (history ++ events) = latched sets clears history := by
  rw [Bool.eq_iff_iff, latched_append_iff fun event member => (aside event member).1]
  exact and_iff_left fun event member => (aside event member).2

end Latches

namespace Event

/-- Whether the mission asks for a new zero. -/
def asksZero : Event → Bool
  | called .rezero => true
  | _ => false

/-- Whether a heading is published, measured from a new zero or not. -/
def isHeaded : Event → Bool
  | headed .. => true
  | _ => false

/-- Whether a heading measured from a new zero is published. -/
def isZeroed : Event → Bool
  | headed _ zeroed => zeroed
  | _ => false

/-- Whether the mission is at the beginning of a run. -/
def isIdle : Event → Bool
  | entered .idle _ => true
  | _ => false

end Event

/-! ### The request -/

/-- Whether a new zero has been asked for and no heading published since. -/
def zeroDue (history : List Event) : Bool := latched Event.asksZero Event.isHeaded history

/-- The request is over as soon as it is made, so nobody is ever in the middle of it. -/
theorem Transition.pending_ne_rezero [WheelDrive W] {crew next : Crew W} {events : List Event}
    (transition : Transition crew next events) (apart : crew.pending ≠ some (.errand .rezero)) :
    next.pending ≠ some (.errand .rezero) := by
  cases transition with
  | pause => nofun
  | blocked begun stepped =>
    rintro ⟨⟩
    cases Errand.stepped_of_step stepped
  | moved begun stepped =>
    rintro ⟨⟩
    cases Errand.stepped_of_step stepped
  | ended => nofun
  | wake => nofun
  | expire => nofun
  | aside aside => rwa [aside.pending]
  | _ => exact apart

/-- Only the request for a new zero touches the shared heading. -/
theorem heading_step {errand : Errand} (apart : errand ≠ .rezero) (shared : Shared.State) :
    (errand.step shared).shared.heading = shared.heading := by
  have way := errand.step_stepped shared
  generalize errand.step shared = result at way ⊢
  cases way <;> first | rfl | exact absurd rfl apart

private theorem quiet_endings (progress : Mission.Progress) : ∀ event ∈ endings progress,
    event.asksZero = false ∧ event.isHeaded = false :=
  forall_endings (fun _ => ⟨rfl, rfl⟩) progress

private theorem Behind.quiet {errand : Errand} {step : Errand.Step} {events : List Event}
    (behind : Behind errand step events) : ∀ event ∈ events,
      event.asksZero = false ∧ event.isHeaded = false := by
  cases behind with
  | blocked => exact List.forall_mem_nil _
  | moved => exact forall_requestsOf (fun _ => ⟨rfl, rfl⟩) errand
  | ended => exact List.forall_mem_cons.mpr ⟨⟨rfl, rfl⟩, quiet_endings _⟩

private theorem quiet_of_bears {event : Event} (aside : event.bears = false) :
    event.asksZero = false ∧ event.isHeaded = false := by
  cases event with
  | called call => cases call <;> first | exact ⟨rfl, rfl⟩ | cases aside
  | headed => cases aside
  | _ => exact ⟨rfl, rfl⟩

/-- A call for a new zero begins with its only operation. -/
theorem Begun.eq_rezero {crew : Crew W} {opening : List Event} {errand : Errand}
    (begun : Begun crew opening errand) (asks : errand.call = .rezero)
    (apart : crew.pending ≠ some (.errand .rezero)) :
    opening = [.called .rezero] ∧ errand = .rezero := by
  cases begun with
  | first free waiting made =>
    rw [Errand.call_of_ofCall? made] at asks
    subst asks
    cases made
    exact ⟨rfl, rfl⟩
  | again pending =>
    cases errand <;> first | exact absurd pending apart | cases asks

private theorem Begun.quiet {crew : Crew W} {opening : List Event} {errand : Errand}
    (begun : Begun crew opening errand) (apart : errand ≠ .rezero) : ∀ event ∈ opening,
      event.asksZero = false ∧ event.isHeaded = false := by
  cases begun with
  | again => exact List.forall_mem_nil _
  | @first call _ _ _ made =>
    refine List.forall_mem_singleton.mpr ⟨?_, rfl⟩
    cases call <;> first | rfl | (cases made; exact absurd rfl apart)

/-- The note for the heading provider says whether a new zero is due. -/
theorem Supply.zeroDue {crew next : Crew W} {move : Move W} {history events : List Event}
    (supply : Supply crew move next events) (apart : crew.pending ≠ some (.errand .rezero))
    (raised : crew.shared.heading.rezero.isRaised = zeroDue history) :
    next.shared.heading.rezero.isRaised = Crew.zeroDue (history ++ events) := by
  have aside (same : next.shared.heading.rezero = crew.shared.heading.rezero)
      (quiet : ∀ event ∈ events, event.asksZero = false ∧ event.isHeaded = false) :
      next.shared.heading.rezero.isRaised = Crew.zeroDue (history ++ events) := by
    rw [same, raised, Crew.zeroDue, Crew.zeroDue, latched_aside quiet]
  cases supply with
  | @operation _ opening behind errand begun left shared =>
    by_cases asks : errand = .rezero
    · obtain ⟨rfl, _⟩ := begun.eq_rezero (by rw [asks]; rfl) apart
      rw [shared, asks, Crew.zeroDue, ← List.append_assoc, latched_aside left.quiet, latched_concat]
      rfl
    · refine aside (by rw [shared, heading_step asks]) ?_
      exact List.forall_mem_append.mpr ⟨begun.quiet asks, left.quiet⟩
  | sample reading shared =>
    refine aside (by rw [shared]; split <;> rfl) ?_
    split
    · exact List.forall_mem_singleton.mpr ⟨rfl, rfl⟩
    · exact List.forall_mem_nil _
  | headed _ heading =>
    rw [heading, Crew.zeroDue, latched_concat]
    simp [Event.asksZero, Event.isHeaded, Shared.Signal.isRaised, Shared.Signal.empty]
  | framed _ heading => exact aside (by rw [heading]) (List.forall_mem_singleton.mpr ⟨rfl, rfl⟩)
  | apart _ same _ quiet =>
    have rezero : next.shared.heading.rezero = crew.shared.heading.rezero :=
      congrArg (fun supplied => supplied.2.1) same
    exact aside rezero fun event member => quiet_of_bears (quiet event member)

/-- The note for the heading provider, as the history has it. -/
structure Noted (crew : Crew W) (history : List Event) : Prop where
  apart : crew.pending ≠ some (.errand .rezero)
  raised : crew.shared.heading.rezero.isRaised = zeroDue history

theorem noted_reached [WheelDrive W] (setup : Setup) (wheels : W) (schedule : List (Move W)) :
    Noted (reached setup wheels schedule) (history setup wheels schedule) :=
  @run_keeps W _ Noted
    (fun noted moved => ⟨(step_transition moved).pending_ne_rezero noted.apart,
      (step_supply moved).zeroDue noted.apart noted.raised⟩)
    (new setup wheels) [] ⟨nofun, rfl⟩ schedule

/-- A heading is measured from a new zero exactly if one was due. -/
theorem zeroed_eq_zeroDue [WheelDrive W] {setup : Setup} {wheels : W} {schedule : List (Move W)}
    {front back : List Event} {snapshot : Heading.Snapshot} {zeroed : Bool}
    (split : history setup wheels schedule = front ++ .headed snapshot zeroed :: back) :
    zeroed = zeroDue front := by
  obtain ⟨first, move, rest, next, early, late, _, moved, rfl, _⟩ := run_at_event split
  have noted := noted_reached setup wheels first
  have supply := step_supply moved
  generalize same : early ++ .headed snapshot zeroed :: late = events at supply
  have member : .headed snapshot zeroed ∈ events := same ▸ List.mem_append_cons_self
  cases supply with
  | @operation _ opening behind errand begun left =>
    rcases List.mem_append.mp member with opened | behind
    · cases begun.forall_opening (p := fun event => event.isHeaded = false) (fun _ => rfl) _ opened
    · cases (left.quiet _ behind).2
  | sample => split at member <;> simp at member
  | headed =>
    rcases List.append_eq_singleton_iff.mp same with ⟨rfl, behind⟩ | ⟨_, behind⟩
    · cases behind
      rw [List.append_nil]
      exact noted.raised
    · cases behind
  | framed => simp at member
  | apart _ _ _ quiet => cases quiet _ member

section Zeroes

variable [WheelDrive W] {setup : Setup} {wheels : W} {schedule : List (Move W)}
  {before since back : List Event}

/-- The first heading behind a request is measured from a new zero, and no other until the next. -/
theorem zeroed_iff_first {snapshot : Heading.Snapshot} {zeroed : Bool}
    (split : history setup wheels schedule =
      before ++ .called .rezero :: since ++ .headed snapshot zeroed :: back)
    (unasked : ∀ event ∈ since, event.asksZero = false) :
    zeroed = true ↔ ∀ event ∈ since, event.isHeaded = false := by
  have due : zeroDue (before ++ [.called .rezero]) = true := by
    rw [zeroDue, latched_concat]
    rfl
  rw [zeroed_eq_zeroDue split, zeroDue, List.append_cons, latched_append_iff unasked]
  exact and_iff_right due

/-- If a heading comes in within a stretch behind a request, one from a new zero does, unless there
has been a heading before. -/
theorem zeroed_in_stretch {stretch : List Event}
    (split : history setup wheels schedule = before ++ .called .rezero :: since ++ stretch ++ back)
    (unasked : ∀ event ∈ since ++ stretch, event.asksZero = false) :
    (∃ event ∈ stretch, event.isZeroed = true) ↔
      (∀ event ∈ since, event.isHeaded = false) ∧ ∃ event ∈ stretch, event.isHeaded = true := by
  have first {early late : List Event} {snapshot : Heading.Snapshot} {zeroed : Bool}
      (inside : stretch = early ++ .headed snapshot zeroed :: late) :
      zeroed = true ↔ ∀ event ∈ since ++ early, event.isHeaded = false := by
    subst inside
    refine zeroed_iff_first (by simpa using split) fun event member => unasked event ?_
    rw [← List.append_assoc]
    exact List.mem_append_left _ member
  constructor
  · rintro ⟨event, member, zeroed⟩
    obtain ⟨early, late, inside⟩ := List.append_of_mem member
    cases event <;> cases zeroed
    have quiet := (first inside).mp rfl
    exact ⟨fun other older => quiet other (List.mem_append_left _ older), _, member, rfl⟩
  · rintro ⟨quiet, event, member, headed⟩
    -- The first heading of the stretch is the one.
    obtain ⟨found, present⟩ := Option.isSome_iff_exists.mp
      (List.find?_isSome.mpr ⟨event, member, headed⟩)
    obtain ⟨isHeaded, early, late, inside, none⟩ := List.find?_eq_some_iff_append.mp present
    refine ⟨found, inside ▸ List.mem_append_cons_self, ?_⟩
    cases found <;> cases isHeaded
    refine (first inside).mpr (List.forall_mem_append.mpr ⟨quiet, fun other older => ?_⟩)
    simpa using none other older

end Zeroes

/-! ### The request of the run under way -/

/-- Whether the run under way has asked for a new zero. -/
def runAsked (history : List Event) : Bool := latched Event.asksZero Event.isIdle history

/-- A runner past the opening of a run has asked for a new zero in that run. -/
def Oriented (crew : Crew W) (history : List Event) : Prop :=
  crew.runner.Opens ∨ runAsked history = true

private theorem isIdle_endings (progress : Mission.Progress) :
    ∀ event ∈ endings progress, event.isIdle = false :=
  forall_endings (fun _ => rfl) progress

private theorem Begun.isIdle {crew : Crew W} {opening : List Event} {errand : Errand}
    (begun : Begun crew opening errand) : ∀ event ∈ opening, event.isIdle = false :=
  begun.forall_opening fun _ => rfl

private theorem isIdle_of_isAside {event : Event} (aside : event.isAside = true) :
    event.isIdle = false := by
  cases event <;> first | rfl | cases aside

/-- Only the entry into the first state forgets a request. -/
theorem Transition.isIdle [WheelDrive W] {crew next : Crew W} {events : List Event}
    (transition : Transition crew next events) :
    (∀ event ∈ events, event.isIdle = false) ∨ next.runner.Opens := by
  cases transition with
  | @enter progress free resting entered =>
    by_cases idle : crew.runner.state = .idle
    · exact .inr (Mission.Runner.enter_opens entered (.inl idle))
    · refine .inl (List.forall_mem_cons.mpr ⟨?_, isIdle_endings progress⟩)
      unfold Event.isIdle
      split
      next same => exact absurd (Event.entered.inj same).1 idle
      next => rfl
  | pause => exact .inl (List.forall_mem_singleton.mpr rfl)
  | blocked begun => exact .inl begun.isIdle
  | @moved _ errand _ _ begun =>
    exact .inl (List.forall_mem_append.mpr ⟨begun.isIdle, forall_requestsOf (fun _ => rfl) errand⟩)
  | ended begun =>
    exact .inl (List.forall_mem_append.mpr ⟨begun.isIdle,
      List.forall_mem_cons.mpr ⟨rfl, isIdle_endings _⟩⟩)
  | wake => exact .inl (List.forall_mem_cons.mpr ⟨rfl, isIdle_endings _⟩)
  | expire => exact .inl (List.forall_mem_cons.mpr ⟨rfl, isIdle_endings _⟩)
  | period => exact .inl (List.forall_mem_singleton.mpr rfl)
  | arm => exact .inl (forall_serve (fun _ => rfl) (fun _ => rfl) (fun _ => rfl) crew _ _)
  | aside aside => exact .inl fun event member => isIdle_of_isAside (aside.events event member)

/-- No transition forgets the request for a new zero before the run is over. -/
theorem Oriented.kept [WheelDrive W] {crew next : Crew W} {history events : List Event}
    (oriented : Oriented crew history) (underWay : UnderWay crew history)
    (apart : crew.pending ≠ some (.errand .rezero)) (transition : Transition crew next events) :
    Oriented next (history ++ events) := by
  rcases oriented with opens | asked
  · cases transition with
    | enter free resting entered =>
      refine .inl (Mission.Runner.enter_opens entered ?_)
      cases opens with
      | idle state => exact .inl state
      | waiting state => exact .inl state
      | started state => exact .inr state
      | asking state => exact .inr state
    | @ended opening errand _ _ _ begun stepped resumed =>
      rcases Mission.Runner.opens_reply opens resumed with still | asking
      · exact .inl still
      · -- The request is made, and with it the run is past its opening.
        rw [(underWay.begun begun).1] at asking
        obtain ⟨rfl, _⟩ := begun.eq_rezero (Option.some.inj asking) apart
        have set : runAsked (history ++ [.called .rezero]) = true := by
          rw [runAsked, latched_concat]
          rfl
        rw [Oriented, ← List.append_assoc]
        exact .inr (latched_append set (List.forall_mem_cons.mpr ⟨rfl, isIdle_endings _⟩))
    | wake pending resumed =>
      obtain ⟨ms, waiting, _⟩ := underWay.pause pending
      rcases opens.eq_of_call? waiting with start | rezero
      · cases start
      · cases rezero
    | expire pending guarded resumed =>
      rw [opens.timeLimit?_eq_none] at guarded
      cases guarded
    | aside aside => exact .inl (aside.runner ▸ opens)
    | _ => exact .inl opens
  · rcases transition.isIdle with kept | opens
    · exact .inr (latched_append asked kept)
    · exact .inl opens

/-- On every schedule a run past its opening has asked for its zero. -/
theorem oriented_reached [WheelDrive W] (setup : Setup) (wheels : W) (schedule : List (Move W)) :
    Oriented (reached setup wheels schedule) (history setup wheels schedule) := by
  have joint := run_invariant
    (fun crew history => UnderWay crew history ∧ crew.pending ≠ some (.errand .rezero) ∧
      Oriented crew history)
    (fun fits transition => ⟨fits.1.kept transition, transition.pending_ne_rezero fits.2.1,
      fits.2.2.kept fits.1 fits.2.1 transition⟩)
    ⟨underWay_new setup wheels, nofun, .inl (.idle rfl rfl)⟩ schedule
  exact joint.2.2

/-! ### The command in force -/

/-- An operation of an errand posts a command or leaves the mailbox alone. -/
theorem command_step (errand : Errand) (shared : Shared.State) :
    (errand.step shared).shared.command = shared.command ∨
      (errand.step shared).shared.command.pending ≠ none := by
  have way := errand.step_stepped shared
  generalize errand.step shared = result at way ⊢
  cases way with
  | drivePosted => exact .inr nofun
  | halted => exact .inr nofun
  | _ => exact .inl rfl

/-- Other moves than control periods post a command or leave the mailbox alone. -/
theorem Transition.mailbox [WheelDrive W] {crew next : Crew W} {events : List Event}
    (transition : Transition crew next events) :
    ((∀ event ∈ events, event.isPeriod = false) ∧
        next.motion.controller = crew.motion.controller ∧
        (next.shared.command = crew.shared.command ∨ next.shared.command.pending ≠ none)) ∨
      ∃ step, crew.motion.step crew.shared = .ok step ∧
        next = { crew with motion := step.loop, shared := step.shared } ∧
        events = [.period crew.shared.command.pending step.outcome] := by
  cases transition with
  | enter =>
    exact .inl ⟨List.forall_mem_cons.mpr ⟨rfl, isPeriod_endings _⟩, rfl, .inl rfl⟩
  | pause => exact .inl ⟨List.forall_mem_singleton.mpr rfl, rfl, .inl rfl⟩
  | @blocked _ errand _ shared begun stepped =>
    have posted := command_step errand crew.shared
    rw [stepped] at posted
    exact .inl ⟨begun.isPeriod, rfl, posted⟩
  | @moved _ errand _ shared begun stepped =>
    have posted := command_step errand crew.shared
    rw [stepped] at posted
    exact .inl ⟨List.forall_mem_append.mpr ⟨begun.isPeriod, isPeriod_requestsOf errand⟩, rfl,
      posted⟩
  | @ended _ errand shared _ _ begun stepped =>
    have posted := command_step errand crew.shared
    rw [stepped] at posted
    exact .inl ⟨List.forall_mem_append.mpr ⟨begun.isPeriod,
      List.forall_mem_cons.mpr ⟨rfl, isPeriod_endings _⟩⟩, rfl, posted⟩
  | wake => exact .inl ⟨List.forall_mem_cons.mpr ⟨rfl, isPeriod_endings _⟩, rfl, .inl rfl⟩
  | expire => exact .inl ⟨List.forall_mem_cons.mpr ⟨rfl, isPeriod_endings _⟩, rfl, .inl rfl⟩
  | period stepped => exact .inr ⟨_, stepped, rfl, rfl⟩
  | arm stepped =>
    exact .inl ⟨isPeriod_serve crew _ _, rfl, .inl (ArmTask.step_stepped stepped).chassis.1⟩
  | aside aside =>
    exact .inl ⟨fun event member => Event.isPeriod_of_isAside (aside.events event member),
      aside.controller, .inl aside.command⟩

/-- A control period tells what it took out of the mailbox, and is a move of its own. -/
theorem Transition.period_taken [WheelDrive W] {crew next : Crew W} {early late : List Event}
    {taken : Option Command} {outcome : Motion.Outcome}
    (transition : Transition crew next (early ++ .period taken outcome :: late)) :
    (early = [] ∧ late = []) ∧ crew.shared.command.pending = taken ∧
      ∃ step, crew.motion.step crew.shared = .ok step ∧ step.outcome = outcome ∧
        next = { crew with motion := step.loop, shared := step.shared } := by
  rcases transition.mailbox with ⟨quiet, _⟩ | ⟨step, stepped, behind, same⟩
  · cases quiet _ List.mem_append_cons_self
  · rcases List.append_eq_singleton_iff.mp same with ⟨rfl, last⟩ | ⟨_, last⟩
    · cases last
      exact ⟨⟨rfl, rfl⟩, rfl, step, stepped, rfl, behind⟩
    · cases last

/-- An operation that begins a call belongs to the errand of that call. -/
theorem Begun.of_called {crew : Crew W} {opening : List Event} {errand : Errand}
    {call : Mission.Call} (begun : Begun crew opening errand) (member : .called call ∈ opening) :
    crew.pending = none ∧ crew.runner.call? = some call ∧ Errand.ofCall? call = some errand := by
  cases begun with
  | again => cases member
  | first free waiting made =>
    cases List.mem_singleton.mp member
    exact ⟨free, waiting, made⟩

/-- A call begins when there is none under way, and one to halt posts a command at once. -/
theorem Transition.called [WheelDrive W] {crew next : Crew W} {events : List Event}
    {call : Mission.Call} (transition : Transition crew next events)
    (member : .called call ∈ events) :
    crew.pending = none ∧ crew.runner.call? = some call ∧
      (call = .halt → next.shared.command.pending ≠ none) := by
  have operated {opening : List Event} {errand : Errand} {step : Errand.Step}
      (begun : Begun crew opening errand) (stepped : errand.step crew.shared = step)
      (member : .called call ∈ opening) :
      crew.pending = none ∧ crew.runner.call? = some call ∧
        (call = .halt → step.shared.command.pending ≠ none) := by
    obtain ⟨free, waiting, made⟩ := begun.of_called member
    refine ⟨free, waiting, fun halt => ?_⟩
    subst halt stepped
    cases made
    exact Option.some_ne_none _
  have untold (reply : Mission.Reply) (progress : Mission.Progress) :
      .called call ∉ .replied reply :: endings progress := by
    intro told
    rcases List.mem_cons.mp told with reply | ending
    · cases reply
    · exact absurd ending (notMem_of_aside rfl (isCall_endings progress))
  cases transition with
  | enter =>
    exact absurd member (notMem_of_aside rfl (List.forall_mem_cons.mpr ⟨rfl, isCall_endings _⟩))
  | pause free waiting =>
    cases List.mem_singleton.mp member
    exact ⟨free, waiting, nofun⟩
  | blocked begun stepped => exact operated begun stepped member
  | @moved _ errand _ _ begun stepped =>
    rcases List.mem_append.mp member with opened | requested
    · exact operated begun stepped opened
    · exact absurd requested (notMem_of_aside rfl (isCall_requestsOf errand))
  | ended begun stepped =>
    rcases List.mem_append.mp member with opened | replied
    · exact operated begun stepped opened
    · exact absurd replied (untold _ _)
  | wake => exact absurd member (untold _ _)
  | expire => exact absurd member (untold _ _)
  | period => exact absurd (List.mem_singleton.mp member) nofun
  | arm => exact absurd member (notMem_of_aside rfl (isCall_serve crew _ _))
  | aside aside =>
    exact absurd member (notMem_of_aside rfl fun event within =>
      Event.isCall_of_isAside (aside.events event within))

/-- What has become of a command since it was picked up: another one is on its way, another one has
been picked up or an end reported, or the controller is at work on it and nothing has been called. -/
inductive InForce (command : Command) (crew : Crew W) (since : List Event) : Prop where
  | superseded (mailbox : crew.shared.command.pending ≠ none)
  | past {event : Event} (member : event ∈ since)
      (ends : event.picksUp = true ∨ event.finishes = true)
  | working (mailbox : crew.shared.command.pending = none)
      (mode : crew.motion.controller.mode = command.mode)
      (uncalled : ∀ call, .called call ∉ since)

/-- While the controller is at work on a command, only the halt behind a watchdog is called. -/
theorem InForce.kept [WheelDrive W] {command : Command} {crew next : Crew W}
    {history since events : List Event} (inForce : InForce command crew since)
    (moves : command.mode ≠ .stop) (stance : Stance crew history)
    (transition : Transition crew next events) : InForce command next (since ++ events) := by
  cases inForce with
  | past member ends => exact .past (List.mem_append_left _ member) ends
  | superseded mailbox =>
    rcases transition.mailbox with ⟨_, _, same | posted⟩ | ⟨step, _, _, rfl⟩
    · exact .superseded (same ▸ mailbox)
    · exact .superseded posted
    · exact .past List.mem_concat_self (.inl (Option.isSome_iff_ne_none.mpr mailbox))
  | working mailbox mode uncalled =>
    have moving : ¬crew.motion.AtRest crew.shared := by
      rw [Loop.AtRest, mailbox, mode]
      exact moves
    rcases transition.mailbox with ⟨_, controller, same | posted⟩ | ⟨step, stepped, rfl, rfl⟩
    · by_cases called : ∃ call, .called call ∈ events
      · -- The chassis is at rest at the beginning of every other call.
        obtain ⟨call, member⟩ := called
        obtain ⟨free, waiting, posts⟩ := transition.called member
        refine .superseded (posts ?_)
        by_contra other
        have rest : crew.motion.AtRest crew.shared := by
          refine stance.rest (fun command pending => ?_) fun _ halt => ?_
          · cases free.symm.trans pending
          · exact other (Option.some.inj (waiting.symm.trans halt))
        exact moving rest
      · refine .working (same ▸ mailbox) (controller ▸ mode) fun call member => ?_
        exact (List.mem_append.mp member).elim (uncalled call) fun late => called ⟨call, late⟩
    · exact .superseded posted
    · cases finished : step.outcome.finished with
      | true => exact .past List.mem_concat_self (.inr finished)
      | false =>
        have still := Loop.mode_of_unfinished stepped finished
        rw [mailbox] at still
        have taken : step.shared.command.pending = none := by rw [Loop.step_command stepped]; rfl
        refine .working taken (still.trans mode) fun call member => ?_
        rcases List.mem_append.mp member with earlier | late
        · exact uncalled call earlier
        · cases List.mem_singleton.mp late

section Main

variable [WheelDrive W] {setup : Setup} {wheels : W} {schedule : List (Move W)}
  {front back : List Event} {command : Command} {outcome : Motion.Outcome}

/-- A run that drives has asked for a new zero before. -/
theorem runAsked_of_pickUp (moves : command.mode ≠ .stop)
    (posted : (reached setup wheels schedule).shared.command.pending = some command) :
    runAsked (history setup wheels schedule) = true := by
  have underWay := underWay_reached setup wheels schedule
  have moving : ¬(reached setup wheels schedule).motion.AtRest
      (reached setup wheels schedule).shared := by
    rw [Loop.AtRest, posted]
    exact moves
  refine (oriented_reached setup wheels schedule).resolve_left fun opens => ?_
  -- A command to move is there for a drive or behind its watchdog, and neither is among the first
  -- calls of a run.
  cases stance_reached setup wheels schedule with
  | idle _ rest => exact moving rest
  | begun _ _ rest => exact moving rest
  | awaited pending =>
    rcases opens.eq_of_call? (underWay.errand _ pending).1 with start | rezero
    · cases start
    · cases rezero
  | halting free waiting =>
    rcases opens.eq_of_call? waiting with start | rezero
    · cases start
    · cases rezero

/-- From the pick-up on, a command is in force until something else comes between. -/
theorem inForce_onward {next : Crew W} (moves : command.mode ≠ .stop)
    (picked : Transition (reached setup wheels schedule) next [.period (some command) outcome])
    (unfinished : outcome.finished = false) (onward : List (Move W)) :
    InForce command (next.run onward).1 (next.run onward).2 := by
  have before := underWay_reached setup wheels schedule
  have underWay := before.kept picked
  have stance := (stance_reached setup wheels schedule).kept before picked
  have begun : InForce command next [] := by
    have alone : Transition (reached setup wheels schedule) next
        ([] ++ .period (some command) outcome :: []) := picked
    obtain ⟨_, posted, step, stepped, rfl, rfl⟩ := alone.period_taken
    have mode := Loop.mode_of_unfinished stepped unfinished
    rw [posted] at mode
    exact .working (by rw [Loop.step_command stepped]; rfl) mode (fun _ => List.not_mem_nil)
  -- The stance is about the whole history, the command about what is behind its pick-up.
  generalize history setup wheels schedule ++ [.period (some command) outcome] = front at *
  have joint := @run_invariant W _
    (fun crew since => UnderWay crew (front ++ since) ∧ Stance crew (front ++ since) ∧
      InForce command crew since)
    (fun fits transition => by
      rw [← List.append_assoc]
      exact ⟨fits.1.kept transition, fits.2.1.kept fits.1 transition,
        fits.2.2.kept moves fits.2.1 transition⟩)
    next [] ⟨by rwa [List.append_nil], by rwa [List.append_nil], begun⟩ onward
  exact joint.2.2

/-- While the controller is at work on a command, the mission begins no call. -/
theorem uncalled_at_work {mid rest : List Event} {later : Motion.Outcome}
    (moves : command.mode ≠ .stop)
    (split : history setup wheels schedule =
      front ++ .period (some command) outcome :: (mid ++ .period none later :: rest))
    (unfinished : ∀ event ∈ .period (some command) outcome :: mid, event.finishes = false)
    (unreplaced : ∀ event ∈ mid, event.picksUp = false) (call : Mission.Call) :
    .called call ∉ mid := by
  -- The run is cut at the pick-up, and what is behind it at the later period, which finds the
  -- mailbox empty.
  obtain ⟨first, _, onward, next, early, late, _, moved, _, behind⟩ := run_at_event split
  have picked := step_transition moved
  obtain ⟨⟨rfl, rfl⟩, _⟩ := picked.period_taken
  have afterwards : (next.run onward).2 = mid ++ .period none later :: rest := behind.symm
  obtain ⟨second, _, _, _, early, late, _, moved, whole, _⟩ := run_at_event afterwards
  have idle := step_transition moved
  obtain ⟨⟨rfl, rfl⟩, unposted, _⟩ := idle.period_taken
  rw [List.append_nil] at whole
  have inForce := inForce_onward moves picked (unfinished _ List.mem_cons_self) second
  rw [← whole] at inForce
  cases inForce with
  | superseded mailbox => exact absurd unposted mailbox
  | past member ends =>
    rcases ends with replaced | finished
    · rw [unreplaced _ member] at replaced
      cases replaced
    · rw [unfinished _ (List.mem_cons_of_mem _ member)] at finished
      cases finished
  | working _ _ uncalled => exact uncalled call

/-- Behind the request of its run for a new zero, a command that moves the chassis is picked up. A
zero falls into the work on the command exactly if no heading has come in between the two, and one
comes in while the controller is at work. Otherwise all headings since the pick-up are measured from
the zero in force at the pick-up. -/
theorem zero_in_force_iff (moves : command.mode ≠ .stop)
    (split : history setup wheels schedule = front ++ .period (some command) outcome :: back) :
    ∃ before since, front = before ++ .called .rezero :: since ∧
      (∀ event ∈ since, event.asksZero = false ∧ event.isIdle = false) ∧
      ((∃ event ∈ since, event.isZeroed = true) ↔ ∃ event ∈ since, event.isHeaded = true) ∧
      ∀ mid later rest, back = mid ++ .period none later :: rest →
        (∀ event ∈ .period (some command) outcome :: mid, event.finishes = false) →
        (∀ event ∈ mid, event.picksUp = false) →
        ((∃ event ∈ mid, event.isZeroed = true) ↔
          (∀ event ∈ since, event.isHeaded = false) ∧ ∃ event ∈ mid, event.isHeaded = true) := by
  have asked : runAsked front = true := by
    obtain ⟨first, _, _, _, early, _, _, moved, rfl, _⟩ := run_at_event split
    obtain ⟨⟨rfl, _⟩, posted, _⟩ := (step_transition moved).period_taken
    rw [List.append_nil]
    exact runAsked_of_pickUp moves posted
  obtain ⟨before, event, since, rfl, asks, quiet⟩ := latched_iff.mp asked
  have request : event = .called .rezero := by
    unfold Event.asksZero at asks
    split at asks
    · rfl
    · cases asks
  subst request
  refine ⟨before, since, rfl, quiet, ?_, fun mid later rest parts unfinished unreplaced => ?_⟩
  · have whole : history setup wheels schedule =
        before ++ .called .rezero :: [] ++ since ++ (.period (some command) outcome :: back) := by
      simpa using split
    have first := zeroed_in_stretch whole fun event member => (quiet event member).1
    rwa [and_iff_right (List.forall_mem_nil _)] at first
  · subst parts
    have unasked : ∀ event ∈ mid, event.asksZero = false := by
      intro event member
      have uncalled := uncalled_at_work moves split unfinished unreplaced .rezero
      unfold Event.asksZero
      split
      · exact absurd member uncalled
      · rfl
    have whole : history setup wheels schedule =
        before ++ .called .rezero :: (since ++ [.period (some command) outcome]) ++ mid ++
          (.period none later :: rest) := by
      simpa using split
    have first := zeroed_in_stretch whole (List.forall_mem_append.mpr
      ⟨List.forall_mem_append.mpr ⟨fun event member => (quiet event member).1,
        List.forall_mem_singleton.mpr rfl⟩, unasked⟩)
    rw [first, List.forall_mem_append]
    simp [Event.isHeaded]

end Main

/-- The moves of an angle packet at the inertial module: each byte arrives and is taken in. -/
def hear (packet : List UInt8) : List (Move Motion.SimulatedChassis) :=
  packet.flatMap fun byte => [.arrival .inertial byte, .intake .inertial]

def yawAhead : List UInt8 := [0x55, 0x53, 0, 0, 0, 0, 0, 0, 0, 0, 0xa8]

def yawRight : List UInt8 := [0x55, 0x53, 0, 0, 0, 0, 0, 0x40, 0, 0, 0xe8]

/-- The robot is turned by a right angle before a run, and its yaw is 90 degrees from then on. No
angle packet comes in between the request of the run and its first straight move. -/
def lateZero : List (Move Motion.SimulatedChassis) :=
  hear yawAhead ++ hear yawRight ++ firstDrive ++ [.mission, .mission, .motion] ++
    hear yawRight ++ [.motion]

def lateZeroHistory : List Event := history {} (.new {}) lateZero

/-- A zero falls into the straight move, so no heading has come in between its run's request and its
pick-up. -/
theorem zero_in_force_iff_lateZero :
    (Command.drive .forward 300 686).mode ≠ .stop ∧
      lateZeroHistory = lateZeroHistory.take 15 ++
        .period (some (.drive .forward 300 686)) ⟨⟨40, 40, 40, 40⟩, false⟩ ::
          ([.headed ⟨0, 90⟩ true] ++ .period none ⟨⟨-120, 280, -120, 280⟩, false⟩ :: []) ∧
      ∃ before since, lateZeroHistory.take 15 = before ++ .called .rezero :: since ∧
        ∀ event ∈ since, event.isHeaded = false := by
  have moves : (Command.drive .forward 300 686).mode ≠ .stop := by decide
  have split : lateZeroHistory = lateZeroHistory.take 15 ++
      .period (some (.drive .forward 300 686)) ⟨⟨40, 40, 40, 40⟩, false⟩ ::
        ([.headed ⟨0, 90⟩ true] ++ .period none ⟨⟨-120, 280, -120, 280⟩, false⟩ :: []) := by
    decide +kernel
  obtain ⟨before, since, request, _, _, stretch⟩ := zero_in_force_iff moves split
  have zeroed := stretch [.headed ⟨0, 90⟩ true] _ [] rfl (by decide) (by decide)
  exact ⟨moves, split, before, since, request,
    (zeroed.mp ⟨_, List.mem_singleton_self _, rfl⟩).1⟩

/-- A straight move is picked up before the request of its run is honoured, and it is honoured while
the controller is at work on the move. The controller then holds a heading of 90 degrees in a frame
where the robot, which has not turned, has a heading of 0. -/
theorem zero_within_forward :
    lateZeroHistory.drop 7 =
        [.entered .scanCode .default, .called .rezero, .replied .done,
          .called (.drive (.drive .slideLeft 100 132)),
          .period (some (.drive .slideLeft 100 132)) ⟨⟨-40, 40, 40, -40⟩, false⟩,
          .period none .done, .replied .done, .called (.drive (.drive .forward 300 686)),
          .period (some (.drive .forward 300 686)) ⟨⟨40, 40, 40, 40⟩, false⟩,
          .headed ⟨0, 90⟩ true, .period none ⟨⟨-120, 280, -120, 280⟩, false⟩] ∧
      (reached {} (.new {}) lateZero).motion.controller.lockedHeading = 90 ∧
      (reached {} (.new {}) lateZero).shared.heading.snapshot.relative = 0 := by
  refine ⟨?_, ?_, ?_⟩ <;> decide +kernel

end Mecanum.Robot.Crew
