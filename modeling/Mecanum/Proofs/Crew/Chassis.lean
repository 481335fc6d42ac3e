import Mecanum.Proofs.Crew.Calls
import Mecanum.Proofs.Mission.Runner
import Mecanum.Proofs.Motion.Period

/-!
# The chassis and its drives

The chassis moves for drives alone, and the completion that ends a drive is that drive's own. Both
follow from how the chassis stands while the mission is at each operation. It is at rest, or the
command of the drive under way is on its way through the mailbox and the controller, or a drive has
timed out and the halt behind it is about to be posted. A control period may come between any two
operations, and each of these cases says what it then finds.
-/
namespace Mecanum.Robot.Crew

open Mission (Errand)
open Motion (Command Loop WheelDrive)

variable {W : Type}

/-- Whether a drive is outstanding: it has not ended, or its watchdog has ended it and the halt of
the chassis is still to come. -/
def Driving (history : List Event) : Prop :=
  ∃ earlier command, calls history = earlier ++ [.called (.drive command)] ∨
    calls history = earlier ++ [.called (.drive command), .replied .expired]

/-- Whether a period took exactly this command, with no end reported before and no other command
taken behind it. -/
def PickedUp (command : Command) (since : List Event) : Prop :=
  ∃ early outcome late, since = early ++ .period (some command) outcome :: late ∧
    (∀ event ∈ early, event.finishes = false) ∧ ∀ event ∈ late, event.picksUp = false

/-- Whether a command was carried out to its end: a period took exactly this command, no other one
was taken behind it, and an end was reported in that period or behind it, and none before. -/
def Completes (command : Command) (since : List Event) : Prop :=
  ∃ early outcome late, since = early ++ .period (some command) outcome :: late ∧
    (∀ event ∈ early, event.finishes = false) ∧ (∀ event ∈ late, event.picksUp = false) ∧
    ∃ event ∈ .period (some command) outcome :: late, event.finishes = true

theorem driving_aside {history events : List Event}
    (aside : ∀ event ∈ events, event.isCall = false) (driving : Driving history) :
    Driving (history ++ events) := by
  unfold Driving at driving ⊢
  rwa [calls_aside aside]

theorem driving_expired {history events : List Event} {command : Command}
    (called : latest history = some (.called (.drive command)))
    (aside : ∀ event ∈ events, event.isCall = false) :
    Driving (history ++ .replied .expired :: events) := by
  obtain ⟨earlier, split⟩ := List.getLast?_eq_some_iff.mp called
  refine ⟨earlier, command, .inr ?_⟩
  rw [List.append_cons, calls_aside aside, calls_concat rfl, split, List.append_assoc]
  rfl

theorem driving_called {history : List Event} {command : Command}
    (called : latest history = some (.called (.drive command))) : Driving history := by
  obtain ⟨earlier, split⟩ := List.getLast?_eq_some_iff.mp called
  exact ⟨earlier, command, .inl split⟩

theorem PickedUp.append {command : Command} {since events : List Event}
    (pickedUp : PickedUp command since) (aside : ∀ event ∈ events, event.picksUp = false) :
    PickedUp command (since ++ events) := by
  obtain ⟨early, outcome, late, rfl, before, behind⟩ := pickedUp
  refine ⟨early, outcome, late ++ events, by simp, before, ?_⟩
  intro event member
  exact (List.mem_append.mp member).elim (behind event) (aside event)

/-- An end reported since the command was taken is the end of that command. -/
theorem PickedUp.completes {command : Command} {since : List Event}
    (pickedUp : PickedUp command since) {event : Event} (member : event ∈ since)
    (finishes : event.finishes = true) : Completes command since := by
  obtain ⟨early, outcome, late, rfl, before, behind⟩ := pickedUp
  refine ⟨early, outcome, late, rfl, before, behind, event, ?_, finishes⟩
  -- Nothing was reported before the command was taken.
  refine (List.mem_append.mp member).resolve_left fun early => ?_
  rw [before event early] at finishes
  cases finishes

theorem Completes.append {command : Command} {since events : List Event}
    (completes : Completes command since) (aside : ∀ event ∈ events, event.picksUp = false) :
    Completes command (since ++ events) := by
  obtain ⟨early, outcome, late, rfl, before, behind, event, member, finishes⟩ := completes
  have pickedUp : PickedUp command (early ++ .period (some command) outcome :: late) :=
    ⟨early, outcome, late, rfl, before, behind⟩
  exact (pickedUp.append aside).completes
    (List.mem_append_left _ (List.mem_append_right _ member)) finishes

/-! ### A drive whose completion is awaited -/

/-- How far the command of a drive has come since the call. -/
inductive Tracks (command : Command) (motion : Loop W) (shared : Shared.State)
    (since : List Event) : Prop where
  -- The command is in the mailbox.
  | posted (mailbox : shared.command.pending = some command)
      (unsignalled : shared.moveFinished = .empty)
      (unfinished : ∀ event ∈ since, event.finishes = false)
  -- The controller is at work on the command.
  | running (mailbox : shared.command.pending = none) (unsignalled : shared.moveFinished = .empty)
      (pickedUp : PickedUp command since) (unfinished : ∀ event ∈ since, event.finishes = false)
  -- The command has ended.
  | ended (mailbox : shared.command.pending = none) (stop : motion.controller.mode = .stop)
      (completes : Completes command since)

/-- Moves that leave the controller and the mailbox alone leave the command of a drive where it is.
-/
theorem Tracks.aside {command : Command} {motion next : Loop W} {shared behind : Shared.State}
    {since events : List Event} (tracks : Tracks command motion shared since)
    (controller : next.controller = motion.controller)
    (mailbox : behind.command = shared.command) (signal : behind.moveFinished = shared.moveFinished)
    (aside : ∀ event ∈ events, event.isPeriod = false) :
    Tracks command next behind (since ++ events) := by
  have finishes : ∀ event ∈ events, event.finishes = false := by
    intro event member
    cases event <;> first | rfl | cases aside _ member
  have picksUp : ∀ event ∈ events, event.picksUp = false := by
    intro event member
    cases event <;> first | rfl | cases aside _ member
  cases tracks with
  | posted slot unsignalled unfinished =>
    exact .posted (mailbox ▸ slot) (signal ▸ unsignalled) (List.forall_mem_append.mpr
      ⟨unfinished, finishes⟩)
  | running slot unsignalled pickedUp unfinished =>
    exact .running (mailbox ▸ slot) (signal ▸ unsignalled) (pickedUp.append picksUp)
      (List.forall_mem_append.mpr ⟨unfinished, finishes⟩)
  | ended slot stop completes =>
    exact .ended (mailbox ▸ slot) (controller ▸ stop) (completes.append picksUp)

/-- A control period takes the command from the mailbox, gets on with it, or finds it over. -/
theorem Tracks.period [WheelDrive W] {command : Command} {motion : Loop W} {shared : Shared.State}
    {since : List Event} {step : Loop.Step W} (tracks : Tracks command motion shared since)
    (stepped : motion.step shared = .ok step) :
    Tracks command step.loop step.shared
      (since ++ [.period shared.command.pending step.outcome]) := by
  have emptied : step.shared.command.pending = none := by rw [Loop.step_command stepped]; rfl
  have signal := Loop.step_moveFinished stepped
  -- A period that works on the command either reports its end or leaves everything open.
  have onward (unsignalled : shared.moveFinished = .empty)
      (unfinished : ∀ event ∈ since, event.finishes = false)
      (pickedUp : PickedUp command (since ++ [.period shared.command.pending step.outcome])) :
      Tracks command step.loop step.shared
        (since ++ [.period shared.command.pending step.outcome]) := by
    cases finished : step.outcome.finished with
    | true =>
      exact .ended emptied (Loop.mode_of_finished stepped finished)
        (pickedUp.completes List.mem_concat_self finished)
    | false =>
      rw [finished, if_neg Bool.false_ne_true, unsignalled] at signal
      refine .running emptied signal pickedUp (List.forall_mem_append.mpr ⟨unfinished, ?_⟩)
      exact List.forall_mem_singleton.mpr finished
  cases tracks with
  | posted mailbox unsignalled unfinished =>
    rw [mailbox] at onward ⊢
    exact onward unsignalled unfinished ⟨since, step.outcome, [], rfl, unfinished, by simp⟩
  | running mailbox unsignalled pickedUp unfinished =>
    refine onward unsignalled unfinished (pickedUp.append ?_)
    rw [mailbox]
    exact List.forall_mem_singleton.mpr rfl
  | ended mailbox stop completes =>
    -- The controller stands still and finds no command, so the period is idle.
    have rest : motion.AtRest shared := Loop.atRest_iff.mpr (.inl ⟨mailbox, stop⟩)
    obtain ⟨outcome, _, still⟩ := rest.step stepped
    rw [mailbox]
    refine .ended emptied ?_ (completes.append (List.forall_mem_singleton.mpr rfl))
    simpa [Loop.AtRest, emptied] using still

/-- The mission finds a completion only if the command of its own drive has ended. -/
theorem Tracks.over_of_step {command : Command} {motion : Loop W} {shared behind : Shared.State}
    {since : List Event} {reply : Mission.Reply} (tracks : Tracks command motion shared since)
    (stepped : (Errand.drive command .await).step shared = .over reply behind) :
    motion.AtRest behind ∧ Completes command since := by
  cases Errand.stepped_of_step stepped with
  | driven raised =>
    -- A completion is there to be found only once the command has ended.
    cases tracks with
    | posted _ unsignalled => rw [unsignalled] at raised; cases raised
    | running _ unsignalled => rw [unsignalled] at raised; cases raised
    | ended mailbox stop completes =>
      exact ⟨Loop.atRest_iff.mpr (.inl ⟨mailbox, stop⟩), completes⟩

/-! ### How the chassis stands -/

/-- How the chassis stands while the mission is where it is. -/
inductive Stance (crew : Crew W) (history : List Event) : Prop where
  -- No drive is under way.
  | idle (apart : ∀ command stage, crew.pending ≠ some (.errand (.drive command stage)))
      (rest : crew.motion.AtRest crew.shared)
  -- A drive has been called, and its command is still to be posted.
  | begun {command : Command} {stage : Mission.Stage}
      (pending : crew.pending = some (.errand (.drive command stage))) (before : stage ≠ .await)
      (rest : crew.motion.AtRest crew.shared)
      (unsignalled : stage = .request → crew.shared.moveFinished = .empty)
      (unfinished : ∀ event ∈ sinceCall history, event.finishes = false)
  -- The completion of a drive is awaited.
  | awaited {command : Command}
      (pending : crew.pending = some (.errand (.drive command .await)))
      (tracks : Tracks command crew.motion crew.shared (sinceCall history))
  -- A drive has timed out, and its halt is still to be called.
  | halting (free : crew.pending = none) (waiting : crew.runner.call? = some .halt)
      (driving : Driving history)

theorem stance_new [WheelDrive W] (setup : Setup) (wheels : W) : Stance (new setup wheels) [] :=
  .idle (fun _ _ => nofun) rfl

/-- Whatever neither the mission nor the chassis notices leaves the chassis as it stands. -/
theorem Stance.aside {crew next : Crew W} {history events : List Event}
    (stance : Stance crew history) (pending : next.pending = crew.pending)
    (runner : next.runner = crew.runner)
    (controller : next.motion.controller = crew.motion.controller)
    (mailbox : next.shared.command = crew.shared.command)
    (signal : next.shared.moveFinished = crew.shared.moveFinished)
    (calls : ∀ event ∈ events, event.isCall = false)
    (periods : ∀ event ∈ events, event.isPeriod = false) : Stance next (history ++ events) := by
  -- Rest is a matter of the mailbox and the mode of the controller alone.
  have rests (rest : crew.motion.AtRest crew.shared) : next.motion.AtRest next.shared := by
    unfold Loop.AtRest at rest ⊢
    rwa [mailbox, controller]
  cases stance with
  | idle apart rest => exact .idle (by rwa [pending]) (rests rest)
  | begun busy before rest unsignalled unfinished =>
    refine .begun (pending ▸ busy) before (rests rest) (by rwa [signal]) ?_
    rw [sinceCall_aside calls]
    refine List.forall_mem_append.mpr ⟨unfinished, fun event member => ?_⟩
    cases event <;> first | rfl | cases periods _ member
  | awaited busy tracks =>
    refine .awaited (pending ▸ busy) ?_
    rw [sinceCall_aside calls]
    exact tracks.aside controller mailbox signal periods
  | halting free waiting driving =>
    exact .halting (pending ▸ free) (runner ▸ waiting) (driving_aside calls driving)

/-- A control period carries the command of a drive on and leaves a chassis at rest where it is. -/
theorem Stance.period [WheelDrive W] {crew : Crew W} {history : List Event} {step : Loop.Step W}
    (stance : Stance crew history) (stepped : crew.motion.step crew.shared = .ok step) :
    Stance { crew with motion := step.loop, shared := step.shared }
      (history ++ [.period crew.shared.command.pending step.outcome]) := by
  have call : ∀ event ∈ [Event.period crew.shared.command.pending step.outcome],
      event.isCall = false := List.forall_mem_singleton.mpr rfl
  cases stance with
  | idle apart rest => exact .idle apart (rest.step stepped).2.2
  | begun pending before rest unsignalled unfinished =>
    obtain ⟨outcome, _, still⟩ := rest.step stepped
    have signal := Loop.step_moveFinished stepped
    rw [outcome, Motion.Outcome.idle, if_neg Bool.false_ne_true] at signal
    refine .begun pending before still (by rwa [signal]) ?_
    rw [sinceCall_aside call, outcome]
    exact List.forall_mem_append.mpr ⟨unfinished, List.forall_mem_singleton.mpr rfl⟩
  | awaited pending tracks =>
    refine .awaited pending ?_
    rw [sinceCall_aside call]
    exact tracks.period stepped
  | halting free waiting driving => exact .halting free waiting (driving_aside call driving)

/-- The chassis is at rest unless a drive is awaited or a halt is due. -/
theorem Stance.rest {crew : Crew W} {history : List Event} (stance : Stance crew history)
    (unawaited : ∀ command, crew.pending ≠ some (.errand (.drive command .await)))
    (unhalted : crew.pending = none → crew.runner.call? ≠ some .halt) :
    crew.motion.AtRest crew.shared := by
  cases stance with
  | idle _ rest => exact rest
  | begun _ _ rest => exact rest
  | awaited pending => exact absurd pending (unawaited _)
  | halting free waiting => exact absurd waiting (unhalted free)

/-! ### Operations of the mission -/

section Operations

variable {crew : Crew W} {history opening : List Event} {errand : Errand}

/-- The chassis is at rest whenever the mission goes on with an errand that does not command it. -/
theorem Stance.rest_of_begun (stance : Stance crew history) (begun : Begun crew opening errand)
    (aside : errand.commands = false) : crew.motion.AtRest crew.shared := by
  cases begun with
  | first free waiting made =>
    refine stance.rest (fun command => by rw [free]; nofun) fun _ halt => ?_
    rw [waiting] at halt
    cases halt
    cases made
    cases aside
  | again busy =>
    refine stance.rest (fun command pending => ?_) fun free => by rw [busy] at free; cases free
    rw [busy] at pending
    cases pending
    cases aside

/-- A crew at rest whose mission has no drive under way. -/
private theorem stance_idle {next : Crew W} {events : List Event} {errand : Errand}
    (pending : next.pending = some (.errand errand)) (aside : errand.commands = false)
    (rest : next.motion.AtRest next.shared) : Stance next events := by
  refine .idle (fun command stage => ?_) rest
  rw [pending]
  rintro ⟨⟩
  cases aside

private theorem stance_free {next : Crew W} {events : List Event} (free : next.pending = none)
    (rest : next.motion.AtRest next.shared) : Stance next events := by
  refine .idle (fun command stage => ?_) rest
  rw [free]
  nofun

private theorem rest_of_step {shared : Shared.State} (rest : crew.motion.AtRest crew.shared)
    (aside : errand.commands = false) (left : (errand.step crew.shared).shared = shared) :
    crew.motion.AtRest shared := by
  subst left
  unfold Loop.AtRest at rest ⊢
  rwa [(Errand.step_chassis aside crew.shared).1]

/-- While a drive waits for its completion, its command is posted, in force or carried out. -/
private theorem Stance.tracks {command : Command} (stance : Stance crew history)
    (pending : crew.pending = some (.errand (.drive command .await))) :
    Tracks command crew.motion crew.shared (sinceCall history) := by
  cases stance with
  | idle apart => exact absurd pending (apart command .await)
  | begun busy before =>
    rw [busy] at pending
    cases pending
    exact absurd rfl before
  | awaited busy tracks =>
    rw [busy] at pending
    cases pending
    exact tracks
  | halting free => rw [free] at pending; cases pending

/-- Until a drive has posted its command, the chassis is at rest. -/
private theorem Stance.unposted {command : Command} {stage : Mission.Stage}
    (stance : Stance crew history)
    (pending : crew.pending = some (.errand (.drive command stage))) (before : stage ≠ .await) :
    crew.motion.AtRest crew.shared ∧
      (stage = .request → crew.shared.moveFinished = .empty) ∧
      ∀ event ∈ sinceCall history, event.finishes = false := by
  cases stance with
  | idle apart => exact absurd pending (apart command stage)
  | begun busy _ rest unsignalled unfinished =>
    rw [busy] at pending
    cases pending
    exact ⟨rest, unsignalled, unfinished⟩
  | awaited busy =>
    rw [busy] at pending
    cases pending
    exact absurd rfl before
  | halting free => rw [free] at pending; cases pending

/-- Nothing has been reported to a drive that is about to clear older completions. -/
private theorem Stance.uncleared {command : Command} (stance : Stance crew history)
    (begun : Begun crew opening (.drive command .clear)) :
    crew.motion.AtRest crew.shared ∧
      ∀ event ∈ sinceCall (history ++ opening), event.finishes = false := by
  cases begun with
  | first free waiting made =>
    rw [sinceCall_concat rfl]
    refine ⟨stance.rest (fun command => by rw [free]; nofun) fun _ halt => ?_, by simp⟩
    rw [waiting] at halt
    cases halt
    cases made
  | again pending =>
    obtain ⟨rest, _, unfinished⟩ := stance.unposted pending (by simp)
    rw [List.append_nil]
    exact ⟨rest, unfinished⟩

/-- An operation that cannot go on changes nothing for the chassis. -/
theorem Stance.blocked {next : Errand} {shared : Shared.State} (stance : Stance crew history)
    (begun : Begun crew opening errand) (stepped : errand.step crew.shared = .blocked next shared) :
    Stance { crew with pending := some (.errand next), shared := shared } (history ++ opening) := by
  cases aside : errand.commands with
  | false =>
    have left : (errand.step crew.shared).errand? = some next := by rw [stepped]; rfl
    have still : crew.motion.AtRest shared :=
      rest_of_step (stance.rest_of_begun begun aside) aside (by rw [stepped]; rfl)
    exact stance_idle rfl (Errand.commands_step left ▸ aside) still
  | true =>
    cases Errand.stepped_of_step stepped with
    | driveAwaited =>
      obtain ⟨rfl, pending⟩ := begun.pending (by simp [Errand.call, Errand.ofCall?])
      rw [List.append_nil]
      exact .awaited rfl (stance.tracks pending)
    | _ => cases aside

/-- An operation that goes on clears an older completion, posts the command, or has nothing to do
with the chassis. -/
theorem Stance.moved {next : Errand} {shared : Shared.State} (stance : Stance crew history)
    (begun : Begun crew opening errand) (stepped : errand.step crew.shared = .moved next shared) :
    Stance { crew with pending := some (.errand next), shared := shared }
      (history ++ (opening ++ requestsOf errand)) := by
  cases aside : errand.commands with
  | false =>
    have left : (errand.step crew.shared).errand? = some next := by rw [stepped]; rfl
    have still : crew.motion.AtRest shared :=
      rest_of_step (stance.rest_of_begun begun aside) aside (by rw [stepped]; rfl)
    exact stance_idle rfl (Errand.commands_step left ▸ aside) still
  | true =>
    cases Errand.stepped_of_step stepped with
    | @driveCleared command =>
      obtain ⟨rest, unfinished⟩ := stance.uncleared begun
      have none : requestsOf (.drive command .clear) = [] := rfl
      rw [none, List.append_nil]
      exact .begun rfl (by simp) rest (fun _ => rfl) unfinished
    | @drivePosted command =>
      obtain ⟨rfl, pending⟩ := begun.pending (by simp [Errand.call, Errand.ofCall?])
      obtain ⟨_, unsignalled, unfinished⟩ := stance.unposted pending (by simp)
      have none : requestsOf (.drive command .request) = [] := rfl
      rw [none, List.append_nil, List.append_nil]
      exact .awaited rfl (.posted rfl (unsignalled rfl) unfinished)
    | _ => cases aside

/-- The chassis is at rest behind every call that ends without its watchdog. -/
theorem Stance.ended {shared : Shared.State} {reply : Mission.Reply} (stance : Stance crew history)
    (begun : Begun crew opening errand) (stepped : errand.step crew.shared = .over reply shared) :
    crew.motion.AtRest shared := by
  cases aside : errand.commands with
  | false => exact rest_of_step (stance.rest_of_begun begun aside) aside (by rw [stepped]; rfl)
  | true =>
    cases Errand.stepped_of_step stepped with
    | driven =>
      obtain ⟨rfl, pending⟩ := begun.pending (by simp [Errand.call, Errand.ofCall?])
      exact ((stance.tracks pending).over_of_step stepped).1
    | halted => rfl
    | _ => cases aside

end Operations

/-- When a watchdog runs out, a drive was under way or the chassis is at rest. -/
private theorem Stance.expired {crew : Crew W} {history : List Event} {current : Pending}
    {limit : UInt32} {progress : Mission.Progress} (stance : Stance crew history)
    (underWay : UnderWay crew history) (pending : crew.pending = some current)
    (guarded : crew.runner.timeLimit? = some limit)
    (resumed : crew.runner.reply .expired = .ok progress) :
    Stance { crew with runner := progress.runner, pending := none }
      (history ++ .replied .expired :: endings progress) := by
  cases stance with
  | idle apart rest => exact stance_free rfl rest
  | begun busy before rest => exact stance_free rfl rest
  | awaited busy tracks =>
    -- A drive that is given up may still be running; only the halt behind it restores rest.
    have called := (underWay.errand _ busy).2
    exact .halting rfl (Mission.Runner.call?_expired guarded resumed)
      (driving_expired called (isCall_endings progress))
  | halting free => rw [pending] at free; cases free

/-- Every transition leaves the chassis in a stance that fits the mission. -/
theorem Stance.kept [WheelDrive W] {crew next : Crew W} {history events : List Event}
    (underWay : UnderWay crew history) (stance : Stance crew history)
    (transition : Transition crew next events) : Stance next (history ++ events) := by
  cases transition with
  | enter free resting entered =>
    refine stance_free free (stance.rest (fun command => by rw [free]; nofun) fun _ => ?_)
    rw [resting]
    nofun
  | pause free waiting =>
    refine .idle (fun _ _ => nofun) (stance.rest (fun command => by rw [free]; nofun) fun _ => ?_)
    rw [waiting]
    nofun
  | blocked begun stepped => exact stance.blocked begun stepped
  | moved begun stepped => exact stance.moved begun stepped
  | ended begun stepped resumed => exact stance_free rfl (stance.ended begun stepped)
  | wake pending resumed =>
    refine stance_free rfl (stance.rest (fun command => by rw [pending]; nofun) fun free => ?_)
    rw [pending] at free
    cases free
  | expire pending guarded resumed => exact stance.expired underWay pending guarded resumed
  | period stepped => exact stance.period stepped
  | @arm _ _ _ step stepped =>
    obtain ⟨mailbox, signal⟩ := (ArmTask.step_stepped stepped).chassis
    exact stance.aside rfl rfl rfl mailbox signal (isCall_serve crew _ _)
      (isPeriod_serve crew _ _)
  | aside aside =>
    exact stance.aside aside.pending aside.runner aside.controller aside.command
      aside.moveFinished (fun event member => Event.isCall_of_isAside (aside.events event member))
      (fun event member => Event.isPeriod_of_isAside (aside.events event member))

/-- On every schedule the chassis stands as the call under way asks. -/
theorem stance_reached [WheelDrive W] (setup : Setup) (wheels : W) (schedule : List (Move W)) :
    Stance (reached setup wheels schedule) (history setup wheels schedule) := by
  -- The stance at an expiry needs the call under way, so the two are carried through together.
  have joint := run_invariant (fun crew history => UnderWay crew history ∧ Stance crew history)
    (fun fits transition => ⟨fits.1.kept transition, fits.2.kept fits.1 transition⟩)
    ⟨underWay_new setup wheels, stance_new setup wheels⟩ schedule
  exact joint.2

/-! ### Control periods -/

theorem isPeriod_endings (progress : Mission.Progress) :
    ∀ event ∈ endings progress, event.isPeriod = false :=
  forall_endings (fun _ => rfl) progress

theorem Begun.isPeriod {crew : Crew W} {opening : List Event} {errand : Errand}
    (begun : Begun crew opening errand) : ∀ event ∈ opening, event.isPeriod = false :=
  begun.forall_opening fun _ => rfl

theorem isPeriod_requestsOf (errand : Errand) :
    ∀ event ∈ requestsOf errand, event.isPeriod = false :=
  forall_requestsOf (fun _ => rfl) errand

/-- A control period is a move of its own. -/
theorem Transition.period_of_mem [WheelDrive W] {crew next : Crew W} {early late : List Event}
    {taken : Option Command} {outcome : Motion.Outcome}
    (transition : Transition crew next (early ++ .period taken outcome :: late)) :
    early = [] ∧ ∃ step, crew.motion.step crew.shared = .ok step ∧ step.outcome = outcome := by
  generalize same : early ++ .period taken outcome :: late = events at transition
  have member : .period taken outcome ∈ events := same ▸ List.mem_append_cons_self
  -- All other moves have no period among their events.
  have outside {others : List Event} (aside : ∀ event ∈ others, event.isPeriod = false) :
      .period taken outcome ∉ others := fun member => by cases aside _ member
  cases transition with
  | enter =>
    exact absurd member (outside (List.forall_mem_cons.mpr ⟨rfl, isPeriod_endings _⟩))
  | pause => exact absurd member (outside (List.forall_mem_singleton.mpr rfl))
  | blocked begun => exact absurd member (outside begun.isPeriod)
  | @moved _ errand _ _ begun =>
    exact absurd member (outside (List.forall_mem_append.mpr
      ⟨begun.isPeriod, isPeriod_requestsOf errand⟩))
  | ended begun =>
    exact absurd member (outside (List.forall_mem_append.mpr
      ⟨begun.isPeriod, List.forall_mem_cons.mpr ⟨rfl, isPeriod_endings _⟩⟩))
  | wake =>
    exact absurd member (outside (List.forall_mem_cons.mpr ⟨rfl, isPeriod_endings _⟩))
  | expire =>
    exact absurd member (outside (List.forall_mem_cons.mpr ⟨rfl, isPeriod_endings _⟩))
  | period stepped =>
    rcases List.append_eq_singleton_iff.mp same with ⟨rfl, behind⟩ | ⟨_, behind⟩
    · cases behind
      exact ⟨rfl, _, stepped, rfl⟩
    · cases behind
  | arm => exact absurd member (outside (isPeriod_serve crew _ _))
  | aside aside =>
    exact absurd member (outside
      fun event member => Event.isPeriod_of_isAside (aside.events event member))

/-! ### What the chassis does for the mission -/

section Main

variable [WheelDrive W] (setup : Setup) (wheels : W) (schedule : List (Move W))

/-- The completion that ends a drive is that drive's own: since the call a period took exactly its
command, no other one was taken behind it, and it was this command that ended. -/
theorem drive_completes {command : Command} {before since after : List Event}
    (split : history setup wheels schedule =
      before ++ .called (.drive command) :: since ++ .replied .done :: after)
    (within : ∀ event ∈ since, event.isCall = false) : Completes command since := by
  obtain ⟨first, opening, errand, shared, begun, called, stepped, rfl⟩ :=
    errand_over (by simp) split within
  -- Only an awaited drive answers a drive, and the completion that it finds is its own.
  have stance := stance_reached setup wheels first
  cases Errand.stepped_of_step stepped with
  | driven =>
    cases called
    obtain ⟨rfl, pending⟩ := begun.pending (by simp [Errand.call, Errand.ofCall?])
    rw [List.append_nil]
    exact ((stance.tracks pending).over_of_step stepped).2
  | _ => cases called

/-- The moves of a drive: it is called and posted, picked up, over once the wheels have rolled far,
and answered. -/
def rollOut : List (Move Motion.SimulatedChassis) :=
  [.mission, .mission, .motion,
    .wheels { Motion.SimulatedChassis.new {} with frontLeft := 100000 }, .motion, .mission]

/-- A run as far as the end of its first drive. -/
def firstDrive : List (Move Motion.SimulatedChassis) :=
  [.mission, .mission, .button .low, .mission, .mission, .mission] ++ rollOut

/-- The events of the first drive. -/
def firstDriveEvents : List Event :=
  [.period (some (.drive .slideLeft 100 132)) ⟨⟨-40, 40, 40, -40⟩, false⟩, .period none .done]

/-- The first drive of a run, from its call to the answer. -/
theorem drive_completes_firstDrive :
    history {} (.new {}) firstDrive =
        [.entered .idle .default, .called .awaitStart, .pressed, .replied .done,
            .ended (.ok .scanCode), .entered .scanCode .default, .called .rezero, .replied .done] ++
          .called (.drive (.drive .slideLeft 100 132)) :: firstDriveEvents ++ .replied .done :: [] ∧
      Completes (.drive .slideLeft 100 132) firstDriveEvents := by
  have split : history {} (.new {}) firstDrive =
      [.entered .idle .default, .called .awaitStart, .pressed, .replied .done,
          .ended (.ok .scanCode), .entered .scanCode .default, .called .rezero, .replied .done] ++
        .called (.drive (.drive .slideLeft 100 132)) :: firstDriveEvents ++ .replied .done :: [] := by
    decide +kernel
  have within : ∀ event ∈ firstDriveEvents, event.isCall = false := by decide
  exact ⟨split, drive_completes _ _ _ split within⟩

/-- The chassis moves for drives alone. A period that moves the wheels or reports an end falls into
an outstanding drive, and one that falls into any other wait of the mission writes zero to all
wheels and signals nothing. -/
theorem idle_outside_drives {step : Loop.Step W}
    (stepped : (reached setup wheels schedule).motion.step (reached setup wheels schedule).shared =
      .ok step) :
    (step.outcome ≠ .idle → Driving (history setup wheels schedule)) ∧
      ∀ call, (reached setup wheels schedule).runner.call? = some call →
        (∀ command, call ≠ .drive command) → call ≠ .halt →
        step.outcome = .idle ∧
          WheelDrive.apply (reached setup wheels schedule).motion.wheels .zero =
            .ok step.loop.wheels ∧
          step.shared.moveFinished = (reached setup wheels schedule).shared.moveFinished := by
  have underWay := underWay_reached setup wheels schedule
  have still (rest : (reached setup wheels schedule).motion.AtRest
      (reached setup wheels schedule).shared) :
      step.outcome = .idle ∧
        WheelDrive.apply (reached setup wheels schedule).motion.wheels .zero =
          .ok step.loop.wheels ∧
        step.shared.moveFinished = (reached setup wheels schedule).shared.moveFinished := by
    obtain ⟨outcome, applied, _⟩ := rest.step stepped
    have signal := Loop.step_moveFinished stepped
    rw [outcome, Motion.Outcome.idle, if_neg Bool.false_ne_true] at signal
    exact ⟨outcome, applied, signal⟩
  -- Either the chassis is at rest, or a drive is outstanding.
  cases stance_reached setup wheels schedule with
  | idle apart rest => exact ⟨fun moving => absurd (still rest).1 moving, fun _ _ _ _ => still rest⟩
  | begun pending before rest =>
    exact ⟨fun moving => absurd (still rest).1 moving, fun _ _ _ _ => still rest⟩
  | awaited pending =>
    obtain ⟨waiting, called⟩ := underWay.errand _ pending
    refine ⟨fun _ => driving_called called, fun call present apart _ => ?_⟩
    rw [waiting] at present
    exact absurd (Option.some.inj present).symm (apart _)
  | halting free waiting driving =>
    refine ⟨fun _ => driving, fun call present _ apart => ?_⟩
    rw [waiting] at present
    exact absurd (Option.some.inj present).symm apart

end Main

/-- The period that takes the first command moves the wheels, and the one at the start button does
not. -/
theorem idle_outside_drives_firstDrive :
    (∃ step, (reached {} (.new {}) (firstDrive.take 8)).motion.step
        (reached {} (.new {}) (firstDrive.take 8)).shared = .ok step ∧
      step.outcome ≠ .idle ∧ Driving (history {} (.new {}) (firstDrive.take 8))) ∧
    ∃ step, (reached {} (.new {}) (firstDrive.take 2)).motion.step
        (reached {} (.new {}) (firstDrive.take 2)).shared = .ok step ∧ step.outcome = .idle := by
  have moving : ((reached {} (.new {}) (firstDrive.take 8)).motion.step
      (reached {} (.new {}) (firstDrive.take 8)).shared).toOption.map (·.outcome) =
        some ⟨⟨-40, 40, 40, -40⟩, false⟩ := by decide +kernel
  have waiting : (reached {} (.new {}) (firstDrive.take 2)).runner.call? = some .awaitStart := by
    decide +kernel
  have present : ((reached {} (.new {}) (firstDrive.take 2)).motion.step
      (reached {} (.new {}) (firstDrive.take 2)).shared).toOption.isSome = true := by
    decide +kernel
  constructor
  · cases stepped : (reached {} (.new {}) (firstDrive.take 8)).motion.step
      (reached {} (.new {}) (firstDrive.take 8)).shared with
    | error fault => rw [stepped] at moving; cases moving
    | ok step =>
      rw [stepped] at moving
      have outcome : step.outcome ≠ .idle := by
        intro idle
        cases idle.symm.trans (Option.some.inj moving)
      exact ⟨step, rfl, outcome, (idle_outside_drives {} _ _ stepped).1 outcome⟩
  · cases stepped : (reached {} (.new {}) (firstDrive.take 2)).motion.step
      (reached {} (.new {}) (firstDrive.take 2)).shared with
    | error fault => rw [stepped] at present; cases present
    | ok step =>
      exact ⟨step, rfl, ((idle_outside_drives {} _ _ stepped).2 _ waiting (by simp) (by simp)).1⟩

end Mecanum.Robot.Crew
