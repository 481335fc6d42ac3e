import Mecanum.Proofs.Crew.Transition

/-!
# The call under way

The mission makes one call at a time. While an errand is under way it carries out the call that the
runner waits for, and that call is the latest event among the mission's calls and replies.
-/
namespace Mecanum.Robot.Crew

open Mission (Errand)
open Motion (WheelDrive)

variable {W : Type}

theorem isCall_endings (progress : Mission.Progress) :
    ∀ event ∈ endings progress, event.isCall = false :=
  forall_endings (fun _ => rfl) progress

theorem isCall_requestsOf (errand : Errand) :
    ∀ event ∈ requestsOf errand, event.isCall = false :=
  forall_requestsOf (fun _ => rfl) errand

theorem isCall_actsOf (entry : Option Arm.Entry) : ∀ event ∈ actsOf entry, event.isCall = false :=
  forall_actsOf (fun _ => rfl) entry

theorem isCall_serve (crew : Crew W) (entry : Option Arm.Entry) (next : ArmTask) :
    ∀ event ∈ actsOf entry ++ (crew.serve next).2, event.isCall = false :=
  forall_serve (fun _ => rfl) (fun _ => rfl) (fun _ => rfl) crew entry next

theorem isPeriod_serve (crew : Crew W) (entry : Option Arm.Entry) (next : ArmTask) :
    ∀ event ∈ actsOf entry ++ (crew.serve next).2, event.isPeriod = false :=
  forall_serve (fun _ => rfl) (fun _ => rfl) (fun _ => rfl) crew entry next

theorem Event.isPeriod_of_isAside {event : Event} (aside : event.isAside = true) :
    event.isPeriod = false := by
  cases event <;> simp_all [isAside, isPeriod]

theorem Event.isCall_of_isAside {event : Event} (aside : event.isAside = true) :
    event.isCall = false := by
  cases event <;> simp_all [isAside, isCall]

/-- An errand past its first operation was already under way. -/
theorem Begun.pending {crew : Crew W} {opening : List Event} {errand : Errand}
    (begun : Begun crew opening errand) (later : Errand.ofCall? errand.call ≠ some errand) :
    opening = [] ∧ crew.pending = some (.errand errand) := by
  -- A call that is begun now makes its first operation, which this errand has behind it.
  cases begun with
  | first free waiting made =>
    rw [Errand.call_of_ofCall? made] at later
    exact absurd made later
  | again pending => exact ⟨rfl, pending⟩

/-- How the call under way, the runner and the history fit together. -/
structure UnderWay (crew : Crew W) (history : List Event) : Prop where
  errand : ∀ errand, crew.pending = some (.errand errand) →
    crew.runner.call? = some errand.call ∧ latest history = some (.called errand.call)
  pause : crew.pending = some .pause →
    ∃ ms, crew.runner.call? = some (.pause ms) ∧ latest history = some (.called (.pause ms))
  free : crew.pending = none → ∀ call, latest history ≠ some (.called call)

/-- Going on with an errand, the runner waits for the call of the errand, and that call is the
latest. -/
theorem UnderWay.begun {crew : Crew W} {history opening : List Event} {errand : Errand}
    (fits : UnderWay crew history) (begun : Begun crew opening errand) :
    crew.runner.call? = some errand.call ∧
      latest (history ++ opening) = some (.called errand.call) := by
  cases begun with
  | first free waiting made =>
    have same := Errand.call_of_ofCall? made
    rw [latest_concat rfl, waiting, same]
    exact ⟨rfl, rfl⟩
  | again pending =>
    rw [List.append_nil]
    exact fits.errand errand pending

/-- A crew that goes on with an errand is under way with its call. -/
private theorem underWay_errand {next : Crew W} {history : List Event} {errand : Errand}
    (pending : next.pending = some (.errand errand)) (waiting : next.runner.call? = some errand.call)
    (called : latest history = some (.called errand.call)) : UnderWay next history where
  errand other same := by
    rw [pending] at same
    cases same
    exact ⟨waiting, called⟩
  pause paused := by rw [pending] at paused; cases paused
  free idle := by rw [pending] at idle; cases idle

/-- A crew whose call has just ended has none under way. -/
private theorem underWay_replied {next : Crew W} {front behind : List Event}
    {reply : Mission.Reply} (free : next.pending = none)
    (aside : ∀ event ∈ behind, event.isCall = false) :
    UnderWay next (front ++ .replied reply :: behind) where
  errand _ pending := by rw [free] at pending; cases pending
  pause pending := by rw [free] at pending; cases pending
  free _ call := by
    rw [(split_at_latest rfl aside front).1]
    simp

/-- Events that begin and end no call leave the call under way alone. -/
private theorem underWay_aside {crew next : Crew W} {history events : List Event}
    (fits : UnderWay crew history) (pending : next.pending = crew.pending)
    (runner : next.runner = crew.runner) (aside : ∀ event ∈ events, event.isCall = false) :
    UnderWay next (history ++ events) where
  errand errand busy := by
    rw [latest_aside aside, runner]
    exact fits.errand errand (pending ▸ busy)
  pause paused := by
    rw [latest_aside aside, runner]
    exact fits.pause (pending ▸ paused)
  free idle := by
    rw [latest_aside aside]
    exact fits.free (pending ▸ idle)

/-- No transition makes the call under way and the history disagree. -/
theorem UnderWay.kept [WheelDrive W] {crew next : Crew W} {history events : List Event}
    (fits : UnderWay crew history) (transition : Transition crew next events) :
    UnderWay next (history ++ events) := by
  cases transition with
  | @enter progress free resting entered =>
    have aside : ∀ event ∈ .entered crew.runner.state crew.runner.plan :: endings progress,
        event.isCall = false := List.forall_mem_cons.mpr ⟨rfl, isCall_endings progress⟩
    refine ⟨?_, ?_, ?_⟩
    · intro errand pending
      rw [free] at pending
      cases pending
    · intro pending
      rw [free] at pending
      cases pending
    · intro _
      rw [latest_aside aside]
      exact fits.free free
  | pause free waiting =>
    refine ⟨?_, ?_, ?_⟩
    · intro errand pending
      cases pending
    · intro _
      exact ⟨_, waiting, latest_concat rfl history⟩
    · intro pending
      cases pending
  | @blocked _ errand next _ begun stepped =>
    -- An errand keeps its call from one operation to the next.
    have left : (errand.step crew.shared).errand? = some next := by rw [stepped]; rfl
    have current := fits.begun begun
    rw [← Errand.call_step left] at current
    exact underWay_errand rfl current.1 current.2
  | @moved _ errand next _ begun stepped =>
    have left : (errand.step crew.shared).errand? = some next := by rw [stepped]; rfl
    have current := fits.begun begun
    rw [← Errand.call_step left] at current
    refine underWay_errand rfl current.1 ?_
    rw [← List.append_assoc, latest_aside (isCall_requestsOf errand)]
    exact current.2
  | ended begun stepped resumed =>
    rw [← List.append_assoc]
    exact underWay_replied rfl (isCall_endings _)
  | wake pending resumed => exact underWay_replied rfl (isCall_endings _)
  | expire pending guarded resumed => exact underWay_replied rfl (isCall_endings _)
  | period stepped => exact underWay_aside fits rfl rfl (by simp [Event.isCall])
  | arm stepped => exact underWay_aside fits rfl rfl (isCall_serve crew _ _)
  | aside aside =>
    exact underWay_aside fits aside.pending aside.runner
      fun event member => Event.isCall_of_isAside (aside.events event member)

theorem underWay_new [WheelDrive W] (setup : Setup) (wheels : W) :
    UnderWay (new setup wheels) [] where
  errand _ pending := by cases pending
  pause pending := by cases pending
  free _ call := by simp [latest, calls]

/-- On every schedule the call under way fits the history. -/
theorem underWay_reached [WheelDrive W] (setup : Setup) (wheels : W) (schedule : List (Move W)) :
    UnderWay (reached setup wheels schedule) (history setup wheels schedule) :=
  run_invariant UnderWay UnderWay.kept (underWay_new setup wheels) schedule

/-- A runner that waits for no call has none under way. -/
theorem UnderWay.free_of_resting {crew : Crew W} {history : List Event}
    (fits : UnderWay crew history) (resting : crew.runner.call? = none) : crew.pending = none := by
  cases pending : crew.pending with
  | none => rfl
  | some current =>
    cases current with
    | errand errand =>
      have waiting := (fits.errand errand pending).1
      rw [resting] at waiting
      cases waiting
    | pause =>
      obtain ⟨ms, waiting, _⟩ := fits.pause pending
      rw [resting] at waiting
      cases waiting

/-- The latest call is under way as long as nothing has come behind it. -/
theorem UnderWay.pending_of_called {crew : Crew W} {history : List Event} {call : Mission.Call}
    (fits : UnderWay crew history) (called : latest history = some (.called call))
    (busy : ∀ ms, call ≠ .pause ms) :
    ∃ errand, errand.call = call ∧ crew.pending = some (.errand errand) := by
  -- With nothing under way the latest of them would be a reply.
  cases pending : crew.pending with
  | none => exact absurd called (fits.free pending call)
  | some current =>
    cases current with
    | errand errand =>
      have present := (fits.errand errand pending).2
      rw [called] at present
      exact ⟨errand, (Event.called.inj (Option.some.inj present)).symm, rfl⟩
    | pause =>
      obtain ⟨ms, _, present⟩ := fits.pause pending
      rw [called] at present
      exact absurd (Event.called.inj (Option.some.inj present)) (busy ms)

/-! ### How calls end -/

/-- A call ends when its errand is over, when its pause is, or when its watchdog runs out. -/
inductive Answered (crew : Crew W) : List Event → Mission.Reply → Prop where
  | ended {opening : List Event} {errand : Errand} {shared : Shared.State} {reply : Mission.Reply}
      (begun : Begun crew opening errand) (stepped : errand.step crew.shared = .over reply shared) :
      Answered crew opening reply
  | woken (pending : crew.pending = some .pause) : Answered crew [] .done
  | expired {current : Pending} {limit : UInt32} (pending : crew.pending = some current)
      (guarded : crew.runner.timeLimit? = some limit) : Answered crew [] .expired

theorem notMem_of_aside {event : Event} (call : event.isCall = true) {events : List Event}
    (aside : ∀ event ∈ events, event.isCall = false) : event ∉ events := by
  intro member
  rw [aside event member] at call
  cases call

private theorem Begun.notMem {crew : Crew W} {opening : List Event} {errand : Errand}
    (begun : Begun crew opening errand) (reply : Mission.Reply) : .replied reply ∉ opening := by
  cases begun <;> simp

/-- What comes before a reply in the events of a transition, and why the reply came. -/
theorem Transition.answered [WheelDrive W] {crew next : Crew W} {early late : List Event}
    {reply : Mission.Reply} (transition : Transition crew next (early ++ .replied reply :: late)) :
    Answered crew early reply := by
  generalize same : early ++ .replied reply :: late = events at transition
  have member : .replied reply ∈ events := by simp [← same]
  -- A move replies at most once, and the events around the reply hold no other, so there is only
  -- one way to split them at it.
  have other (opening : List Event) {behind : List Event} {given : Mission.Reply}
      {progress : Mission.Progress} (outside : .replied reply ∉ opening)
      (split : events = opening ++ .replied given :: behind)
      (tail : behind = endings progress) : early = opening ∧ reply = given := by
    subst tail
    have parts := (List.append_cons_inj_of_notMem outside
      (notMem_of_aside rfl (isCall_endings progress))).mp (split.symm.trans same.symm)
    exact ⟨parts.1.symm, (Event.replied.inj parts.2.1).symm⟩
  cases transition with
  | enter =>
    exact absurd member (notMem_of_aside rfl (List.forall_mem_cons.mpr ⟨rfl, isCall_endings _⟩))
  | pause => simp at member
  | blocked begun stepped => exact absurd member (begun.notMem reply)
  | @moved _ errand _ _ begun stepped =>
    rcases List.mem_append.mp member with opened | left
    · exact absurd opened (begun.notMem reply)
    · exact absurd left (notMem_of_aside rfl (isCall_requestsOf errand))
  | ended begun stepped resumed =>
    obtain ⟨rfl, rfl⟩ := other _ (begun.notMem reply) rfl rfl
    exact .ended begun stepped
  | wake pending resumed =>
    obtain ⟨rfl, rfl⟩ := other [] List.not_mem_nil rfl rfl
    exact .woken pending
  | expire pending guarded resumed =>
    obtain ⟨rfl, rfl⟩ := other [] List.not_mem_nil rfl rfl
    exact .expired pending guarded
  | period => simp at member
  | arm => exact absurd member (notMem_of_aside rfl (isCall_serve crew _ _))
  | aside aside =>
    exact absurd member (notMem_of_aside rfl
      fun event member => Event.isCall_of_isAside (aside.events event member))

/-- A call that is no pause is answered by the last operation of its errand. -/
theorem errand_over [WheelDrive W] {setup : Setup} {wheels : W} {schedule : List (Move W)}
    {call : Mission.Call} {before since after : List Event} (busy : ∀ ms, call ≠ .pause ms)
    (split : history setup wheels schedule =
      before ++ .called call :: since ++ .replied .done :: after)
    (within : ∀ event ∈ since, event.isCall = false) :
    ∃ (first : List (Move W)) (opening : List Event) (errand : Errand) (shared : Shared.State),
      Begun (reached setup wheels first) opening errand ∧ errand.call = call ∧
        errand.step (reached setup wheels first).shared = .over .done shared ∧
        sinceCall (history setup wheels first ++ opening) = since := by
  obtain ⟨first, next, early, late, transition, front⟩ := history_split split
  obtain ⟨latest_eq, since_eq⟩ := split_at_latest (rfl : (Event.called call).isCall = true) within before
  rw [front] at latest_eq since_eq
  have underWay := underWay_reached setup wheels first
  cases transition.answered with
  | ended begun stepped =>
    have called := (underWay.begun begun).2.symm.trans latest_eq
    exact ⟨first, early, _, _, begun, Event.called.inj (Option.some.inj called), stepped, since_eq⟩
  | woken pending =>
    obtain ⟨ms, _, called⟩ := underWay.pause pending
    rw [List.append_nil, called] at latest_eq
    exact absurd (Event.called.inj (Option.some.inj latest_eq)).symm (busy ms)

end Mecanum.Robot.Crew
