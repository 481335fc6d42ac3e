import Mecanum.Proofs.Crew.Chassis

/-!
# The arm and its requests

The queue of the arm is first in, first out, and the arm serves one request after another. So the
requests received are the first of those that were made, and those performed are the first of those
received. The signal that ends a call of the arm carries no name: it says that some request has been
performed since the call. This is the request of the call itself exactly if none from before was
left to perform, or if the arm got through all of them in the meantime.
-/
namespace Mecanum.Robot.Crew

open Arm (Task)
open Mission (Errand Stage)
open Motion (WheelDrive)

variable {W : Type}

/-! ### The books of the arm -/

/-- The requests made, received and performed, and where those in between are. -/
structure Ledger (crew : Crew W) (history : List Event) : Prop where
  queued : requests history = receipts history ++ crew.shared.tasks.toList
  served : receipts history = performances history ++ crew.serving.toList
  serving : crew.serving.isSome = crew.arm.requested
  free : crew.arm.performance = none → crew.arm.requested = false

theorem ledger_new [WheelDrive W] (setup : Setup) (wheels : W) : Ledger (new setup wheels) [] where
  queued := rfl
  served := rfl
  serving := rfl
  free _ := rfl

/-- Whether an event is about a request of the arm. -/
def Event.isArm : Event → Bool
  | requested _ | received _ | performed _ => true
  | _ => false

theorem requests_aside {events : List Event} (aside : ∀ event ∈ events, event.isArm = false) :
    requests events = [] := by
  refine List.filterMap_eq_nil_iff.mpr fun event member => ?_
  cases event <;> first | rfl | cases aside _ member

theorem receipts_aside {events : List Event} (aside : ∀ event ∈ events, event.isArm = false) :
    receipts events = [] := by
  refine List.filterMap_eq_nil_iff.mpr fun event member => ?_
  cases event <;> first | rfl | cases aside _ member

theorem performances_aside {events : List Event} (aside : ∀ event ∈ events, event.isArm = false) :
    performances events = [] := by
  refine List.filterMap_eq_nil_iff.mpr fun event member => ?_
  cases event <;> first | rfl | cases aside _ member

theorem Event.isArm_of_isAside {event : Event} (aside : event.isAside = true) :
    event.isArm = false := by
  cases event <;> first | rfl | cases aside

theorem isArm_endings (progress : Mission.Progress) :
    ∀ event ∈ endings progress, event.isArm = false :=
  forall_endings (fun _ => rfl) progress

theorem isArm_actsOf (entry : Option Arm.Entry) : ∀ event ∈ actsOf entry, event.isArm = false :=
  forall_actsOf (fun _ => rfl) entry

theorem Begun.isArm {crew : Crew W} {opening : List Event} {errand : Errand}
    (begun : Begun crew opening errand) : ∀ event ∈ opening, event.isArm = false :=
  begun.forall_opening fun _ => rfl

theorem isArm_over {crew : Crew W} {opening : List Event} {errand : Errand}
    (begun : Begun crew opening errand) (reply : Mission.Reply) (progress : Mission.Progress) :
    ∀ event ∈ opening ++ .replied reply :: endings progress, event.isArm = false :=
  List.forall_mem_append.mpr
    ⟨begun.isArm, List.forall_mem_cons.mpr ⟨rfl, isArm_endings progress⟩⟩

theorem receipts_requestsOf (errand : Errand) : receipts (requestsOf errand) = [] := by
  unfold requestsOf
  split <;> rfl

theorem performances_requestsOf (errand : Errand) : performances (requestsOf errand) = [] := by
  unfold requestsOf
  split <;> rfl

/-- An operation that goes on leaves in the queue what it says. -/
theorem tasks_moved {errand next : Errand} {shared behind : Shared.State}
    (stepped : errand.step shared = .moved next behind) :
    behind.tasks.toList = shared.tasks.toList ++ requests (requestsOf errand) := by
  cases Errand.stepped_of_step stepped with
  | armRequested pushed => exact Shared.Queue.toList_push? pushed
  | _ => exact (List.append_nil _).symm

/-- Whether the arm begins or ends the service of a request. -/
def Event.isService : Event → Bool
  | received _ | performed _ => true
  | _ => false

/-- Whether the arm works or begins or ends the service of a request. -/
def Event.isWork : Event → Bool
  | acted _ => true
  | event => event.isService

theorem Event.isService_of_isWork {event : Event} (apart : event.isWork = false) :
    event.isService = false := by
  cases event <;> first | rfl | cases apart

theorem Event.isWork_of_isAside {event : Event} (aside : event.isAside = true) :
    event.isWork = false := by
  cases event <;> first | rfl | cases aside

theorem isWork_endings (progress : Mission.Progress) :
    ∀ event ∈ endings progress, event.isWork = false :=
  forall_endings (fun _ => rfl) progress

theorem Begun.isWork {crew : Crew W} {opening : List Event} {errand : Errand}
    (begun : Begun crew opening errand) : ∀ event ∈ opening, event.isWork = false :=
  begun.forall_opening fun _ => rfl

theorem isService_actsOf (entry : Option Arm.Entry) :
    ∀ event ∈ actsOf entry, event.isService = false :=
  forall_actsOf (fun _ => rfl) entry

/-- What the arm has no part in leaves its books as they are. -/
theorem Ledger.aside {crew next : Crew W} {history events : List Event}
    (ledger : Ledger crew history) (arm : next.arm = crew.arm)
    (serving : next.serving = crew.serving) (tasks : next.shared.tasks = crew.shared.tasks)
    (aside : ∀ event ∈ events, event.isArm = false) : Ledger next (history ++ events) where
  queued := by
    rw [requests_append, receipts_append, requests_aside aside, receipts_aside aside,
      List.append_nil, List.append_nil, tasks]
    exact ledger.queued
  served := by
    rw [receipts_append, performances_append, receipts_aside aside, performances_aside aside,
      List.append_nil, List.append_nil, serving]
    exact ledger.served
  serving := by rw [arm, serving]; exact ledger.serving
  free := by rw [arm]; exact ledger.free

/-- The operation that makes a request puts it behind the others in the queue. -/
private theorem Ledger.moved {crew : Crew W} {history opening : List Event} {errand next : Errand}
    {shared : Shared.State} (ledger : Ledger crew history) (begun : Begun crew opening errand)
    (stepped : errand.step crew.shared = .moved next shared) :
    Ledger { crew with pending := some (.errand next), shared := shared }
      (history ++ (opening ++ requestsOf errand)) where
  queued := by
    rw [requests_append, requests_append, requests_aside begun.isArm, List.nil_append,
      receipts_append, receipts_append, receipts_aside begun.isArm, receipts_requestsOf,
      List.append_nil, List.append_nil, tasks_moved stepped, ledger.queued, List.append_assoc]
  served := by
    rw [receipts_append, receipts_append, receipts_aside begun.isArm, receipts_requestsOf,
      performances_append, performances_append, performances_aside begun.isArm,
      performances_requestsOf, List.append_nil, List.append_nil, List.append_nil]
    exact ledger.served
  serving := ledger.serving
  free := ledger.free

/-! ### Steps of the arm -/

/-- What a step of the arm means for its requests. -/
inductive Serves (crew next : Crew W) : List Event → Prop where
  | onward {entry : Option Arm.Entry} (serving : next.serving = crew.serving)
      (requested : next.arm.requested = crew.arm.requested)
      (tasks : next.shared.tasks = crew.shared.tasks)
      (signal : next.shared.armFinished = crew.shared.armFinished)
      (onward : crew.arm.Onward next.arm entry) : Serves crew next (actsOf entry)
  | received {task : Task} (free : crew.serving = none) (serving : next.serving = some task)
      (requested : next.arm.requested = true)
      (taken : crew.shared.tasks.toList = task :: next.shared.tasks.toList)
      (signal : next.shared.armFinished = crew.shared.armFinished)
      (begun : next.arm.performance = some (.ofTask crew.arm.config task)) :
      Serves crew next [.received task]
  | performed {task : Task} {performance : Arm.Performance} (busy : crew.serving = some task)
      (free : next.serving = none) (requested : next.arm.requested = false)
      (tasks : next.shared.tasks = crew.shared.tasks)
      (signal : next.shared.armFinished = ⟨some ()⟩)
      (performing : crew.arm.performance = some performance)
      (ended : performance.call? crew.arm.config = .ok none)
      (rest : next.arm.performance = none) : Serves crew next [.performed task]

/-- Nothing is received or performed while the flag of the arm stays as it is. -/
private theorem serves_onward {crew : Crew W} {next : ArmTask} {behind : Shared.State}
    {entry : Option Arm.Entry} (requested : next.requested = crew.arm.requested)
    (tasks : behind.tasks = crew.shared.tasks)
    (signal : behind.armFinished = crew.shared.armFinished)
    (onward : crew.arm.Onward next entry) :
    Serves crew { crew with arm := next, serving := (crew.serve next).1, shared := behind }
      (actsOf entry ++ (crew.serve next).2) := by
  have same : crew.serve next = (crew.serving, []) := by
    unfold serve
    rw [requested]
    cases crew.arm.requested <;> rfl
  rw [same, List.append_nil]
  exact .onward rfl requested tasks signal onward

/-- A step of the arm begins the service of the oldest request, ends a service, or does neither. -/
theorem Ledger.serves {crew : Crew W} {history : List Event} {next : ArmTask}
    {behind : Shared.State} {entry : Option Arm.Entry} (ledger : Ledger crew history)
    (stepped : ArmTask.Stepped crew.arm crew.shared next behind entry) :
    Serves crew
      { crew with arm := next, serving := (crew.serve next).1, shared := behind }
      (actsOf entry ++ (crew.serve next).2) := by
  -- The flag of the arm rises when it receives a request and falls when it has performed it, so the
  -- changes of the flag tell the two apart.
  cases stepped with
  | waiting => exact serves_onward rfl rfl rfl (.still rfl)
  | @receiving request tasks free taken =>
    have idle := ledger.free free
    have held := Shared.Queue.toList_pop? taken
    have serving := ledger.serving
    rw [idle] at serving
    simp only [serve, idle, held, List.head?_cons, Option.map_some, Option.toList_some]
    exact .received (Option.not_isSome_iff_eq_none.mp (by rw [serving]; simp)) rfl rfl held rfl
      rfl
  | finishing busy ended =>
    cases requested : crew.arm.requested with
    | false =>
      exact serves_onward requested.symm rfl rfl (.posed busy ended requested rfl)
    | true =>
      have serving := ledger.serving
      rw [requested] at serving
      obtain ⟨task, held⟩ := Option.isSome_iff_exists.mp serving
      simp only [serve, requested, held, Option.map_some, Option.toList_some, if_true]
      exact .performed held rfl rfl rfl rfl busy ended rfl
  | pausing => exact serves_onward rfl rfl rfl (.still rfl)
  | performing busy called => exact serves_onward rfl rfl rfl (.acted busy called rfl)

/-- Whatever a step of the arm means for the requests, the books stay in order. -/
theorem Ledger.of_serves {crew next : Crew W} {history events : List Event}
    (ledger : Ledger crew history) (serves : Serves crew next events)
    (free : next.arm.performance = none → next.arm.requested = false) :
    Ledger next (history ++ events) := by
  cases serves with
  | @onward entry serving requested tasks =>
    have aside := isArm_actsOf entry
    refine ⟨?_, ?_, ?_, free⟩
    · rw [requests_append, receipts_append, requests_aside aside, receipts_aside aside,
        List.append_nil, List.append_nil, tasks]
      exact ledger.queued
    · rw [receipts_append, performances_append, receipts_aside aside, performances_aside aside,
        List.append_nil, List.append_nil, serving]
      exact ledger.served
    · rw [serving, requested]
      exact ledger.serving
  | @received task idle serving requested taken =>
    -- The request leaves the head of the queue and joins the end of those received.
    have queued := ledger.queued
    have served := ledger.served
    rw [taken] at queued
    rw [idle, Option.toList_none, List.append_nil] at served
    refine ⟨?_, ?_, by rw [serving, requested]; rfl, free⟩
    · rw [requests_append, requests_received, receipts_append, receipts_received, List.append_nil,
        List.append_assoc]
      exact queued
    · rw [receipts_append, receipts_received, performances_append, performances_received,
        List.append_nil, serving, served]
      rfl
  | @performed task _ busy idle requested tasks =>
    -- The request was the one received last, and it joins the end of those performed.
    have queued := ledger.queued
    have served := ledger.served
    rw [busy] at served
    refine ⟨?_, ?_, by rw [idle, requested]; rfl, free⟩
    · rw [requests_append, requests_performed, receipts_append, receipts_performed,
        List.append_nil, List.append_nil, tasks]
      exact queued
    · rw [receipts_append, receipts_performed, performances_append, performances_performed,
        List.append_nil, idle, served]
      simp

/-- The books stay in order whatever the next move is. -/
theorem Ledger.kept [WheelDrive W] {crew next : Crew W} {history events : List Event}
    (ledger : Ledger crew history) (transition : Transition crew next events) :
    Ledger next (history ++ events) := by
  cases transition with
  | enter =>
    exact ledger.aside rfl rfl rfl (List.forall_mem_cons.mpr ⟨rfl, isArm_endings _⟩)
  | pause => exact ledger.aside rfl rfl rfl (List.forall_mem_singleton.mpr rfl)
  | blocked begun stepped => exact ledger.aside rfl rfl (Errand.tasks_blocked stepped) begun.isArm
  | moved begun stepped => exact ledger.moved begun stepped
  | ended begun stepped resumed =>
    exact ledger.aside rfl rfl (Errand.tasks_over stepped) (isArm_over begun _ _)
  | wake => exact ledger.aside rfl rfl rfl (List.forall_mem_cons.mpr ⟨rfl, isArm_endings _⟩)
  | expire => exact ledger.aside rfl rfl rfl (List.forall_mem_cons.mpr ⟨rfl, isArm_endings _⟩)
  | period stepped =>
    exact ledger.aside rfl rfl (Motion.Loop.step_tasks stepped) (List.forall_mem_singleton.mpr rfl)
  | arm stepped =>
    have onward := ArmTask.step_stepped stepped
    exact ledger.of_serves (ledger.serves onward) (onward.free ledger.free)
  | aside aside =>
    exact ledger.aside aside.arm aside.serving aside.tasks
      fun event member => Event.isArm_of_isAside (aside.events event member)

/-- On every schedule the books of the arm are in order. -/
theorem ledger_reached [WheelDrive W] (setup : Setup) (wheels : W) (schedule : List (Move W)) :
    Ledger (reached setup wheels schedule) (history setup wheels schedule) :=
  run_invariant Ledger Ledger.kept (ledger_new setup wheels) schedule

/-! ### A call of the arm -/

/-- What has happened since the call, while a call of the arm is under way. -/
structure Asked (crew : Crew W) (history : List Event) : Prop where
  request : ∀ {task stage}, crew.pending = some (.errand (.arm task stage)) →
    requests (sinceCall history) = if stage = .await then [task] else []
  signal : ∀ {task stage}, crew.pending = some (.errand (.arm task stage)) → stage ≠ .clear →
    crew.shared.armFinished.isRaised = true → performances (sinceCall history) ≠ []

theorem asked_apart {crew : Crew W} {history : List Event}
    (apart : ∀ task stage, crew.pending ≠ some (.errand (.arm task stage))) :
    Asked crew history where
  request pending := absurd pending (apart _ _)
  signal pending := absurd pending (apart _ _)

theorem asked_free {crew : Crew W} {history : List Event} (free : crew.pending = none) :
    Asked crew history := by
  refine asked_apart fun task stage => ?_
  rw [free]
  nofun

theorem asked_other {crew : Crew W} {history : List Event} {errand : Errand}
    (pending : crew.pending = some (.errand errand)) (aside : errand.instructs = false) :
    Asked crew history := by
  refine asked_apart fun task stage => ?_
  rw [pending]
  rintro ⟨⟩
  cases aside

/-- To know what has happened since a call of the arm, it is enough to know it for the stage of the
call. -/
theorem asked_stage {crew : Crew W} {history : List Event} {task : Task} {stage : Stage}
    (pending : crew.pending = some (.errand (.arm task stage)))
    (request : requests (sinceCall history) = if stage = .await then [task] else [])
    (signal : stage ≠ .clear → crew.shared.armFinished.isRaised = true →
      performances (sinceCall history) ≠ []) : Asked crew history where
  request busy := by
    rw [pending] at busy
    cases busy
    exact request
  signal busy := by
    rw [pending] at busy
    cases busy
    exact signal

/-- Events apart from calls and requests change nothing for the call under way. -/
theorem Asked.aside {crew next : Crew W} {history events : List Event}
    (asked : Asked crew history) (pending : next.pending = crew.pending)
    (signal : next.shared.armFinished = crew.shared.armFinished)
    (calls : ∀ event ∈ events, event.isCall = false)
    (aside : ∀ event ∈ events, event.isArm = false) : Asked next (history ++ events) where
  request busy := by
    rw [sinceCall_aside calls, requests_append, requests_aside aside, List.append_nil]
    exact asked.request (pending ▸ busy)
  signal busy later raised := by
    rw [sinceCall_aside calls, performances_append, performances_aside aside, List.append_nil]
    exact asked.signal (pending ▸ busy) later (signal ▸ raised)

/-- An operation that cannot go on changes nothing since the call. -/
private theorem Asked.blocked {crew : Crew W} {history opening : List Event}
    {errand next : Errand} {shared : Shared.State} (asked : Asked crew history)
    (begun : Begun crew opening errand) (stepped : errand.step crew.shared = .blocked next shared) :
    Asked { crew with pending := some (.errand next), shared := shared } (history ++ opening) := by
  cases aside : errand.instructs with
  | false =>
    have left : (errand.step crew.shared).errand? = some next := by rw [stepped]; rfl
    exact asked_other rfl (Errand.instructs_step left ▸ aside)
  | true =>
    cases Errand.stepped_of_step stepped with
    | armRefused =>
      obtain ⟨rfl, pending⟩ := begun.pending (by simp [Errand.call, Errand.ofCall?])
      exact asked.aside pending.symm rfl (by simp) (by simp)
    | armAwaited =>
      obtain ⟨rfl, pending⟩ := begun.pending (by simp [Errand.call, Errand.ofCall?])
      exact asked.aside pending.symm rfl (by simp) (by simp)
    | _ => cases aside

/-- The first operation forgets older completions, the second makes the one request of the call. -/
private theorem Asked.moved {crew : Crew W} {history opening : List Event}
    {errand next : Errand} {shared : Shared.State} (asked : Asked crew history)
    (begun : Begun crew opening errand) (stepped : errand.step crew.shared = .moved next shared) :
    Asked { crew with pending := some (.errand next), shared := shared }
      (history ++ (opening ++ requestsOf errand)) := by
  cases aside : errand.instructs with
  | false =>
    have left : (errand.step crew.shared).errand? = some next := by rw [stepped]; rfl
    exact asked_other rfl (Errand.instructs_step left ▸ aside)
  | true =>
    cases Errand.stepped_of_step stepped with
    | @armCleared task =>
      -- The older completion is gone, and nothing has been asked for since the call.
      have none : requestsOf (.arm task .clear) = [] := rfl
      rw [none, List.append_nil]
      refine asked_stage rfl ?_ fun _ raised => by cases raised
      cases begun with
      | first => rw [sinceCall_concat rfl]; rfl
      | again pending => rw [List.append_nil]; exact (asked.request pending).trans rfl
    | @armRequested task _ pushed =>
      obtain ⟨rfl, pending⟩ := begun.pending (by simp [Errand.call, Errand.ofCall?])
      have before := asked.request pending
      have call : ∀ event ∈ [Event.requested task], event.isCall = false :=
        List.forall_mem_singleton.mpr rfl
      refine asked_stage rfl ?_ fun _ raised => ?_
      · rw [requestsOf, List.nil_append, sinceCall_aside call, requests_append, before]
        rfl
      · rw [requestsOf, List.nil_append, sinceCall_aside call, performances_append]
        exact List.append_ne_nil_of_left_ne_nil (asked.signal pending (by simp) raised) _
    | _ => cases aside

/-- The signal is raised only together with a performance, which comes since the call. -/
private theorem Asked.serves {crew next : Crew W} {history events : List Event}
    (asked : Asked crew history) (pending : next.pending = crew.pending)
    (serves : Serves crew next events) : Asked next (history ++ events) := by
  cases serves with
  | @onward entry _ _ _ signal =>
    exact asked.aside pending signal (isCall_actsOf entry) (isArm_actsOf entry)
  | @received task _ _ _ _ signal =>
    have call : ∀ event ∈ [Event.received task], event.isCall = false :=
      List.forall_mem_singleton.mpr rfl
    refine ⟨fun busy => ?_, fun busy later raised => ?_⟩
    · rw [sinceCall_aside call, requests_append, requests_received, List.append_nil]
      exact asked.request (pending ▸ busy)
    · rw [sinceCall_aside call, performances_append, performances_received, List.append_nil]
      exact asked.signal (pending ▸ busy) later (signal ▸ raised)
  | @performed task =>
    have call : ∀ event ∈ [Event.performed task], event.isCall = false :=
      List.forall_mem_singleton.mpr rfl
    -- From now on the signal may stand for this performance, which has come since the call.
    refine ⟨fun busy => ?_, fun _ _ _ => ?_⟩
    · rw [sinceCall_aside call, requests_append, requests_performed, List.append_nil]
      exact asked.request (pending ▸ busy)
    · rw [sinceCall_aside call, performances_append, performances_performed]
      exact List.append_ne_nil_of_right_ne_nil _ (List.cons_ne_nil _ _)

/-- No transition raises the signal of the arm without a performance since the call. -/
theorem Asked.kept [WheelDrive W] {crew next : Crew W} {history events : List Event}
    (ledger : Ledger crew history) (asked : Asked crew history)
    (transition : Transition crew next events) : Asked next (history ++ events) := by
  cases transition with
  | enter free => exact asked_free free
  | pause => exact asked_apart fun _ _ => nofun
  | blocked begun stepped => exact asked.blocked begun stepped
  | moved begun stepped => exact asked.moved begun stepped
  | ended => exact asked_free rfl
  | wake => exact asked_free rfl
  | expire => exact asked_free rfl
  | period stepped =>
    exact asked.aside rfl (Motion.Loop.step_armFinished stepped)
      (List.forall_mem_singleton.mpr rfl) (List.forall_mem_singleton.mpr rfl)
  | arm stepped => exact asked.serves rfl (ledger.serves (ArmTask.step_stepped stepped))
  | aside aside =>
    exact asked.aside aside.pending aside.armFinished
      (fun event member => Event.isCall_of_isAside (aside.events event member))
      (fun event member => Event.isArm_of_isAside (aside.events event member))

theorem asked_reached [WheelDrive W] (setup : Setup) (wheels : W) (schedule : List (Move W)) :
    Asked (reached setup wheels schedule) (history setup wheels schedule) := by
  have joint := run_invariant (fun crew history => Ledger crew history ∧ Asked crew history)
    (fun fits transition => ⟨fits.1.kept transition, fits.2.kept fits.1 transition⟩)
    ⟨ledger_new setup wheels, asked_free rfl⟩ schedule
  exact joint.2

/-! ### Requests in their turn -/

section Turns

variable [WheelDrive W]

/-- A move that is not a step of the arm leaves the arm as it is and tells nothing of its work. -/
theorem Transition.apart_or_serves {crew next : Crew W} {history events : List Event}
    (ledger : Ledger crew history) (transition : Transition crew next events) :
    (next.arm = crew.arm ∧ next.serving = crew.serving ∧
        ∀ event ∈ events, event.isWork = false) ∨
      (next.arm.config = crew.arm.config ∧ Serves crew next events) := by
  cases transition with
  | enter => exact .inl ⟨rfl, rfl, List.forall_mem_cons.mpr ⟨rfl, isWork_endings _⟩⟩
  | pause => exact .inl ⟨rfl, rfl, List.forall_mem_singleton.mpr rfl⟩
  | blocked begun => exact .inl ⟨rfl, rfl, begun.isWork⟩
  | @moved _ errand _ _ begun =>
    exact .inl ⟨rfl, rfl,
      List.forall_mem_append.mpr ⟨begun.isWork, forall_requestsOf (fun _ => rfl) errand⟩⟩
  | ended begun =>
    exact .inl ⟨rfl, rfl, List.forall_mem_append.mpr
      ⟨begun.isWork, List.forall_mem_cons.mpr ⟨rfl, isWork_endings _⟩⟩⟩
  | wake => exact .inl ⟨rfl, rfl, List.forall_mem_cons.mpr ⟨rfl, isWork_endings _⟩⟩
  | expire => exact .inl ⟨rfl, rfl, List.forall_mem_cons.mpr ⟨rfl, isWork_endings _⟩⟩
  | period => exact .inl ⟨rfl, rfl, List.forall_mem_singleton.mpr rfl⟩
  | arm stepped =>
    have onward := ArmTask.step_stepped stepped
    exact .inr ⟨onward.config, ledger.serves onward⟩
  | aside aside =>
    exact .inl ⟨aside.arm, aside.serving,
      fun event member => Event.isWork_of_isAside (aside.events event member)⟩

/-- Only a step of the arm makes the arm act. -/
theorem Transition.serves {crew next : Crew W} {history events : List Event}
    (ledger : Ledger crew history) (transition : Transition crew next events) {event : Event}
    (member : event ∈ events) (work : event.isWork = true) : Serves crew next events := by
  rcases transition.apart_or_serves ledger with ⟨_, _, apart⟩ | ⟨_, serves⟩
  · rw [apart event member] at work
    cases work
  · exact serves

variable {setup : Setup} {wheels : W} {schedule : List (Move W)} {front back : List Event}
  {task : Task}

/-- A request is received when all before it have been performed, and it is the next in the
queue. -/
theorem received_in_turn
    (split : history setup wheels schedule = front ++ .received task :: back) :
    performances front = receipts front ∧ receipts front ++ [task] <+: requests front := by
  obtain ⟨first, next, early, late, transition, rfl⟩ := history_split split
  have ledger := ledger_reached setup wheels first
  have serves := transition.serves ledger List.mem_append_cons_self rfl
  generalize same : early ++ .received task :: late = events at serves
  cases serves with
  | @onward entry => cases isService_actsOf entry _ (same ▸ List.mem_append_cons_self)
  | received free serving requested taken =>
    rcases List.append_eq_singleton_iff.mp same with ⟨rfl, behind⟩ | ⟨_, behind⟩
    · cases behind
      have served := ledger.served
      rw [free, Option.toList_none, List.append_nil] at served
      rw [List.append_nil]
      refine ⟨served.symm, next.shared.tasks.toList, ?_⟩
      rw [ledger.queued, taken, List.append_assoc]
      rfl
    · cases behind
  | performed =>
    rcases List.append_eq_singleton_iff.mp same with ⟨_, behind⟩ | ⟨_, behind⟩ <;> cases behind

/-- A request counts as performed at the end of the performance that the arm is at. -/
theorem performed_at
    (split : history setup wheels schedule = front ++ .performed task :: back) :
    ∃ first performance, front = history setup wheels first ∧
      (reached setup wheels first).serving = some task ∧
      (reached setup wheels first).arm.performance = some performance ∧
      performance.call? (reached setup wheels first).arm.config = .ok none := by
  obtain ⟨first, next, early, late, transition, rfl⟩ := history_split split
  have serves := transition.serves (ledger_reached setup wheels first)
    List.mem_append_cons_self rfl
  generalize same : early ++ .performed task :: late = events at serves
  cases serves with
  | @onward entry => cases isService_actsOf entry _ (same ▸ List.mem_append_cons_self)
  | received =>
    rcases List.append_eq_singleton_iff.mp same with ⟨_, behind⟩ | ⟨_, behind⟩ <;> cases behind
  | @performed _ performance busy _ _ _ _ performing ended =>
    rcases List.append_eq_singleton_iff.mp same with ⟨rfl, behind⟩ | ⟨_, behind⟩
    · cases behind
      exact ⟨first, performance, List.append_nil _, busy, performing, ended⟩
    · cases behind

/-- A request is performed when it has been received and all before it have been performed. -/
theorem performed_in_turn
    (split : history setup wheels schedule = front ++ .performed task :: back) :
    receipts front = performances front ++ [task] := by
  obtain ⟨first, _, rfl, busy, _⟩ := performed_at split
  have served := (ledger_reached setup wheels first).served
  rwa [busy] at served

/-- At every moment the requests performed are the first of those received, and these are the first
of those made. -/
theorem in_turn (split : history setup wheels schedule = front ++ back) :
    performances front <+: receipts front ∧ receipts front <+: requests front := by
  -- On the events so far, from the end: what comes last is in turn because all before it is.
  induction front using List.reverseRecOn generalizing back with
  | nil => exact ⟨List.prefix_rfl, List.prefix_rfl⟩
  | append_singleton front event ih =>
    rw [List.append_assoc] at split
    obtain ⟨performed, received⟩ := ih split
    cases takesPart : event.isArm with
    | false =>
      have aside : ∀ other ∈ [event], Event.isArm other = false :=
        List.forall_mem_singleton.mpr takesPart
      rw [performances_append, performances_aside aside, receipts_append, receipts_aside aside,
        requests_append, requests_aside aside, List.append_nil, List.append_nil, List.append_nil]
      exact ⟨performed, received⟩
    | true =>
      cases event with
      | requested task =>
        rw [performances_append, performances_requested, receipts_append, receipts_requested,
          requests_append, List.append_nil, List.append_nil]
        exact ⟨performed, received.trans (List.prefix_append _ _)⟩
      | received task =>
        obtain ⟨even, next⟩ := received_in_turn split
        rw [performances_append, performances_received, receipts_append, receipts_received,
          requests_append, requests_received, List.append_nil, List.append_nil, even]
        exact ⟨List.prefix_append _ _, next⟩
      | performed task =>
        have ahead := performed_in_turn split
        rw [performances_append, performances_performed, receipts_append, receipts_performed,
          requests_append, requests_performed, List.append_nil, List.append_nil, ← ahead]
        exact ⟨List.prefix_rfl, received⟩
      | _ => cases takesPart

end Turns

/-! ### The request of a call -/

/-- The number of requests that are waiting or being performed. -/
def outstanding (history : List Event) : Nat :=
  (requests history).length - (performances history).length

/-- Outstanding requests wait in the queue or are being performed. -/
theorem outstanding_reached [WheelDrive W] (setup : Setup) (wheels : W)
    (schedule : List (Move W)) :
    outstanding (history setup wheels schedule) =
      (reached setup wheels schedule).shared.tasks.size +
        (reached setup wheels schedule).arm.requested.toNat := by
  -- What was requested and not performed is in the queue or being served.
  have ledger := ledger_reached setup wheels schedule
  rw [outstanding, ledger.queued, ledger.served, ← ledger.serving]
  cases (reached setup wheels schedule).serving with
  | none => simp [Shared.Queue.size]
  | some task => simp [Shared.Queue.size, Nat.add_comm]

/-- Whether the arm has received the request of a call and performed it to its end, all since the
call. Requests are received in the order they are made, so this one is received when as many have
been received as were made before the call. -/
def Served (task : Task) (before since : List Event) : Prop :=
  ∃ early middle late,
    since = early ++ .received task :: (middle ++ .performed task :: late) ∧
      (receipts (before ++ early)).length = (requests before).length ∧ performances middle = []

/-- The last receipt of some events is found where the receipts say. -/
private theorem split_at_receipt {events : List Event} {earlier : List Task} {task : Task}
    (split : receipts events = earlier ++ [task]) :
    ∃ early late, events = early ++ .received task :: late ∧ receipts early = earlier := by
  obtain ⟨front, back, rfl, ahead, behind⟩ := List.filterMap_eq_append_iff.mp split
  obtain ⟨middle, event, late, rfl, none, found, _⟩ := List.filterMap_eq_cons_iff.mp behind
  cases event <;> cases found
  refine ⟨front ++ middle, late, by simp, ?_⟩
  rw [receipts_append, receipts, ahead, receipts, List.filterMap_eq_nil_iff.mpr none,
    List.append_nil]

private theorem split_at_performance {events : List Event} {task : Task}
    (single : performances events = [task]) :
    ∃ early late, events = early ++ .performed task :: late ∧ performances early = [] := by
  obtain ⟨early, event, late, rfl, none, found, _⟩ := List.filterMap_eq_cons_iff.mp single
  cases event <;> cases found
  exact ⟨early, late, rfl, List.filterMap_eq_nil_iff.mpr none⟩

section Answers

variable [WheelDrive W] {setup : Setup} {wheels : W} {schedule : List (Move W)} {task : Task}
  {before since after : List Event}

/-- A call of the arm has made one request when it is answered, and some request has been performed
since. -/
private theorem arm_answered
    (split : history setup wheels schedule =
      before ++ .called (.arm task) :: since ++ .replied .done :: after)
    (within : ∀ event ∈ since, event.isCall = false) :
    requests since = [task] ∧ performances since ≠ [] := by
  obtain ⟨first, opening, errand, shared, begun, called, stepped, rfl⟩ :=
    errand_over (by simp) split within
  have asked := asked_reached setup wheels first
  cases Errand.stepped_of_step stepped with
  | served raised =>
    cases called
    obtain ⟨rfl, pending⟩ := begun.pending (by simp [Errand.call, Errand.ofCall?])
    rw [List.append_nil]
    exact ⟨asked.request pending, asked.signal pending (by simp) raised⟩
  | _ => cases called

/-- A request that was performed since its call was performed behind all those outstanding then. -/
private theorem Served.ahead (served : Served task before since)
    (split : history setup wheels schedule =
      before ++ .called (.arm task) :: since ++ .replied .done :: after) :
    outstanding before < (performances since).length := by
  obtain ⟨early, middle, late, rfl, turn, _⟩ := served
  have performed := performed_in_turn (split.trans
    (show _ = (before ++ .called (.arm task) :: early ++ .received task :: middle) ++
      .performed task :: (late ++ .replied .done :: after) by simp))
  have received : receipts (before ++ .called (.arm task) :: early ++ .received task :: middle) =
      receipts (before ++ early) ++ task :: receipts middle := by
    rw [receipts_append, receipts_append, receipts_append]
    rfl
  -- Counted, all requests from before the call and this one have been performed by then.
  have counted := congrArg List.length (received.symm.trans performed)
  simp only [List.length_append, List.length_cons, List.length_nil, turn, performances_append,
    performances_called, performances_received_cons] at counted
  simp only [outstanding, performances_append, performances_received_cons,
    performances_performed_cons, List.length_append, List.length_cons]
  omega

/-- If more requests have been performed since a call than were outstanding then, the last of them
is the request of the call. -/
private theorem served_of_ahead
    (split : history setup wheels schedule =
      before ++ .called (.arm task) :: since ++ .replied .done :: after)
    (request : requests since = [task])
    (ahead : outstanding before < (performances since).length) : Served task before since := by
  obtain ⟨performed, received⟩ := in_turn split
  obtain ⟨performed_before, received_before⟩ := in_turn (split.trans (List.append_assoc _ _ _))
  have made : requests (before ++ .called (.arm task) :: since) = requests before ++ [task] := by
    rw [requests_append, requests_called, request]
  rw [made] at received
  -- By now every request that was made has been performed.
  have reached_end : (requests before ++ [task]).length ≤
      (performances (before ++ .called (.arm task) :: since)).length := by
    have bound := (performed_before.trans received_before).length_le
    rw [performances_append, performances_called, List.length_append, List.length_append,
      List.length_singleton]
    unfold outstanding at ahead
    omega
  have all_performed : performances (before ++ .called (.arm task) :: since) =
      requests before ++ [task] :=
    (performed.trans received).eq_of_length_le reached_end
  have all_received : receipts (before ++ .called (.arm task) :: since) =
      requests before ++ [task] :=
    received.eq_of_length_le (reached_end.trans performed.length_le)
  -- So the last request received since the call is its own, and the one performed behind it.
  obtain ⟨earlier, others⟩ := received_before
  rw [receipts_append, receipts_called, ← others, List.append_assoc,
    List.append_cancel_left_eq] at all_received
  obtain ⟨early, rest, rfl, early_eq⟩ := split_at_receipt all_received
  have reordered : history setup wheels schedule =
      (before ++ .called (.arm task) :: early) ++ .received task ::
        (rest ++ .replied .done :: after) := by rw [split]; simp
  have even := (received_in_turn reordered).1
  have count : receipts (before ++ .called (.arm task) :: early) = requests before := by
    rw [receipts_append, receipts_called, early_eq, others]
  have last : performances rest = [task] := by
    rw [← List.cons_append, ← List.append_assoc, performances_append, even, count,
      performances_received_cons, List.append_cancel_left_eq] at all_performed
    exact all_performed
  obtain ⟨middle, late, rfl, none⟩ := split_at_performance last
  refine ⟨early, middle, late, rfl, ?_, none⟩
  rw [receipts_append, early_eq, others]

end Answers

/-- A call of the arm is answered when some request has been performed since it was made. That is
the request of the call itself exactly if more requests have been performed since the call than were
outstanding then. -/
theorem arm_served_iff [WheelDrive W] {setup : Setup} {wheels : W} {schedule : List (Move W)}
    {task : Task} {before since after : List Event}
    (split : history setup wheels schedule =
      before ++ .called (.arm task) :: since ++ .replied .done :: after)
    (within : ∀ event ∈ since, event.isCall = false) :
    requests since = [task] ∧ performances since ≠ [] ∧
      (Served task before since ↔ outstanding before < (performances since).length) := by
  obtain ⟨request, signal⟩ := arm_answered split within
  exact ⟨request, signal, fun served => served.ahead split, served_of_ahead split request⟩

/-- The moves of a code at the scanner: each byte arrives and is taken in. -/
def scan (code : List UInt8) : List (Move Motion.SimulatedChassis) :=
  code.flatMap fun byte => [.arrival .scanner byte, .intake .scanner]

/-- A run as far as its first call of the arm. -/
def outbound : List (Move Motion.SimulatedChassis) :=
  [.mission, .mission, .button .low, .mission, .button .high, .mission, .mission] ++ rollOut ++
    rollOut ++ scan [49, 50, 51, 43, 49, 50, 51, 10] ++ [.mission, .mission] ++ rollOut ++
    [.mission]

def armStep : Move Motion.SimulatedChassis := .arm 0 (.simulated (.new {}) (.new 1000)) .new

/-- A run as far as the answer to its first call of the arm. The arm takes its safe pose before it
receives the request. -/
def firstTask : List (Move Motion.SimulatedChassis) :=
  outbound ++ [.mission, .mission] ++ List.replicate 9 armStep ++ [.mission]

/-- What happens between the first call of the arm and its answer: the safe pose, then the task. -/
def firstAnswer : List Event :=
  [.requested .ready, .acted ⟨.servo .claw 10, 0⟩, .acted ⟨.servo .base 0, 0⟩,
    .acted ⟨.servo .turntable 17, 0⟩, .acted ⟨.lift 0, 0⟩, .received .ready,
    .acted ⟨.servo .base 0, 0⟩, .acted ⟨.servo .claw 10, 0⟩, .performed .ready]

/-- The first call of the arm is answered once its own request has been performed. -/
theorem arm_served_iff_firstTask :
    history {} (.new {}) firstTask =
        (history {} (.new {}) firstTask).take 27 ++ .called (.arm .ready) :: firstAnswer ++
          .replied .done :: [] ∧
      Served .ready ((history {} (.new {}) firstTask).take 27) firstAnswer := by
  have split : history {} (.new {}) firstTask =
      (history {} (.new {}) firstTask).take 27 ++ .called (.arm .ready) :: firstAnswer ++
        .replied .done :: [] := by
    decide +kernel
  exact ⟨split, (arm_served_iff split (by decide)).2.2.mpr (by decide +kernel)⟩

/-- Two runs under a watchdog. It aborts the first run while the arm performs its first task, and
the arm ends that task behind the first call of the second run. -/
def abandonedTask : List (Move Motion.SimulatedChassis) :=
  outbound ++ [.mission, .mission] ++ List.replicate 6 armStep ++ [.watchdog, .mission] ++
    outbound ++ [.mission, .mission] ++ List.replicate 3 armStep ++ [.mission]

/-- What happens between the first call of the arm in the second run and its answer. -/
def misattributedAnswer : List Event :=
  [.requested .ready, .acted ⟨.servo .base 0, 0⟩, .acted ⟨.servo .claw 10, 0⟩, .performed .ready]

/-- The call of the second run is answered by the end of the first task, while its own request
waits in the queue. -/
theorem arm_misattributed :
    history { mission := { timeout := some 1000 } } (.new {}) abandonedTask =
        (history { mission := { timeout := some 1000 } } (.new {}) abandonedTask).take 65 ++
          .called (.arm .ready) :: misattributedAnswer ++ .replied .done :: [] ∧
      ¬ Served .ready
        ((history { mission := { timeout := some 1000 } } (.new {}) abandonedTask).take 65)
        misattributedAnswer ∧
      (reached { mission := { timeout := some 1000 } } (.new {}) abandonedTask).shared.tasks.toList =
        [.ready] := by
  refine ⟨by decide +kernel, ?_, by decide +kernel⟩
  -- The arm receives nothing between the call and its answer.
  rintro ⟨early, middle, late, split, _⟩
  have member : .received .ready ∈ misattributedAnswer := by
    rw [split]
    exact List.mem_append_cons_self
  revert member
  decide

end Mecanum.Robot.Crew
