import Mecanum.Proofs.Crew.Work
import Mecanum.Proofs.Mission.ArmTasks

/-!
# Chassis and arm take turns

Without a watchdog no call is given up. Then the requests of the arm are those of the scripts, each
is performed by the moves of its task before its call ends, and nothing is outstanding between the
calls of the arm. The arm serves a request only while the mission waits for it, and then the chassis
is at rest; and a drive finds the arm without a request.
-/
namespace Mecanum.Robot.Crew

open Arm (Task)
open Mission (Errand Script Stage)
open Motion (WheelDrive)

variable {W : Type}

/-- The arm tasks of the script of a state that is entered. -/
def Event.scripted (offset : UInt8) : Event → List Task
  | entered state plan =>
    match state.script plan offset with
    | .ok script => Script.armTasks script
    | .error _ => []
  | _ => []

/-- The arm tasks of all scripts begun, in their order. -/
def scripted (offset : UInt8) (history : List Event) : List Task :=
  history.flatMap (Event.scripted offset)

theorem scripted_append (offset : UInt8) (front back : List Event) :
    scripted offset (front ++ back) = scripted offset front ++ scripted offset back :=
  List.flatMap_append

def Event.isEntry : Event → Bool
  | entered .. => true
  | _ => false

theorem scripted_aside {offset : UInt8} {events : List Event}
    (aside : ∀ event ∈ events, event.isEntry = false) : scripted offset events = [] := by
  refine List.flatMap_eq_nil_iff.mpr fun event member => ?_
  cases event <;> first | rfl | cases aside _ member

theorem armCalls_aside {events : List Event} (aside : ∀ event ∈ events, event.isCall = false) :
    armCalls events = [] := by
  refine List.filterMap_eq_nil_iff.mpr fun event member => ?_
  cases event <;> first | rfl | cases aside _ member

theorem isEntry_endings (progress : Mission.Progress) :
    ∀ event ∈ endings progress, event.isEntry = false :=
  forall_endings (fun _ => rfl) progress

theorem Begun.isEntry {crew : Crew W} {opening : List Event} {errand : Errand}
    (begun : Begun crew opening errand) : ∀ event ∈ opening, event.isEntry = false :=
  begun.forall_opening fun _ => rfl

theorem isEntry_requestsOf (errand : Errand) :
    ∀ event ∈ requestsOf errand, event.isEntry = false :=
  forall_requestsOf (fun _ => rfl) errand

theorem isEntry_serve (crew : Crew W) (entry : Option Arm.Entry) (next : ArmTask) :
    ∀ event ∈ actsOf entry ++ (crew.serve next).2, event.isEntry = false :=
  forall_serve (fun _ => rfl) (fun _ => rfl) (fun _ => rfl) crew entry next

theorem Event.isEntry_of_isAside {event : Event} (aside : event.isAside = true) :
    event.isEntry = false := by
  cases event <;> first | rfl | cases aside

theorem armCalls_replied (reply : Mission.Reply) (progress : Mission.Progress) :
    armCalls (.replied reply :: endings progress) = [] := by
  change armCalls (endings progress) = []
  exact armCalls_aside (isCall_endings progress)

/-! ### The scripts -/

/-- The arm tasks of the present script that have not been called for. -/
def ahead (crew : Crew W) : List Task :=
  match crew.pending with
  | none => crew.runner.armTasks
  | some _ => crew.runner.armTasksBehind

/-- A mission without watchdogs has called for the arm tasks of its scripts up to where it is. -/
structure OnScript (setup : Setup) (crew : Crew W) (history : List Event) : Prop where
  config : crew.runner.config = setup.mission
  called : armCalls history ++ crew.ahead = scripted setup.mission.ringOffset history

theorem onScript_new [WheelDrive W] (setup : Setup) (wheels : W) :
    OnScript setup (new setup wheels) [] := ⟨rfl, rfl⟩

/-- The task of a call that is begun is the next one of the script. -/
theorem Begun.ahead {crew : Crew W} {opening : List Event} {errand : Errand}
    (begun : Begun crew opening errand) :
    armCalls opening ++ crew.runner.armTasksBehind = crew.ahead := by
  cases begun with
  | @first call _ free waiting made =>
    rw [Crew.ahead, free, Mission.Runner.armTasks_of_call? waiting]
    cases call <;> rfl
  | again pending => rw [Crew.ahead, pending]; rfl

/-- What the mission has no part in leaves it where it is in its script. -/
theorem OnScript.aside {setup : Setup} {crew next : Crew W} {history events : List Event}
    (onScript : OnScript setup crew history) (runner : next.runner = crew.runner)
    (pending : next.pending = crew.pending) (calls : ∀ event ∈ events, event.isCall = false)
    (entries : ∀ event ∈ events, event.isEntry = false) :
    OnScript setup next (history ++ events) where
  config := by rw [runner]; exact onScript.config
  called := by
    rw [Crew.ahead, runner, pending, armCalls_append, armCalls_aside calls, scripted_append,
      scripted_aside entries, List.append_nil, List.append_nil]
    exact onScript.called

/-- A call that goes on or ends leaves the tasks behind it to be called for. -/
private theorem OnScript.onward {setup : Setup} {crew next : Crew W}
    {history opening behind : List Event} {errand : Errand}
    (onScript : OnScript setup crew history) (begun : Begun crew opening errand)
    (config : next.runner.config = crew.runner.config)
    (left : next.ahead = crew.runner.armTasksBehind) (calls : armCalls behind = [])
    (entries : ∀ event ∈ behind, event.isEntry = false) :
    OnScript setup next (history ++ (opening ++ behind)) where
  config := config.trans onScript.config
  called := by
    rw [left, armCalls_append, armCalls_append, calls, List.append_nil, List.append_assoc,
      begun.ahead, scripted_append, scripted_append, scripted_aside begun.isEntry,
      scripted_aside entries, List.append_nil, List.append_nil]
    exact onScript.called

/-- Only an arm call that is answered as such counts as called for. -/
private theorem Begun.done {crew : Crew W} {history opening : List Event} {errand : Errand}
    {shared : Shared.State} {reply : Mission.Reply} (begun : Begun crew opening errand)
    (underWay : UnderWay crew history) (stepped : errand.step crew.shared = .over reply shared) :
    ∀ task, crew.runner.call? = some (.arm task) → reply = .done := by
  intro task waiting
  rw [(underWay.begun begun).1] at waiting
  cases errand with
  | arm => exact Errand.reply_arm stepped
  | _ => cases waiting

/-- Without a watchdog no transition drops an arm task of a script. -/
theorem OnScript.kept [WheelDrive W] {setup : Setup} (unlimited : setup.mission.timeout = none)
    {crew next : Crew W} {history events : List Event} (underWay : UnderWay crew history)
    (onScript : OnScript setup crew history) (transition : Transition crew next events) :
    OnScript setup next (history ++ events) := by
  cases transition with
  | @enter progress free resting entered =>
    -- The last script has been called for to its end, so only the tasks of the new one are ahead.
    obtain ⟨script, made, tasks⟩ := Mission.Runner.armTasks_enter entered
    have called := onScript.called
    rw [Crew.ahead, free, Mission.Runner.armTasks_of_resting resting, List.append_nil] at called
    have opened : scripted setup.mission.ringOffset
        (.entered crew.runner.state crew.runner.plan :: endings progress) = script.armTasks := by
      rw [← List.singleton_append, scripted_append, scripted_aside (isEntry_endings progress),
        List.append_nil]
      rw [onScript.config] at made
      simp [scripted, Event.scripted, made]
    have none : armCalls (.entered crew.runner.state crew.runner.plan :: endings progress) = [] :=
      armCalls_aside (List.forall_mem_cons.mpr ⟨rfl, isCall_endings progress⟩)
    refine ⟨(Mission.Runner.config_enter entered).trans onScript.config, ?_⟩
    rw [scripted_append, opened, armCalls_append, called, none, List.append_nil]
    simp only [Crew.ahead, free, tasks]
  | pause free waiting =>
    have called := onScript.called
    simp only [Crew.ahead, free, Mission.Runner.armTasks_of_call? waiting] at called
    refine ⟨onScript.config, ?_⟩
    rw [scripted_append, ← called, armCalls_append]
    simp [Crew.ahead, armCalls, Event.armCall?, scripted, Event.scripted, Mission.Call.armTask?]
  | blocked begun stepped =>
    rw [← List.append_nil events]
    exact onScript.onward begun rfl rfl rfl (by simp)
  | @moved _ errand _ _ begun stepped =>
    exact onScript.onward begun rfl rfl (armCalls_aside (isCall_requestsOf errand))
      (isEntry_requestsOf errand)
  | @ended _ _ _ reply progress begun stepped resumed =>
    have left := Mission.Runner.armTasks_reply resumed (Errand.reply_ne_expired stepped)
      (begun.done underWay stepped)
    exact onScript.onward begun (Mission.Runner.config_reply resumed) left
      (armCalls_replied reply progress)
      (List.forall_mem_cons.mpr ⟨rfl, isEntry_endings progress⟩)
  | @wake progress pending resumed =>
    have left := Mission.Runner.armTasks_reply resumed (by simp) fun _ _ => rfl
    have called := onScript.called
    rw [Crew.ahead, pending] at called
    refine ⟨(Mission.Runner.config_reply resumed).trans onScript.config, ?_⟩
    rw [scripted_append, scripted_aside (List.forall_mem_cons.mpr ⟨rfl, isEntry_endings progress⟩),
      armCalls_append, armCalls_replied, List.append_nil, List.append_nil, ← called]
    exact congrArg _ left
  | expire pending guarded resumed =>
    -- An expiry would drop the tasks behind it, but there is no watchdog.
    rw [Mission.Runner.timeLimit?_eq_none (onScript.config ▸ unlimited)] at guarded
    cases guarded
  | period stepped => exact onScript.aside rfl rfl (by simp [Event.isCall]) (by simp [Event.isEntry])
  | arm stepped => exact onScript.aside rfl rfl (isCall_serve crew _ _) (isEntry_serve crew _ _)
  | aside aside =>
    exact onScript.aside aside.runner aside.pending
      (fun event member => Event.isCall_of_isAside (aside.events event member))
      (fun event member => Event.isEntry_of_isAside (aside.events event member))

/-! ### The turn of the arm -/

/-- Whose turn it is while no call is given up: the arm has something to do only while the mission
waits for it. -/
inductive Turn (crew : Crew W) (history : List Event) : Prop where
  -- No call of the arm is under way.
  | idle (apart : ∀ task stage, crew.pending ≠ some (.errand (.arm task stage)))
      (made : requests history = armCalls history) (queue : crew.shared.tasks.toList = [])
      (free : crew.serving = none)
  -- The arm has been called, and the request is still to be made.
  | begun {task : Task} {stage : Stage}
      (pending : crew.pending = some (.errand (.arm task stage))) (before : stage ≠ .await)
      (owed : requests history ++ [task] = armCalls history)
      (queue : crew.shared.tasks.toList = []) (free : crew.serving = none)
      (unsignalled : stage = .request → crew.shared.armFinished = .empty)
  -- The request is in the queue.
  | queued {task : Task} (pending : crew.pending = some (.errand (.arm task .await)))
      (made : requests history = armCalls history) (queue : crew.shared.tasks.toList = [task])
      (free : crew.serving = none) (unsignalled : crew.shared.armFinished = .empty)
  -- The arm serves the request.
  | served {task : Task} (pending : crew.pending = some (.errand (.arm task .await)))
      (made : requests history = armCalls history) (queue : crew.shared.tasks.toList = [])
      (busy : crew.serving = some task) (unsignalled : crew.shared.armFinished = .empty)
  -- The request has been performed.
  | performed {task : Task} (pending : crew.pending = some (.errand (.arm task .await)))
      (made : requests history = armCalls history) (queue : crew.shared.tasks.toList = [])
      (free : crew.serving = none)

theorem turn_new [WheelDrive W] (setup : Setup) (wheels : W) : Turn (new setup wheels) [] :=
  .idle (fun _ _ => nofun) rfl rfl rfl

/-- What touches neither the calls of the arm nor its queue leaves the turn as it is. -/
theorem Turn.aside {crew next : Crew W} {history events : List Event} (turn : Turn crew history)
    (pending : next.pending = crew.pending) (tasks : next.shared.tasks = crew.shared.tasks)
    (serving : next.serving = crew.serving)
    (signal : next.shared.armFinished = crew.shared.armFinished)
    (calls : ∀ event ∈ events, event.isCall = false)
    (aside : ∀ event ∈ events, event.isArm = false) : Turn next (history ++ events) := by
  have requested : requests (history ++ events) = requests history := by
    rw [requests_append, requests_aside aside, List.append_nil]
  have called : armCalls (history ++ events) = armCalls history := by
    rw [armCalls_append, armCalls_aside calls, List.append_nil]
  cases turn with
  | idle apart made queue free =>
    exact .idle (by rwa [pending]) (by rwa [requested, called]) (by rwa [tasks]) (by rwa [serving])
  | begun busy before owed queue free unsignalled =>
    exact .begun (pending ▸ busy) before (by rwa [requested, called]) (by rwa [tasks])
      (by rwa [serving]) (by rwa [signal])
  | queued busy made queue free unsignalled =>
    exact .queued (pending ▸ busy) (by rwa [requested, called]) (by rwa [tasks])
      (by rwa [serving]) (by rwa [signal])
  | served busy made queue performing unsignalled =>
    exact .served (pending ▸ busy) (by rwa [requested, called]) (by rwa [tasks])
      (by rwa [serving]) (by rwa [signal])
  | performed busy made queue free =>
    exact .performed (pending ▸ busy) (by rwa [requested, called]) (by rwa [tasks]) (by rwa [serving])

/-- Between the calls of the arm all requests are made and performed. -/
theorem Turn.of_apart {crew : Crew W} {history : List Event} (turn : Turn crew history)
    (apart : ∀ task stage, crew.pending ≠ some (.errand (.arm task stage))) :
    requests history = armCalls history ∧ crew.shared.tasks.toList = [] ∧ crew.serving = none := by
  cases turn with
  | idle _ made queue free => exact ⟨made, queue, free⟩
  | begun pending => exact absurd pending (apart _ _)
  | queued pending => exact absurd pending (apart _ _)
  | served pending => exact absurd pending (apart _ _)
  | performed pending => exact absurd pending (apart _ _)

theorem Turn.of_free {crew : Crew W} {history : List Event} (turn : Turn crew history)
    (free : crew.pending = none) :
    requests history = armCalls history ∧ crew.shared.tasks.toList = [] ∧ crew.serving = none :=
  turn.of_apart fun task stage => by rw [free]; nofun

/-- The arm takes its turn only after the mission has asked for it. -/
theorem Turn.serves {crew next : Crew W} {history events : List Event} (turn : Turn crew history)
    (pending : next.pending = crew.pending) (serves : Serves crew next events) :
    Turn next (history ++ events) := by
  cases serves with
  | @onward entry serving _ tasks signal =>
    exact turn.aside pending tasks serving signal (isCall_actsOf entry) (isArm_actsOf entry)
  | @received task free serving _ taken signal =>
    have requested : requests (history ++ [.received task]) = requests history := by
      rw [requests_append, requests_received, List.append_nil]
    have called : armCalls (history ++ [.received task]) = armCalls history := by
      rw [armCalls_append, armCalls_aside (List.forall_mem_singleton.mpr rfl), List.append_nil]
    -- A request is taken out of the queue only where one is in it.
    cases turn with
    | idle _ _ queue => rw [queue] at taken; cases taken
    | begun _ _ _ queue => rw [queue] at taken; cases taken
    | queued busy made queue _ unsignalled =>
      rw [queue] at taken
      obtain ⟨rfl, rest⟩ := List.cons.inj taken
      exact .served (pending ▸ busy) (by rwa [requested, called]) rest.symm serving
        (by rwa [signal])
    | served _ _ queue => rw [queue] at taken; cases taken
    | performed _ _ queue => rw [queue] at taken; cases taken
  | @performed task _ busy free _ tasks =>
    have requested : requests (history ++ [.performed task]) = requests history := by
      rw [requests_append, requests_performed, List.append_nil]
    have called : armCalls (history ++ [.performed task]) = armCalls history := by
      rw [armCalls_append, armCalls_aside (List.forall_mem_singleton.mpr rfl), List.append_nil]
    cases turn with
    | idle _ _ _ idle => rw [busy] at idle; cases idle
    | begun _ _ _ _ idle => rw [busy] at idle; cases idle
    | queued _ _ _ idle => rw [busy] at idle; cases idle
    | served current made queue =>
      exact .performed (pending ▸ current) (by rwa [requested, called]) (by rwa [tasks]) free
    | performed _ _ _ idle => rw [busy] at idle; cases idle

/-! ### Operations of the mission -/

section Operations

variable {crew : Crew W} {history opening : List Event} {errand : Errand}

/-- The arm has nothing to do whenever the mission goes on with an errand that does not deal with
it, and the calls so far have had their requests made. -/
theorem Turn.idle_of_begun (turn : Turn crew history) (begun : Begun crew opening errand)
    (aside : errand.instructs = false) :
    requests (history ++ opening) = armCalls (history ++ opening) ∧
      crew.shared.tasks.toList = [] ∧ crew.serving = none := by
  have opened : armCalls opening = [] := by
    cases begun with
    | @first call _ _ _ made => cases call <;> first | rfl | (cases made; cases aside)
    | again => rfl
  rw [requests_append, requests_aside begun.isArm, armCalls_append, opened, List.append_nil,
    List.append_nil]
  cases begun with
  | first free => exact turn.of_free free
  | again busy =>
    refine turn.of_apart fun task stage => ?_
    rw [busy]
    rintro ⟨⟩
    cases aside

private theorem turn_other {next : Crew W} {events : List Event} {errand : Errand}
    (pending : next.pending = some (.errand errand)) (aside : errand.instructs = false)
    (made : requests events = armCalls events) (queue : next.shared.tasks.toList = [])
    (free : next.serving = none) : Turn next events := by
  refine .idle (fun task stage => ?_) made queue free
  rw [pending]
  rintro ⟨⟩
  cases aside

/-- Before a call of the arm has made its request, it owes just this one. -/
private theorem Turn.unmade {task : Task} {stage : Stage} (turn : Turn crew history)
    (pending : crew.pending = some (.errand (.arm task stage))) (before : stage ≠ .await) :
    requests history ++ [task] = armCalls history ∧ crew.shared.tasks.toList = [] ∧
      crew.serving = none ∧ (stage = .request → crew.shared.armFinished = .empty) := by
  cases turn with
  | idle apart => exact absurd pending (apart task stage)
  | begun busy _ owed queue free unsignalled =>
    rw [busy] at pending
    cases pending
    exact ⟨owed, queue, free, unsignalled⟩
  | queued busy => rw [busy] at pending; cases pending; exact absurd rfl before
  | served busy => rw [busy] at pending; cases pending; exact absurd rfl before
  | performed busy => rw [busy] at pending; cases pending; exact absurd rfl before

/-- A call of the arm owes its request, and the arm has nothing else to do. -/
private theorem Turn.owed {task : Task} (turn : Turn crew history)
    (begun : Begun crew opening (.arm task .clear)) :
    requests (history ++ opening) ++ [task] = armCalls (history ++ opening) ∧
      crew.shared.tasks.toList = [] ∧ crew.serving = none := by
  cases begun with
  | @first call _ free _ made =>
    cases call <;> cases made
    obtain ⟨made, queue, idle⟩ := turn.of_free free
    refine ⟨?_, queue, idle⟩
    rw [requests_append, armCalls_append, made, List.append_assoc]
    rfl
  | again pending =>
    obtain ⟨owed, queue, idle, _⟩ := turn.unmade pending (by simp)
    rw [List.append_nil]
    exact ⟨owed, queue, idle⟩

/-- An operation that cannot go on leaves the turn as it is. -/
private theorem Turn.blocked {next : Errand} {shared : Shared.State} (turn : Turn crew history)
    (begun : Begun crew opening errand) (stepped : errand.step crew.shared = .blocked next shared) :
    Turn { crew with pending := some (.errand next), shared := shared } (history ++ opening) := by
  have queue_eq := Errand.tasks_blocked stepped
  cases aside : errand.instructs with
  | false =>
    have left : (errand.step crew.shared).errand? = some next := by rw [stepped]; rfl
    obtain ⟨made, queue, free⟩ := turn.idle_of_begun begun aside
    exact turn_other rfl (Errand.instructs_step left ▸ aside) made (queue_eq ▸ queue) free
  | true =>
    cases Errand.stepped_of_step stepped with
    | armRefused =>
      obtain ⟨rfl, pending⟩ := begun.pending (by simp [Errand.call, Errand.ofCall?])
      exact turn.aside pending.symm rfl rfl rfl (by simp) (by simp)
    | armAwaited =>
      obtain ⟨rfl, pending⟩ := begun.pending (by simp [Errand.call, Errand.ofCall?])
      exact turn.aside pending.symm rfl rfl rfl (by simp) (by simp)
    | _ => cases aside

/-- The operations of a call pass the turn to the arm by its request. -/
private theorem Turn.moved {next : Errand} {shared : Shared.State} (turn : Turn crew history)
    (begun : Begun crew opening errand) (stepped : errand.step crew.shared = .moved next shared) :
    Turn { crew with pending := some (.errand next), shared := shared }
      (history ++ (opening ++ requestsOf errand)) := by
  have queue_eq := tasks_moved stepped
  cases aside : errand.instructs with
  | false =>
    have left : (errand.step crew.shared).errand? = some next := by rw [stepped]; rfl
    obtain ⟨made, queue, free⟩ := turn.idle_of_begun begun aside
    have none : requestsOf errand = [] := by cases errand <;> first | rfl | cases aside
    rw [none] at queue_eq ⊢
    rw [List.append_nil]
    rw [queue] at queue_eq
    exact turn_other rfl (Errand.instructs_step left ▸ aside) made queue_eq free
  | true =>
    cases Errand.stepped_of_step stepped with
    | @armCleared task =>
      obtain ⟨owed, queue, free⟩ := turn.owed begun
      have none : requestsOf (.arm task .clear) = [] := rfl
      rw [none, List.append_nil]
      exact .begun rfl (by simp) owed queue free fun _ => rfl
    | armRequested =>
      obtain ⟨rfl, pending⟩ := begun.pending (by simp [Errand.call, Errand.ofCall?])
      obtain ⟨owed, queue, free, unsignalled⟩ := turn.unmade pending (by simp)
      refine .queued rfl ?_ (queue_eq.trans (by rw [queue]; rfl)) free (unsignalled rfl)
      rw [requestsOf, List.nil_append, requests_append, requests_requested, owed,
        armCalls_append, armCalls_aside (List.forall_mem_singleton.mpr rfl), List.append_nil]
    | _ => cases aside

/-- The arm has nothing to do when a call ends. -/
private theorem Turn.ended {shared : Shared.State} {reply : Mission.Reply}
    (turn : Turn crew history) (begun : Begun crew opening errand)
    (stepped : errand.step crew.shared = .over reply shared) :
    requests (history ++ opening) = armCalls (history ++ opening) ∧
      shared.tasks.toList = [] ∧ crew.serving = none := by
  rw [Errand.tasks_over stepped]
  cases aside : errand.instructs with
  | false => exact turn.idle_of_begun begun aside
  | true =>
    cases Errand.stepped_of_step stepped with
    | served raised =>
      obtain ⟨rfl, pending⟩ := begun.pending (by simp [Errand.call, Errand.ofCall?])
      rw [List.append_nil]
      -- The signal is there only once the request has been performed.
      cases turn with
      | idle apart => exact absurd pending (apart _ .await)
      | begun busy before => rw [busy] at pending; cases pending; exact absurd rfl before
      | queued _ _ _ _ unsignalled => rw [unsignalled] at raised; cases raised
      | served _ _ _ _ unsignalled => rw [unsignalled] at raised; cases raised
      | performed _ made queue free => exact ⟨made, queue, free⟩
    | _ => cases aside

end Operations

/-- A crew without a call under way that leaves the arm idle. -/
private theorem turn_free {next : Crew W} {events : List Event} (free : next.pending = none)
    (made : requests events = armCalls events) (queue : next.shared.tasks.toList = [])
    (idle : next.serving = none) : Turn next events := by
  refine .idle (fun task stage => ?_) made queue idle
  rw [free]
  nofun

/-- Without a watchdog every transition keeps to the turns of the mission and the arm. -/
theorem Turn.kept [WheelDrive W] {crew next : Crew W} {history events : List Event}
    (unlimited : crew.runner.config.timeout = none) (ledger : Ledger crew history)
    (turn : Turn crew history) (transition : Transition crew next events) :
    Turn next (history ++ events) := by
  cases transition with
  | @enter progress free resting entered =>
    have calls : ∀ event ∈ .entered crew.runner.state crew.runner.plan :: endings progress,
        event.isCall = false := List.forall_mem_cons.mpr ⟨rfl, isCall_endings progress⟩
    have aside : ∀ event ∈ .entered crew.runner.state crew.runner.plan :: endings progress,
        event.isArm = false := List.forall_mem_cons.mpr ⟨rfl, isArm_endings progress⟩
    exact turn.aside rfl rfl rfl rfl calls aside
  | pause free waiting =>
    obtain ⟨made, queue, idle⟩ := turn.of_free free
    refine .idle (fun _ _ => nofun) ?_ queue idle
    rw [requests_append, armCalls_append, made]
    rfl
  | blocked begun stepped => exact turn.blocked begun stepped
  | moved begun stepped => exact turn.moved begun stepped
  | @ended opening _ _ reply progress begun stepped resumed =>
    obtain ⟨made, queue, idle⟩ := turn.ended begun stepped
    refine turn_free rfl ?_ queue idle
    rw [← List.append_assoc, requests_append, armCalls_append, made, armCalls_replied,
      requests_aside (List.forall_mem_cons.mpr ⟨rfl, isArm_endings progress⟩)]
  | @wake progress pending resumed =>
    obtain ⟨made, queue, idle⟩ := turn.of_apart fun task stage => by rw [pending]; nofun
    refine turn_free rfl ?_ queue idle
    rw [requests_append, armCalls_append, made, armCalls_replied,
      requests_aside (List.forall_mem_cons.mpr ⟨rfl, isArm_endings progress⟩)]
  | expire pending guarded resumed =>
    rw [Mission.Runner.timeLimit?_eq_none unlimited] at guarded
    cases guarded
  | period stepped =>
    exact turn.aside rfl (Motion.Loop.step_tasks stepped) rfl (Motion.Loop.step_armFinished stepped)
      (by simp [Event.isCall]) (by simp [Event.isArm])
  | arm stepped => exact turn.serves rfl (ledger.serves (ArmTask.step_stepped stepped))
  | aside aside =>
    exact turn.aside aside.pending aside.tasks aside.serving aside.armFinished
      (fun event member => Event.isCall_of_isAside (aside.events event member))
      (fun event member => Event.isArm_of_isAside (aside.events event member))

section Reached

variable [WheelDrive W] {setup : Setup} (unlimited : setup.mission.timeout = none) (wheels : W)
  (schedule : List (Move W))
include unlimited

private theorem turns_reached :
    OnScript setup (reached setup wheels schedule) (history setup wheels schedule) ∧
      Turn (reached setup wheels schedule) (history setup wheels schedule) := by
  -- Each of the four leans on those before it, so one induction carries them all.
  have joint := run_invariant
    (fun crew history => UnderWay crew history ∧ OnScript setup crew history ∧
      Ledger crew history ∧ Turn crew history)
    (fun ⟨underWay, onScript, ledger, turn⟩ transition =>
      ⟨underWay.kept transition, onScript.kept unlimited underWay transition,
        ledger.kept transition, turn.kept (onScript.config ▸ unlimited) ledger transition⟩)
    ⟨underWay_new setup wheels, onScript_new setup wheels, ledger_new setup wheels,
      turn_new setup wheels⟩ schedule
  exact ⟨joint.2.1, joint.2.2.2⟩

/-- While the arm serves a request, the chassis is at rest. -/
theorem rest_of_serving {task : Task}
    (busy : (reached setup wheels schedule).serving = some task) :
    (reached setup wheels schedule).motion.AtRest (reached setup wheels schedule).shared := by
  have stance := stance_reached setup wheels schedule
  cases (turns_reached unlimited wheels schedule).2 with
  | idle _ _ _ free => rw [free] at busy; cases busy
  | begun _ _ _ _ free => rw [free] at busy; cases busy
  | queued _ _ _ free => rw [free] at busy; cases busy
  | served pending =>
    refine stance.rest (fun command => by rw [pending]; nofun) fun free => ?_
    rw [pending] at free
    cases free
  | performed _ _ _ free => rw [free] at busy; cases busy

end Reached

/-! ### Taking turns -/

/-- The arm performs exactly what the scripts ask for, each task once and in their order. What is
performed lags behind what is asked for only during a call of the arm, and what is asked for lags
behind the scripts only until the present one has ended. -/
structure FollowsScripts (offset : UInt8) (crew : Crew W) (history : List Event) : Prop where
  received : performances history <+: receipts history
  requested : receipts history <+: requests history
  called : requests history <+: armCalls history
  asked : armCalls history <+: scripted offset history
  answered : (∀ task, latest history ≠ some (.called (.arm task))) →
    performances history = armCalls history
  ended : crew.runner.call? = none → performances history = scripted offset history

/-- Chassis and arm exclude each other. From the receipt of a request to its performance every
control period is idle, and a drive finds the arm without a request. -/
structure Excludes (crew : Crew W) (history : List Event) : Prop where
  standing : ∀ front task during taken outcome back,
    history = front ++ .received task :: during ++ .period taken outcome :: back →
      performances during = [] → outcome = .idle
  disengaged : ∀ command, latest history = some (.called (.drive command)) →
    crew.shared.tasks.toList = [] ∧ crew.arm.requested = false

private theorem Turn.requests_prefix {crew : Crew W} {history : List Event}
    (turn : Turn crew history) : requests history <+: armCalls history := by
  cases turn with
  | idle _ made => exact made ▸ List.prefix_rfl
  | begun _ _ owed => exact ⟨_, owed⟩
  | queued _ made => exact made ▸ List.prefix_rfl
  | served _ made => exact made ▸ List.prefix_rfl
  | performed _ made => exact made ▸ List.prefix_rfl

section Main

variable [WheelDrive W] {setup : Setup} (unlimited : setup.mission.timeout = none) (wheels : W)
  (schedule : List (Move W))
include unlimited

/-- What the arm performs follows the scripts, task by task. -/
private theorem followsScripts :
    FollowsScripts setup.mission.ringOffset (reached setup wheels schedule)
      (history setup wheels schedule) := by
  have underWay := underWay_reached setup wheels schedule
  have ledger := ledger_reached setup wheels schedule
  obtain ⟨onScript, turn⟩ := turns_reached unlimited wheels schedule
  obtain ⟨performed, received⟩ := in_turn (List.append_nil (history setup wheels schedule)).symm
  have settled (apart : ∀ task stage,
      (reached setup wheels schedule).pending ≠ some (.errand (.arm task stage))) :
      performances (history setup wheels schedule) = armCalls (history setup wheels schedule) := by
    obtain ⟨made, queue, free⟩ := turn.of_apart apart
    rw [← made, ledger.queued, ledger.served, queue, free]
    simp
  refine ⟨performed, received, turn.requests_prefix, ⟨_, onScript.called⟩, ?_, ?_⟩
  · intro apart
    refine settled fun task stage pending => ?_
    exact apart task (underWay.errand _ pending).2
  · intro resting
    have free := underWay.free_of_resting resting
    have called := onScript.called
    rw [ahead, free, Mission.Runner.armTasks_of_resting resting, List.append_nil] at called
    rw [← called]
    exact settled fun task stage => by rw [free]; nofun

/-- What the arm serves and what the chassis drives never fall together. -/
private theorem excludes :
    Excludes (reached setup wheels schedule) (history setup wheels schedule) := by
  constructor
  · intro front task during taken outcome back split unperformed
    obtain ⟨first, next, early, late, transition, same⟩ := history_split split
    obtain ⟨rfl, step, stepped, rfl⟩ := transition.period_of_mem
    rw [List.append_nil] at same
    -- The request received last has not been performed, so it is being served.
    have receipt : history setup wheels schedule =
        front ++ .received task :: (during ++ .period taken step.outcome :: back) := by
      rw [split, List.append_assoc, List.cons_append]
    have even := (received_in_turn receipt).1
    have served := (ledger_reached setup wheels first).served
    rw [← same, receipts_append, performances_append, performances_received_cons, unperformed,
      even, List.append_nil, List.append_cancel_left_eq] at served
    cases busy : (reached setup wheels first).serving with
    | none => rw [busy] at served; cases served
    | some current => exact ((rest_of_serving unlimited wheels first busy).step stepped).1
  · intro command called
    -- The call under way is the drive, so none of the arm is, and the arm is done with its own.
    have ledger := ledger_reached setup wheels schedule
    obtain ⟨errand, drive, pending⟩ :=
      (underWay_reached setup wheels schedule).pending_of_called called (by simp)
    have apart : ∀ task stage,
        (reached setup wheels schedule).pending ≠ some (.errand (.arm task stage)) := by
      intro task stage
      rw [pending]
      rintro ⟨⟩
      cases drive
    obtain ⟨_, queue, free⟩ := (turns_reached unlimited wheels schedule).2.of_apart apart
    refine ⟨queue, ?_⟩
    rw [← ledger.serving, free]
    rfl

/-- Chassis and arm take turns while no watchdog is set. -/
theorem take_turns :
    FollowsScripts setup.mission.ringOffset (reached setup wheels schedule)
        (history setup wheels schedule) ∧
      Excludes (reached setup wheels schedule) (history setup wheels schedule) ∧
      Performs setup.arm (reached setup wheels schedule) (history setup wheels schedule) :=
  ⟨followsScripts unlimited wheels schedule, excludes unlimited wheels schedule,
    performs_reached setup wheels schedule⟩

end Main

/-- The moves of a frame at the camera: each byte arrives and is taken in. -/
def sight (frame : List UInt8) : List (Move Motion.SimulatedChassis) :=
  frame.flatMap fun byte => [.arrival .camera byte, .intake .camera]

/-- Steps of the arm of a simulated robot, each at a time and with a lift. -/
def armSteps (steps : List (Nat × Arm.BenchLift)) : List (Move Motion.SimulatedChassis) :=
  steps.map fun (now, lift) => .arm now (.simulated (.new {}) lift) .new

/-- The steps of the first pick: the receipt, the approach, the way down in two looks, the claw, the
way up in one look, and the end. A pause takes two steps. -/
def pickSteps : List (Move Motion.SimulatedChassis) :=
  armSteps [(0, ⟨0, 7, 4000⟩), (0, ⟨0, 7, 4000⟩), (0, ⟨0, 7, 4000⟩), (0, ⟨0, 7, 4000⟩),
    (300, ⟨0, 7, 4000⟩), (300, ⟨0, 7, 4000⟩), (300, ⟨0, 0, 4000⟩), (300, ⟨5000, 0, 4000⟩),
    (300, ⟨5000, 4000, 4000⟩), (310, ⟨5000, 4000, 4000⟩), (310, ⟨5000, 4000, 4000⟩),
    (310, ⟨5000, 8000, 4000⟩), (310, ⟨0, 8000, 4000⟩), (510, ⟨0, 8000, 4000⟩),
    (510, ⟨0, 8000, 4000⟩), (510, ⟨0, 8000, 4000⟩), (1010, ⟨0, 8000, 4000⟩),
    (1010, ⟨0, 8000, 4000⟩), (1010, ⟨0, 0, 8000⟩), (1010, ⟨-5000, 0, 8000⟩),
    (1010, ⟨-5000, -8000, 8000⟩), (1010, ⟨0, -8000, 8000⟩)]

/-- A run as far as the answer to its second call of the arm, the first pick. -/
def firstPick : List (Move Motion.SimulatedChassis) :=
  firstTask ++ [.mission, .mission] ++ sight [97, 49, 49, 53, 48, 49, 50, 48, 99] ++
    List.replicate 5 .mission ++ pickSteps ++ [.mission]

def pickActs : List Arm.Entry :=
  [⟨.servo .base 0, 7⟩, ⟨.servo .claw 10, 7⟩, ⟨.pause 300, 7⟩, ⟨.zero, 0⟩, ⟨.lift 5000, 0⟩,
    ⟨.look, 4000⟩, ⟨.pause 10, 4000⟩, ⟨.look, 8000⟩, ⟨.lift 0, 8000⟩, ⟨.pause 200, 8000⟩,
    ⟨.servo .claw 60, 8000⟩, ⟨.pause 500, 8000⟩, ⟨.zero, 0⟩, ⟨.lift (-5000), 0⟩, ⟨.look, -8000⟩,
    ⟨.lift 0, -8000⟩]

/-- On the run to its first pick the arm performs both tasks asked for, call by call. -/
theorem take_turns_firstPick :
    (FollowsScripts 3 (reached {} (.new {}) firstPick) (history {} (.new {}) firstPick) ∧
      Excludes (reached {} (.new {}) firstPick) (history {} (.new {}) firstPick) ∧
      Performs {} (reached {} (.new {}) firstPick) (history {} (.new {}) firstPick)) ∧
      performances (history {} (.new {}) firstPick) = [.ready, .pickFromRaw] ∧
      (history {} (.new {}) firstPick).drop 45 =
        .received .pickFromRaw :: pickActs.map .acted ++
          [.performed .pickFromRaw, .replied .done] := by
  have unlimited : ({} : Setup).mission.timeout = none := rfl
  exact ⟨take_turns unlimited _ _, by decide +kernel, by decide +kernel⟩

end Mecanum.Robot.Crew
