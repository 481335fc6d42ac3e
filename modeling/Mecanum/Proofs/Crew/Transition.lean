import Mecanum.Proofs.Arm.Service
import Mecanum.Proofs.Crew.History
import Mecanum.Proofs.Mission.Errand

/-!
# Transitions

All that one move can do, told once: a transition for each kind of operation of the mission, one for
the control period, one for the arm, and one for everything that the mission, the chassis and the arm
do not notice. Whatever holds before the first move and is kept by every transition holds on every
schedule.
-/
namespace Mecanum.Robot.Crew

open Mission (Errand)
open Motion (WheelDrive)

variable {W : Type}

/-- Whether the mission, the chassis and the arm are left alone. -/
def Event.isAside : Event → Bool
  | headed .. | sighted _ | framed _ | pressed => true
  | _ => false

/-- An errand that the mission is about to go on with, and the call that begins with it, if any. -/
inductive Begun (crew : Crew W) : List Event → Errand → Prop where
  | first {call : Mission.Call} {errand : Errand} (free : crew.pending = none)
      (waiting : crew.runner.call? = some call) (made : Errand.ofCall? call = some errand) :
      Begun crew [.called call] errand
  | again {errand : Errand} (pending : crew.pending = some (.errand errand)) :
      Begun crew [] errand

/-! ### The events of a move -/

section Events

variable {p : Event → Prop} {crew : Crew W}

theorem forall_endings (ended : ∀ ending, p (.ended ending)) (progress : Mission.Progress) :
    ∀ event ∈ endings progress, p event := by
  intro event member
  obtain ⟨ending, _, rfl⟩ := Option.map_eq_some_iff.mp (Option.mem_toList.mp member)
  exact ended ending

theorem forall_requestsOf (requested : ∀ task, p (.requested task)) (errand : Errand) :
    ∀ event ∈ requestsOf errand, p event := by
  intro event member
  unfold requestsOf at member
  split at member
  · rw [List.mem_singleton] at member
    exact member ▸ requested _
  · cases member

theorem forall_actsOf (acted : ∀ entry, p (.acted entry)) (entry : Option Arm.Entry) :
    ∀ event ∈ actsOf entry, p event := by
  intro event member
  obtain ⟨made, _, rfl⟩ := Option.map_eq_some_iff.mp (Option.mem_toList.mp member)
  exact acted made

/-- What holds of calls made, receipts and performances holds of all that a step of the arm tells.
-/
theorem forall_serve (acted : ∀ entry, p (.acted entry)) (received : ∀ task, p (.received task))
    (performed : ∀ task, p (.performed task)) (crew : Crew W) (entry : Option Arm.Entry)
    (next : ArmTask) : ∀ event ∈ actsOf entry ++ (crew.serve next).2, p event := by
  refine List.forall_mem_append.mpr ⟨forall_actsOf acted entry, fun event member => ?_⟩
  unfold serve at member
  split at member
  · obtain ⟨task, _, rfl⟩ := Option.map_eq_some_iff.mp (Option.mem_toList.mp member)
    exact received task
  · obtain ⟨task, _, rfl⟩ := Option.map_eq_some_iff.mp (Option.mem_toList.mp member)
    exact performed task
  · cases member

theorem Begun.forall_opening (called : ∀ call, p (.called call)) {opening : List Event}
    {errand : Errand} (begun : Begun crew opening errand) : ∀ event ∈ opening, p event := by
  intro event member
  cases begun with
  | first => exact List.mem_singleton.mp member ▸ called _
  | again => cases member

end Events

/-! ### Transitions -/

/-- A change that the mission, the chassis and the arm do not notice. -/
structure Aside (crew next : Crew W) (events : List Event) : Prop where
  runner : next.runner = crew.runner
  pending : next.pending = crew.pending
  controller : next.motion.controller = crew.motion.controller
  arm : next.arm = crew.arm
  serving : next.serving = crew.serving
  command : next.shared.command = crew.shared.command
  moveFinished : next.shared.moveFinished = crew.shared.moveFinished
  armFinished : next.shared.armFinished = crew.shared.armFinished
  tasks : next.shared.tasks = crew.shared.tasks
  events : ∀ event ∈ events, event.isAside = true

/-- What one move can do. -/
inductive Transition [WheelDrive W] (crew : Crew W) : Crew W → List Event → Prop where
  | enter {progress : Mission.Progress} (free : crew.pending = none)
      (resting : crew.runner.call? = none) (entered : crew.runner.enter = .ok progress) :
      Transition crew { crew with runner := progress.runner }
        (.entered crew.runner.state crew.runner.plan :: endings progress)
  | pause {ms : UInt32} (free : crew.pending = none)
      (waiting : crew.runner.call? = some (.pause ms)) :
      Transition crew { crew with pending := some .pause } [.called (.pause ms)]
  | blocked {opening : List Event} {errand next : Errand} {shared : Shared.State}
      (begun : Begun crew opening errand) (stepped : errand.step crew.shared = .blocked next shared) :
      Transition crew { crew with pending := some (.errand next), shared := shared } opening
  | moved {opening : List Event} {errand next : Errand} {shared : Shared.State}
      (begun : Begun crew opening errand) (stepped : errand.step crew.shared = .moved next shared) :
      Transition crew { crew with pending := some (.errand next), shared := shared }
        (opening ++ requestsOf errand)
  | ended {opening : List Event} {errand : Errand} {shared : Shared.State} {reply : Mission.Reply}
      {progress : Mission.Progress} (begun : Begun crew opening errand)
      (stepped : errand.step crew.shared = .over reply shared)
      (resumed : crew.runner.reply reply = .ok progress) :
      Transition crew { crew with runner := progress.runner, pending := none, shared := shared }
        (opening ++ .replied reply :: endings progress)
  | wake {progress : Mission.Progress} (pending : crew.pending = some .pause)
      (resumed : crew.runner.reply .done = .ok progress) :
      Transition crew { crew with runner := progress.runner, pending := none }
        (.replied .done :: endings progress)
  | expire {current : Pending} {limit : UInt32} {progress : Mission.Progress}
      (pending : crew.pending = some current) (guarded : crew.runner.timeLimit? = some limit)
      (resumed : crew.runner.reply .expired = .ok progress) :
      Transition crew { crew with runner := progress.runner, pending := none }
        (.replied .expired :: endings progress)
  | period {step : Motion.Loop.Step W} (stepped : crew.motion.step crew.shared = .ok step) :
      Transition crew { crew with motion := step.loop, shared := step.shared }
        [.period crew.shared.command.pending step.outcome]
  | arm {now : Nat} {body : Body} {pulses : Servo.Pulses 3} {step : ArmTask.Step}
      (stepped : crew.arm.step now crew.shared body pulses = .ok step) :
      Transition crew
        { crew with arm := step.task, serving := (crew.serve step.task).1, shared := step.shared }
        (actsOf step.entry ++ (crew.serve step.task).2)
  | aside {next : Crew W} {events : List Event} (aside : Aside crew next events) :
      Transition crew next events

/-! ### Every move is a transition -/

/-- An operation of an errand is one of three transitions, by how it comes out. -/
private theorem operate_transition [WheelDrive W] {crew next : Crew W} {opening events : List Event}
    {errand : Errand} (begun : Begun crew opening errand)
    (moved : crew.operate opening errand = .ok (next, events)) : Transition crew next events := by
  -- An operation blocks, gets on, or ends its call.
  unfold operate at moved
  split at moved
  next stepped => cases moved; exact .blocked begun stepped
  next stepped => cases moved; exact .moved begun stepped
  next stepped =>
    obtain ⟨progress, resumed, produced⟩ := bind_eq_ok_iff.mp moved
    cases produced
    exact .ended begun stepped resumed

private theorem stepMission_transition [WheelDrive W] {crew next : Crew W} {events : List Event}
    (moved : crew.stepMission = .ok (next, events)) : Transition crew next events := by
  unfold stepMission at moved
  split at moved
  next pending =>
    obtain ⟨progress, resumed, produced⟩ := bind_eq_ok_iff.mp moved
    cases produced
    exact .wake pending resumed
  next pending => exact operate_transition (.again pending) moved
  next free =>
    split at moved
    next resting =>
      obtain ⟨progress, entered, produced⟩ := bind_eq_ok_iff.mp moved
      cases produced
      exact .enter free resting entered
    next call waiting =>
      split at moved
      next made => exact operate_transition (.first free waiting made) moved
      next made =>
        obtain ⟨ms, rfl⟩ := Mission.Errand.ofCall?_eq_none made
        cases moved
        exact .pause free waiting

private theorem intake_aside (crew : Crew W) (port : Port) :
    Aside crew (crew.intake port).1 (crew.intake port).2 := by
  cases port with
  | inertial =>
    simp only [intake, takeInertial]
    split
    · constructor <;> simp
    · constructor <;> simp [Event.isAside]
  | camera =>
    simp only [intake, takeCamera]
    split
    · constructor <;> simp
    · split <;> constructor <;> simp [Event.isAside, Shared.State.publishRecord]
  | scanner =>
    simp only [intake, takeScanner]
    split
    · constructor <;> simp
    · constructor <;> simp [Event.isAside]

private theorem sampleButton_aside (crew : Crew W) (reading : Reading) :
    Aside crew (crew.sampleButton reading).1 (crew.sampleButton reading).2 := by
  unfold sampleButton StartTask.sample
  cases crew.button.poll reading with
  | mk pressed button =>
    cases pressed <;> constructor <;> simp [Shared.State.signalStart, Event.isAside]

private theorem arrival_aside (crew : Crew W) (port : Port) (byte : UInt8) :
    Aside crew { crew with shared := arrive crew.shared byte port } [] := by
  cases port <;> constructor <;> simp [arrive]

/-- Every move that does not fault is a transition. -/
theorem step_transition [WheelDrive W] {crew next : Crew W} {move : Move W} {events : List Event}
    (moved : crew.step move = .ok (next, events)) : Transition crew next events := by
  cases move with
  | mission => exact stepMission_transition moved
  | watchdog =>
    simp only [step, stepWatchdog] at moved
    split at moved
    next pending guarded =>
      obtain ⟨progress, resumed, produced⟩ := bind_eq_ok_iff.mp moved
      cases produced
      exact .expire pending guarded resumed
    next =>
      cases moved
      exact .aside (by constructor <;> simp)
  | motion =>
    obtain ⟨step, stepped, produced⟩ := bind_eq_ok_iff.mp moved
    cases produced
    exact .period stepped
  | arm now body pulses =>
    obtain ⟨step, stepped, produced⟩ := bind_eq_ok_iff.mp moved
    cases produced
    exact .arm stepped
  | intake port =>
    have aside := intake_aside crew port
    rw [Except.ok.inj moved] at aside
    exact .aside aside
  | button reading =>
    have aside := sampleButton_aside crew reading
    rw [Except.ok.inj moved] at aside
    exact .aside aside
  | arrival port byte =>
    cases moved
    exact .aside (arrival_aside crew port byte)
  | wheels wheels =>
    cases moved
    exact .aside (by constructor <;> simp)
  | heading snapshot =>
    cases moved
    exact .aside (by constructor <;> simp [Shared.State.publishHeading])

/-! ### Runs -/

section Runs

variable [WheelDrive W]

/-- What every transition keeps, a run keeps. -/
theorem run_invariant (inv : Crew W → List Event → Prop)
    (kept : ∀ {crew next history events}, inv crew history → Transition crew next events →
      inv next (history ++ events))
    {crew : Crew W} {earlier : List Event} (initial : inv crew earlier) (schedule : List (Move W)) :
    inv (crew.run schedule).1 (earlier ++ (crew.run schedule).2) := by
  -- On the schedule; the events so far grow at their end, which is where the invariant adds them.
  induction schedule generalizing crew earlier with
  | nil => simpa [run] using initial
  | cons move rest ih =>
    simp only [run]
    cases moved : crew.step move with
    | error fault => simpa using initial
    | ok result =>
      have later := ih (kept initial (step_transition moved))
      rwa [List.append_assoc] at later

/-- Every event of a run belongs to a transition of a crew that the run has led to before. -/
theorem run_split {crew : Crew W} {schedule : List (Move W)} {front back : List Event}
    {event : Event} (split : (crew.run schedule).2 = front ++ event :: back) :
    ∃ (first : List (Move W)) (next : Crew W) (early late : List Event),
      Transition (crew.run first).1 next (early ++ event :: late) ∧
        front = (crew.run first).2 ++ early := by
  induction schedule generalizing crew front with
  | nil => simp [run] at split
  | cons move rest ih =>
    cases moved : crew.step move with
    | error fault => simp [run, moved] at split
    | ok result =>
      obtain ⟨next, events⟩ := result
      simp only [run, moved] at split
      -- The event is among those of the first move, or the rest of the run has it.
      rcases List.append_eq_append_iff.mp split with ⟨middle, rfl, behind⟩ | ⟨middle, rfl, behind⟩
      · obtain ⟨first, last, early, late, transition, rfl⟩ := ih behind
        exact ⟨move :: first, last, early, late, by simpa only [run, moved] using transition,
          by simp only [run, moved, List.append_assoc]⟩
      · rcases List.cons_eq_append_iff.mp behind with ⟨rfl, behind⟩ | ⟨late, rfl, rfl⟩
        · have start : (next.run rest).2 = [] ++ event :: back := behind.symm
          obtain ⟨first, last, early, late, transition, same⟩ := ih start
          exact ⟨move :: first, last, early, late, by simpa only [run, moved] using transition,
            by simp [run, moved, ← same]⟩
        · exact ⟨[], next, front, late, step_transition moved, by simp [run]⟩

/-- Every event of a schedule belongs to a transition of a crew that a schedule leads to. -/
theorem history_split {setup : Setup} {wheels : W} {schedule : List (Move W)}
    {front back : List Event} {event : Event}
    (split : history setup wheels schedule = front ++ event :: back) :
    ∃ (first : List (Move W)) (next : Crew W) (early late : List Event),
      Transition (reached setup wheels first) next (early ++ event :: late) ∧
        front = history setup wheels first ++ early :=
  run_split split

end Runs

end Mecanum.Robot.Crew
