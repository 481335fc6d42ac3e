import Mecanum.Proofs.Motion.Limits

/-!
# Histories of the controller

Whoever drives the controller applies commands and ticks it, in any order. A run keeps what each
call has done, and the history decides which command is in force: the last one applied, unless that
was to stop or its end has been reported.
-/
namespace Mecanum.Motion.Controller

open Heading (Snapshot)

inductive Call where
  | apply (command : Command) (heading : Snapshot)
  | tick (travelled : Int) (heading : Float32)

inductive Event where
  | applied (command : Command)
  | ticked (tick : Tick)
deriving DecidableEq

def call (controller : Controller) : Call → Except Fault (Controller × Event)
  | .apply command heading => .ok ((controller.apply command heading).1, .applied command)
  | .tick travelled heading => do
    let tick ← controller.tick travelled heading
    return (tick.controller, .ticked tick)

def run (controller : Controller) : List Call → Except Fault (Controller × List Event)
  | [] => .ok (controller, [])
  | first :: calls => do
    let (next, event) ← controller.call first
    let (last, events) ← next.run calls
    return (last, event :: events)

def Event.outcome? : Event → Option Outcome
  | .applied _ => none
  | .ticked tick => some tick.outcome

def outcomes (controller : Controller) (calls : List Call) : Except Fault (List Outcome) :=
  (controller.run calls).map fun (_, history) => history.filterMap Event.outcome?

/-- A run is its first call and the run of the others. -/
theorem run_cons_ok {controller last : Controller} {first : Call} {calls : List Call}
    {history : List Event} :
    controller.run (first :: calls) = .ok (last, history) ↔
      ∃ next event events, controller.call first = .ok (next, event) ∧
        next.run calls = .ok (last, events) ∧ history = event :: events := by
  constructor
  · intro ran
    obtain ⟨⟨next, event⟩, called, further⟩ := bind_eq_ok_iff.mp ran
    obtain ⟨⟨ended, events⟩, rest, result⟩ := bind_eq_ok_iff.mp further
    cases result
    exact ⟨next, event, events, called, rest, rfl⟩
  · rintro ⟨next, event, events, called, rest, rfl⟩
    apply bind_eq_ok_iff.mpr
    refine ⟨_, called, ?_⟩
    apply bind_eq_ok_iff.mpr
    exact ⟨_, rest, rfl⟩

/-- What holds at first and is kept by every call holds after a run. -/
theorem run_invariant (inv : Controller → List Event → Prop)
    (kept : ∀ {controller next history call event}, inv controller history →
      controller.call call = .ok (next, event) → inv next (history ++ [event]))
    {controller last : Controller} {calls : List Call} {earlier history : List Event}
    (ran : controller.run calls = .ok (last, history)) (initial : inv controller earlier) :
    inv last (earlier ++ history) := by
  induction calls generalizing controller earlier history with
  | nil =>
    cases ran
    simpa using initial
  | cons first calls step =>
    obtain ⟨next, event, events, called, rest, rfl⟩ := run_cons_ok.mp ran
    have further := step rest (kept initial called)
    rwa [List.append_assoc] at further

/-- Every event of a run comes of a call on a controller that the run has led to before. -/
theorem run_split {controller last : Controller} {calls : List Call} {before after : List Event}
    {event : Event} (ran : controller.run calls = .ok (last, before ++ event :: after)) :
    ∃ (front : List Call) (call : Call) (middle next : Controller),
      controller.run front = .ok (middle, before) ∧ middle.call call = .ok (next, event) := by
  induction calls generalizing controller before with
  | nil => simp [run] at ran
  | cons first calls step =>
    obtain ⟨next, told, events, called, rest, split⟩ := run_cons_ok.mp ran
    cases before with
    | nil =>
      cases split
      exact ⟨[], first, controller, next, rfl, called⟩
    | cons earlier before =>
      cases split
      obtain ⟨front, call, middle, final, fronted, later⟩ := step rest
      refine ⟨first :: front, call, middle, final, ?_, later⟩
      exact run_cons_ok.mpr ⟨next, told, before, called, fronted, rfl⟩

theorem Built.call {config : Config} {controller next : Controller} {made : Call} {event : Event}
    (built : Built config controller) (called : controller.call made = .ok (next, event)) :
    Built config next := by
  cases made with
  | apply command heading =>
    cases called
    exact built.accept command heading
  | tick travelled heading =>
    obtain ⟨result, ticked, told⟩ := bind_eq_ok_iff.mp called
    cases told
    exact built.tick (ticked_of_tick ticked)

/-- A run leaves the parameters as the controller was built. -/
theorem Built.run {config : Config} {controller last : Controller} {calls : List Call}
    {history : List Event} (built : Built config controller)
    (ran : controller.run calls = .ok (last, history)) : Built config last := by
  induction calls generalizing controller history with
  | nil =>
    cases ran
    exact built
  | cons first calls step =>
    obtain ⟨next, event, events, called, rest, -⟩ := run_cons_ok.mp ran
    exact step (built.call called) rest

/-- With limits that are numbers every run comes to its end. -/
theorem Built.exists_run {config : Config} (wheels : 0 ≤ config.wheelLimit)
    (lock : config.headingLock.limit.isNaN = false) (turn : config.turn.limit.isNaN = false)
    {controller : Controller} (built : Built config controller) (calls : List Call) :
    ∃ last history, controller.run calls = .ok (last, history) := by
  induction calls generalizing controller with
  | nil => exact ⟨_, _, rfl⟩
  | cons made calls step =>
    have answered : ∃ next event, controller.call made = .ok (next, event) := by
      cases made with
      | apply command heading => exact ⟨_, _, rfl⟩
      | tick travelled heading =>
        obtain ⟨result, ticked⟩ := built.exists_tick wheels lock turn travelled heading
        exact ⟨_, _, bind_eq_ok_iff.mpr ⟨result, ticked, rfl⟩⟩
    obtain ⟨next, event, called⟩ := answered
    obtain ⟨last, history, rest⟩ := step (built.call called)
    exact ⟨last, event :: history, run_cons_ok.mpr ⟨next, event, history, called, rest, rfl⟩⟩

/-! ## The command in force -/

/-- The command in force behind an event. -/
def Event.force (current : Option Command) : Event → Option Command
  | .applied command => if command.mode = .stop then none else some command
  | .ticked tick => if tick.outcome.finished then none else current

def inForce (history : List Event) : Option Command := history.foldl Event.force none

def Event.command? : Event → Option Command
  | .applied command => some command
  | .ticked _ => none

def lastApplied (history : List Event) : Option Command :=
  (history.filterMap Event.command?).getLast?

theorem inForce_concat (history : List Event) (event : Event) :
    inForce (history ++ [event]) = event.force (inForce history) := by
  simp [inForce]

/-- The command in force is the last that was applied. -/
theorem lastApplied_of_inForce {history : List Event} {command : Command}
    (force : inForce history = some command) : lastApplied history = some command := by
  induction history using List.reverseRecOn with
  | nil => cases force
  | append_singleton history event step =>
    rw [inForce_concat] at force
    cases event with
    | applied other =>
      simp only [Event.force] at force
      split at force
      · cases force
      · simpa [lastApplied, Event.command?] using force
    | ticked tick =>
      simp only [Event.force] at force
      split at force
      · cases force
      · simpa [lastApplied, Event.command?] using step force

/-- With no command in force none comes to be so but by a new one. -/
theorem inForce_append_none {history between : List Event} (none : inForce history = none)
    (stops : ∀ command, .applied command ∈ between → command.mode = .stop) :
    inForce (history ++ between) = .none := by
  induction between using List.reverseRecOn with
  | nil => simpa using none
  | append_singleton between event step =>
    have earlier := step fun command inside => stops command (by simp [inside])
    rw [← List.append_assoc, inForce_concat, earlier]
    cases event with
    | applied command => simp [Event.force, stops command (by simp)]
    | ticked tick => simp [Event.force]

/-- What puts every command out of force: a command to stop, and the report of an end. -/
def Event.Rests : Event → Prop
  | .applied command => command.mode = .stop
  | .ticked tick => tick.outcome.finished = true

/-- The chassis was stopped or has reported an end, and no command to move has come since. -/
def Settled (history : List Event) : Prop :=
  ∃ (before : List Event) (event : Event) (between : List Event),
    history = before ++ event :: between ∧ event.Rests ∧
      ∀ command, .applied command ∈ between → command.mode = .stop

/-- Once the motion is over, no command is in force. -/
theorem inForce_of_settled {history : List Event} (settled : Settled history) :
    inForce history = none := by
  obtain ⟨before, event, between, rfl, rests, stops⟩ := settled
  have rested : inForce (before ++ [event]) = none := by
    rw [inForce_concat]
    cases event with
    | applied command => exact if_pos rests
    | ticked tick => exact if_pos rests
  simpa using inForce_append_none rested stops

end Mecanum.Motion.Controller
