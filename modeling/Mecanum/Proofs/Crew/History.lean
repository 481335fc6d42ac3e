import Mathlib.Data.List.DropRight
import Mecanum.Proofs.Crew.Basic

/-!
# Histories

What can be read off the events of a run: the calls and replies of the mission, the events since the
latest of them, the requests that the arm has been sent, has received and has performed, and the
calls that the arm has made.
-/
namespace Mecanum.Robot.Crew

open Arm (Task)

deriving instance DecidableEq for Event

namespace Event

/-- Whether a call begins or ends. -/
def isCall : Event → Bool
  | called _ | replied _ => true
  | _ => false

def isPeriod : Event → Bool
  | period .. => true
  | _ => false

/-- Whether a control period picked up a command. -/
def picksUp : Event → Bool
  | period taken _ => taken.isSome
  | _ => false

/-- Whether a control period reported the end of a command. -/
def finishes : Event → Bool
  | period _ outcome => outcome.finished
  | _ => false

def armCall? : Event → Option Task
  | called (.arm task) => some task
  | _ => none

def requested? : Event → Option Task
  | requested task => some task
  | _ => none

def received? : Event → Option Task
  | received task => some task
  | _ => none

def performed? : Event → Option Task
  | performed task => some task
  | _ => none

def acted? : Event → Option Arm.Entry
  | acted entry => some entry
  | _ => none

end Event

/-- What is behind the last event of a kind grows with the events of other kinds. -/
theorem rtakeWhile_aside {kind : Event → Bool} {events : List Event}
    (aside : ∀ event ∈ events, kind event = false) (history : List Event) :
    (history ++ events).rtakeWhile (!kind ·) = history.rtakeWhile (!kind ·) ++ events := by
  induction events generalizing history with
  | nil => simp
  | cons event rest ih =>
    have first : kind event = false := aside event (by simp)
    have one : (history ++ [event]).rtakeWhile (!kind ·) =
        history.rtakeWhile (!kind ·) ++ [event] :=
      List.rtakeWhile_concat_pos _ _ _ (by simp [first])
    rw [List.append_cons, ih (fun other member => aside other (by simp [member])), one,
      List.append_assoc, List.singleton_append]

theorem rtakeWhile_concat_kind {kind : Event → Bool} {event : Event} (same : kind event = true)
    (history : List Event) : (history ++ [event]).rtakeWhile (!kind ·) = [] :=
  List.rtakeWhile_concat_neg _ _ _ (by simp [same])

/-! ### The calls of the mission -/

def calls (history : List Event) : List Event := history.filter Event.isCall

def latest (history : List Event) : Option Event := (calls history).getLast?

/-- The events behind the latest call or reply. -/
def sinceCall (history : List Event) : List Event := history.rtakeWhile (!Event.isCall ·)

theorem calls_append (front back : List Event) : calls (front ++ back) = calls front ++ calls back :=
  List.filter_append ..

theorem calls_aside {events : List Event} (aside : ∀ event ∈ events, event.isCall = false)
    (history : List Event) : calls (history ++ events) = calls history := by
  have none : calls events = [] := by
    rw [calls, List.filter_eq_nil_iff]
    intro event member
    rw [aside event member]
    exact Bool.false_ne_true
  rw [calls_append, none, List.append_nil]

theorem calls_concat {event : Event} (call : event.isCall = true) (history : List Event) :
    calls (history ++ [event]) = calls history ++ [event] := by
  rw [calls_append, calls, calls, List.filter_singleton, call]
  rfl

theorem latest_aside {events : List Event} (aside : ∀ event ∈ events, event.isCall = false)
    (history : List Event) : latest (history ++ events) = latest history := by
  rw [latest, calls_aside aside, latest]

theorem latest_concat {event : Event} (call : event.isCall = true) (history : List Event) :
    latest (history ++ [event]) = some event := by
  rw [latest, calls_concat call, List.getLast?_concat]

theorem sinceCall_aside {events : List Event} (aside : ∀ event ∈ events, event.isCall = false)
    (history : List Event) : sinceCall (history ++ events) = sinceCall history ++ events :=
  rtakeWhile_aside aside history

theorem sinceCall_concat {event : Event} (call : event.isCall = true) (history : List Event) :
    sinceCall (history ++ [event]) = [] :=
  rtakeWhile_concat_kind call history

/-- A call or reply with none behind it is the latest, and what is behind it came since. -/
theorem split_at_latest {event : Event} (call : event.isCall = true) {since : List Event}
    (aside : ∀ event ∈ since, event.isCall = false) (before : List Event) :
    latest (before ++ event :: since) = some event ∧
      sinceCall (before ++ event :: since) = since := by
  rw [List.append_cons]
  constructor
  · rw [latest_aside aside, latest_concat call]
  · rw [sinceCall_aside aside, sinceCall_concat call, List.nil_append]

/-! ### The requests of the arm -/

def armCalls (history : List Event) : List Task := history.filterMap Event.armCall?

/-- The requests left in the queue of the arm. -/
def requests (history : List Event) : List Task := history.filterMap Event.requested?

/-- The requests that the arm has received. -/
def receipts (history : List Event) : List Task := history.filterMap Event.received?

/-- The requests that the arm has performed to their end. -/
def performances (history : List Event) : List Task := history.filterMap Event.performed?

/-- The calls that the arm has made, with the step counts of the lift behind them. -/
def acts (history : List Event) : List Arm.Entry := history.filterMap Event.acted?

theorem armCalls_append (front back : List Event) :
    armCalls (front ++ back) = armCalls front ++ armCalls back :=
  List.filterMap_append ..

theorem requests_append (front back : List Event) :
    requests (front ++ back) = requests front ++ requests back :=
  List.filterMap_append ..

theorem receipts_append (front back : List Event) :
    receipts (front ++ back) = receipts front ++ receipts back :=
  List.filterMap_append ..

theorem performances_append (front back : List Event) :
    performances (front ++ back) = performances front ++ performances back :=
  List.filterMap_append ..

theorem acts_append (front back : List Event) : acts (front ++ back) = acts front ++ acts back :=
  List.filterMap_append ..

section Cons

variable (task : Task) (events : List Event)

theorem requests_requested : requests [.requested task] = [task] := rfl

theorem receipts_requested : receipts [.requested task] = [] := rfl

theorem performances_requested : performances [.requested task] = [] := rfl

theorem requests_received : requests [.received task] = [] := rfl

theorem receipts_received : receipts [.received task] = [task] := rfl

theorem performances_received : performances [.received task] = [] := rfl

theorem requests_performed : requests [.performed task] = [] := rfl

theorem receipts_performed : receipts [.performed task] = [] := rfl

theorem performances_performed : performances [.performed task] = [task] := rfl

theorem requests_called (call : Mission.Call) :
    requests (.called call :: events) = requests events := rfl

theorem receipts_called (call : Mission.Call) :
    receipts (.called call :: events) = receipts events := rfl

theorem performances_called (call : Mission.Call) :
    performances (.called call :: events) = performances events := rfl

theorem receipts_received_cons :
    receipts (.received task :: events) = task :: receipts events := rfl

theorem receipts_performed_cons : receipts (.performed task :: events) = receipts events := rfl

theorem performances_received_cons :
    performances (.received task :: events) = performances events := rfl

theorem performances_performed_cons :
    performances (.performed task :: events) = task :: performances events := rfl

end Cons

end Mecanum.Robot.Crew
