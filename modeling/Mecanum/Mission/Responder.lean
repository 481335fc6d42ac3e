import Mecanum.Mission.Call

/-!
# Responders

A responder is whatever a mission calls: a robot, a simulation, a script. Each kind of call is a
method of its own, so an answer always has the form that its call asks for. Stopping the chassis
and asking for a new heading zero never wait. Any other call is a wait, which is polled until it
is over; the delay of a watchdog is polled beside it, always after it.
-/
namespace Mecanum.Mission

variable {W α β : Type}

/-- What one poll of a wait finds. -/
structure Look (W α : Type) where
  -- What the wait brings, if it is over.
  answer : Option α
  -- Whether the delay beside the wait is over.
  rung : Bool
  -- The responder behind the poll.
  world : W

namespace Look

def map (f : α → β) (look : Look W α) : Look W β := { look with answer := look.answer.map f }

/-- Neither the wait nor the delay is over. -/
def Idle (look : Look W α) : Prop := look.answer = none ∧ look.rung = false

end Look

/-- The polls of a wait, up to the last that finds anything. -/
abbrev Looks (W α : Type) := List (Look W α)

namespace Looks

/-- A wait that is over at its first poll. -/
def now (answer : α) (world : W) : Looks W α := [⟨some answer, false, world⟩]

/-- A wait that goes on for good, while a delay beside it ends at once. -/
def never (world : W) : Looks W α := [⟨none, true, world⟩]

def map (f : α → β) (looks : Looks W α) : Looks W β := List.map (Look.map f) looks

end Looks

/-- What a mission calls, in a state of type `W`. -/
class Responder (W : Type) where
  awaitStart : W → Looks W Unit
  rezero : W → W
  awaitToken : W → Looks W Scanner.Token
  drive : W → Motion.Command → Looks W Unit
  halt : W → W
  arm : W → Arm.Task → Looks W Unit
  awaitTarget : W → UInt8 → Looks W Unit
  sight : W → UInt8 → Looks W (Int × Int)
  pause : W → UInt32 → Looks W Unit

def Responder.looks [Responder W] (world : W) : Call → Looks W Reply
  | .awaitStart => (awaitStart world).map fun _ => .done
  | .rezero => .now .done (rezero world)
  | .awaitToken => (awaitToken world).map .token
  | .drive command => (drive world command).map fun _ => .done
  | .halt => .now .done (halt world)
  | .arm task => (arm world task).map fun _ => .done
  | .awaitTarget id => (awaitTarget world id).map fun _ => .done
  | .sight id => (sight world id).map fun (x, y) => .position x y
  | .pause ms => (pause world ms).map fun _ => .done

/-- How a wait ends. -/
inductive Outcome (W : Type) where
  | replied (reply : Reply) (world : W)
  -- The delay of the watchdog was over first.
  | expired (world : W)
  -- Neither is ever over.
  | hung

/-- The end of a wait that a watchdog guards or not. A poll that finds both over counts for the
wait. -/
def Outcome.ofLooks (guarded : Bool) : Looks W Reply → Outcome W
  | [] => .hung
  | look :: rest =>
    match look.answer with
    | some reply => .replied reply look.world
    | none => if guarded && look.rung then .expired look.world else ofLooks guarded rest

end Mecanum.Mission
