import Mecanum.Mission.Call
import Mecanum.Shared.State

/-!
# Errands

A call that is carried out over the shared state is an errand. It consists of single operations on
signals, queues and the board. Each operation happens at once or blocks, and other tasks may act
between any two of them. `Errand.step` makes one operation; `Errand.poll` makes as many as it can.
-/
namespace Mecanum.Mission

open Shared (Board)

/-- Where an errand that asks for a completion stands. -/
inductive Stage where
  -- About to clear an older completion.
  | clear
  -- About to leave the request.
  | request
  -- Waiting for the completion.
  | await
deriving DecidableEq, Repr

/-- A call under way. -/
inductive Errand where
  -- Waits for a press; presses from before do not count.
  | start (cleared : Bool)
  | token
  | drive (command : Motion.Command) (stage : Stage)
  | arm (task : Arm.Task) (stage : Stage)
  | target (id : UInt8) (wait : Board.Wait)
  | sight (id : UInt8) (wait : Board.Wait)
  | rezero
  | halt
deriving DecidableEq

inductive Errand.Step where
  -- The operation cannot happen yet; nothing changed but what it looked at.
  | blocked (errand : Errand) (shared : Shared.State)
  | moved (errand : Errand) (shared : Shared.State)
  | over (reply : Reply) (shared : Shared.State)

namespace Errand

/-- The errand of a call. A pause is no errand, for it waits for the clock alone. -/
def ofCall? : Call → Option Errand
  | .awaitStart => some (.start false)
  | .rezero => some .rezero
  | .awaitToken => some .token
  | .drive command => some (.drive command .clear)
  | .halt => some .halt
  | .arm task => some (.arm task .clear)
  | .awaitTarget id => some (.target id .held)
  | .sight id => some (.sight id .fresh)
  | .pause _ => none

/-- Whether a record shows a target. -/
def shows (id : UInt8) (record : Camera.Record) : Bool := record.found && record.targetId = id

/-- A pixel coordinate as a signed word of 16 bits. -/
def pixel (coordinate : UInt16) : Int := Int.bmod coordinate.toNat 65536

/-- Waits on the board for a record that shows a target. -/
def stepBoard (id : UInt8) (wait : Board.Wait) (again : Board.Wait → Errand)
    (reply : Camera.Record → Reply) (shared : Shared.State) : Step :=
  match wait.poll (shows id) shared.board with
  | (some record, _, board) => .over (reply record) { shared with board := board }
  | (none, wait, board) => .blocked (again wait) { shared with board := board }

/-- Waits for a completion to take. -/
def stepAwait (errand : Errand) (taken : Bool × Shared.State) (shared : Shared.State) : Step :=
  match taken with
  | (true, shared) => .over .done shared
  | (false, _) => .blocked errand shared

def step (errand : Errand) (shared : Shared.State) : Step :=
  match errand with
  | start false => .moved (start true) shared.clearStart
  | start true => stepAwait (start true) shared.takeStart shared
  | token =>
    match shared.tokens.pop? with
    | some (oldest, tokens) => .over (.token oldest) { shared with tokens := tokens }
    | none => .blocked token shared
  | drive command .clear => .moved (drive command .request) shared.clearMove
  | drive command .request => .moved (drive command .await) (shared.postCommand command)
  | drive command .await => stepAwait (drive command .await) shared.takeMove shared
  | arm task .clear => .moved (arm task .request) shared.clearArm
  | arm task .request =>
    match shared.tasks.push? task with
    | some tasks => .moved (arm task .await) { shared with tasks := tasks }
    | none => .blocked (arm task .request) shared
  | arm task .await => stepAwait (arm task .await) shared.takeArm shared
  | target id wait => stepBoard id wait (target id) (fun _ => .done) shared
  | sight id wait =>
    stepBoard id wait (sight id) (fun record => .position (pixel record.x) (pixel record.y)) shared
  | rezero => .over .done shared.requestRezero
  | halt => .over .done (shared.postCommand .stop)

/-- The number of operations that come before the last one. -/
def stepsLeft : Errand → Nat
  | start false => 1
  | drive _ .clear | arm _ .clear => 2
  | drive _ .request | arm _ .request => 1
  | _ => 0

/-- Makes operations until one blocks or is the last, but at most a number of them. -/
def advance (errand : Errand) (shared : Shared.State) : Nat → Option Reply × Errand × Shared.State
  | 0 => (none, errand, shared)
  | count + 1 =>
    match errand.step shared with
    | .over reply shared => (some reply, errand, shared)
    | .blocked errand shared => (none, errand, shared)
    | .moved errand shared => errand.advance shared count

/-- Goes as far as possible. -/
def poll (errand : Errand) (shared : Shared.State) : Option Reply × Errand × Shared.State :=
  errand.advance shared (errand.stepsLeft + 1)

end Errand

end Mecanum.Mission
