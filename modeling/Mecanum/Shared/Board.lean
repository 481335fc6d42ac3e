import Mecanum.Camera.Detection
import Mecanum.Shared.Signal

/-!
# The sighting board

The board holds the latest camera record and a signal that it changed. A wait on the board ends
with a record that satisfies a condition: either with the one already held, or only with one that
is published later.
-/
namespace Mecanum.Shared

open Camera (Record)

/-- The latest record, and the signal of a change. -/
structure Board where
  latest : Option Record
  changed : Signal Record
deriving DecidableEq, Repr

namespace Board

def empty : Board := ⟨none, .empty⟩

def publish (board : Board) (record : Record) : Board :=
  ⟨some record, board.changed.raise record⟩

/-- Where a wait on the board stands. -/
inductive Wait where
  -- Nothing done yet; the record held counts.
  | held
  -- Nothing done yet; only a record published from now on counts.
  | fresh
  -- Waiting for the next change.
  | change
deriving DecidableEq, Repr

namespace Wait

/-- Looks for a change that satisfies the condition; one that does not is used up. -/
def pollChange (accept : Record → Bool) (board : Board) : Option Record × Board :=
  match board.changed.take with
  | (none, _) => (none, board)
  | (some record, changed) =>
    (if accept record then some record else none, { board with changed := changed })

/-- Lets a wait go as far as it can. -/
def poll (wait : Wait) (accept : Record → Bool) (board : Board) : Option Record × Wait × Board :=
  match wait with
  | held =>
    match board.latest.filter accept with
    | some record => (some record, change, board)
    | none =>
      let (found, board) := pollChange accept board
      (found, change, board)
  | fresh => (none, change, { board with changed := .empty })
  | change =>
    let (found, board) := pollChange accept board
    (found, change, board)

end Wait

end Board

/-- A recorder at work on a board of its own. -/
structure Sightings where
  recorder : Camera.Recorder
  board : Board
deriving DecidableEq

namespace Sightings

def new : Sightings := ⟨.new, .empty⟩

def push (sightings : Sightings) (byte : UInt8) : Option Record × Sightings :=
  match sightings.recorder.push byte with
  | (none, recorder) => (none, { sightings with recorder := recorder })
  | (some record, recorder) => (some record, ⟨recorder, sightings.board.publish record⟩)

end Sightings

end Mecanum.Shared
