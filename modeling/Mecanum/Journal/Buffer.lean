import Mecanum.Journal.Note

/-!
# The journal buffer

The journal never waits for its reader. A record becomes one line; a line that is too long, or that
finds no room, is lost whole and the loss is remembered. A drain empties the buffer and clears that
memory first, and then makes its writes: the lines held, and a marker if some were lost. A sink may
refuse a write, which ends the drain; what was not written is gone.
-/
namespace Mecanum.Journal

def bufferCapacity : Nat := 1024

/-- The bytes of the longest line, its end included. -/
def lineCapacity : Nat := 160

/-- Written behind the lines of a drain when lines were lost before it. -/
def overflowMarker : String := "[log overflow]\r\n"

def line (level : Level) (text : String) : String := "[" ++ level.label ++ "] " ++ text ++ "\r\n"

structure Buffer where
  -- Records up to this level are kept; without one, none are.
  threshold : Option Level
  pending : String
  -- Whether a line was lost since the last drain.
  overflowed : Bool
deriving DecidableEq, Repr

namespace Buffer

def new (threshold : Option Level) : Buffer := ⟨threshold, "", false⟩

def enabled (buffer : Buffer) (level : Level) : Bool :=
  match buffer.threshold with
  | none => false
  | some threshold => level.rank ≤ threshold.rank

/-- Whether a line can be appended. -/
def admits (buffer : Buffer) (line : String) : Bool :=
  line.utf8ByteSize ≤ lineCapacity
    && buffer.pending.utf8ByteSize + line.utf8ByteSize ≤ bufferCapacity

/-- Appends a line, or remembers that it was lost. -/
def append (buffer : Buffer) (line : String) : Buffer :=
  if buffer.admits line then { buffer with pending := buffer.pending ++ line }
  else { buffer with overflowed := true }

def record (buffer : Buffer) (level : Level) (text : String) : Buffer :=
  if buffer.enabled level then buffer.append (line level text) else buffer

/-- Takes the same record in a number of times. -/
def recordTimes (buffer : Buffer) (level : Level) (text : String) : Nat → Buffer
  | 0 => buffer
  | count + 1 => (buffer.record level text).recordTimes level text count

def recordNotes (buffer : Buffer) (notes : List Note) : Buffer :=
  notes.foldl
    (fun buffer note =>
      if buffer.enabled note.level then buffer.append (line note.level note.text) else buffer)
    buffer

/-- The writes of a drain, in order, and the emptied buffer. -/
def drain (buffer : Buffer) : List String × Buffer :=
  (buffer.pending :: (if buffer.overflowed then [overflowMarker] else []),
    { buffer with pending := "", overflowed := false })

end Buffer

/-- A receiver of drained text that refuses writes beyond its capacity. -/
structure Sink where
  capacity : Option Nat
  taken : String
deriving DecidableEq, Repr

namespace Sink

def new (capacity : Option Nat) : Sink := ⟨capacity, ""⟩

/-- Takes a write whole or refuses it. -/
def write? (sink : Sink) (text : String) : Option Sink :=
  match sink.capacity with
  | none => some { sink with taken := sink.taken ++ text }
  | some capacity =>
    if sink.taken.utf8ByteSize + text.utf8ByteSize ≤ capacity then
      some { sink with taken := sink.taken ++ text }
    else none

/-- Makes writes until one is refused, and tells whether all were taken. -/
def writeAll (sink : Sink) : List String → Bool × Sink
  | [] => (true, sink)
  | text :: rest =>
    match sink.write? text with
    | some sink => sink.writeAll rest
    | none => (false, sink)

end Sink

end Mecanum.Journal
