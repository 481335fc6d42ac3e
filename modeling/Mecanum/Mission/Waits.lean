import Mecanum.Mission.Errand

/-!
# Tables of waits

Several waits on the shared state at once, each known by its number. A wait does nothing until it
is polled; once it is over, or has been dropped, it is gone. Dropping a wait takes nothing back of
what it has done.
-/
namespace Mecanum.Mission

inductive Wait where
  | errand (errand : Errand)
  -- A wait on the board for a record whose first coordinate reaches a number.
  | board (least : Nat) (wait : Shared.Board.Wait)
  | gone

/-- What a poll finds. -/
inductive Finding where
  | pending
  | replied (reply : Reply)
  | recorded (record : Camera.Record)
  | gone

namespace Wait

/-- The condition of a wait on the board. -/
def reaches (least : Nat) (record : Camera.Record) : Bool := least ≤ record.x.toNat

def poll (wait : Wait) (shared : Shared.State) : Finding × Wait × Shared.State :=
  match wait with
  | gone => (.gone, gone, shared)
  | errand current =>
    match current.poll shared with
    | (some reply, _, shared) => (.replied reply, gone, shared)
    | (none, current, shared) => (.pending, errand current, shared)
  | board least current =>
    match current.poll (reaches least) shared.board with
    | (some record, _, seen) => (.recorded record, gone, { shared with board := seen })
    | (none, current, seen) => (.pending, board least current, { shared with board := seen })

end Wait

structure Waits where
  shared : Shared.State
  table : Array Wait

namespace Waits

def initial : Waits := ⟨.initial, #[]⟩

def add (waits : Waits) (wait : Wait) : Nat × Waits :=
  (waits.table.size, { waits with table := waits.table.push wait })

def poll (waits : Waits) (number : Nat) : Finding × Waits :=
  let (finding, wait, shared) := (waits.table.getD number .gone).poll waits.shared
  (finding, ⟨shared, waits.table.setIfInBounds number wait⟩)

def drop (waits : Waits) (number : Nat) : Waits :=
  { waits with table := waits.table.setIfInBounds number .gone }

end Waits

end Mecanum.Mission
