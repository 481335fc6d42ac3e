import Mecanum.Arm.Performance

/-!
# The arm on a bench

On a bench the lift moves by a fixed number of steps, in the direction of its speed, each time its
counter is looked at, and pauses end at once. A pause beyond the number allowed never ends, which
leaves the performance unfinished.
-/
namespace Mecanum.Arm

open Journal (Note)

/-- A lift that moves when it is looked at. -/
structure BenchLift where
  speed : Int
  count : Int
  perLook : Int
deriving DecidableEq, Repr

namespace BenchLift

def new (perLook : Int) : BenchLift := ⟨0, 0, perLook⟩

/-- Moves on and shows the counter. -/
def look (lift : BenchLift) : BenchLift :=
  { lift with count := lift.count + lift.speed.sign * lift.perLook }

end BenchLift

structure BenchRun where
  lift : BenchLift
  trace : List Entry
  notes : List Note
  finished : Bool

namespace BenchLift

def answer (lift : BenchLift) : Call → BenchLift
  | .lift speed => { lift with speed := speed }
  | .zero => { lift with count := 0 }
  | .look => lift.look
  | .servo .. | .pause _ => lift

/-- Performs with at most `budget` calls, of which `pauses` may be pauses that end. -/
def runCalls (lift : BenchLift) (config : Config) (performance : Performance) (pauses : Nat) :
    Nat → Except Fault BenchRun
  | 0 => .ok ⟨lift, [], [], false⟩
  | budget + 1 => do
    match ← performance.call? config with
    | none => return ⟨lift, [], [], true⟩
    | some call =>
      let lift := lift.answer call
      let entry : Entry := ⟨call, lift.count⟩
      match call, pauses with
      | .pause _, 0 => return ⟨lift, [entry], [], false⟩
      | _, _ =>
        let left := match call with
          | .pause _ => pauses - 1
          | _ => pauses
        let (next, notes) := performance.advance lift.count
        let rest ← lift.runCalls config next left budget
        return { rest with trace := entry :: rest.trace, notes := notes ++ rest.notes }

/-- Every move takes at most four calls and every pause allowed two. -/
def run (lift : BenchLift) (config : Config) (performance : Performance) (pauses : Nat) :
    Except Fault BenchRun :=
  lift.runCalls config performance pauses (4 * performance.moves.length + 2 * pauses + 5)

/-- Performs a task, which is reported first. -/
def perform (lift : BenchLift) (config : Config) (task : Task) (pauses : Nat) :
    Except Fault BenchRun := do
  let run ← lift.run config (.ofTask config task) pauses
  return { run with notes := .armPerforming task :: run.notes }

end BenchLift

end Mecanum.Arm
