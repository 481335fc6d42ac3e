import Mecanum.Motion.Loop
import Mecanum.Robot.Body

/-!
# The rolling chassis

The motion loop with its body and the shared state, without the other tasks. After each control
period the stepper channels run for the ticks that fit into it.
-/
namespace Mecanum.Robot

open Journal (Note)

/-- A body that reports its own heading publishes it. -/
def publishBody (body : Body) (shared : Shared.State) : Shared.State :=
  match body.snapshot? with
  | some snapshot => shared.publishHeading snapshot
  | none => shared

/-- One control period, after which a body that knows its heading publishes it. -/
def controlPeriod (loop : Motion.Loop Body) (shared : Shared.State) :
    Except Fault (Motion.Loop.Step Body) := do
  let step ← loop.step shared
  return { step with shared := publishBody step.loop.wheels step.shared }

structure Roll where
  loop : Motion.Loop Body
  shared : Shared.State
  -- The ticks of the stepper channels in one control period.
  ticks : Nat

structure Roll.Outcome where
  roll : Roll
  -- The periods, counted from zero, that ended a command.
  finished : List Nat
  notes : List Note

namespace Roll

/-- A chassis at rest; with a tick rate it has a stepper bank. -/
def new (config : Motion.Config) (bankHz : Option UInt32) : Roll :=
  match bankHz with
  | none => ⟨.new config (.simulate config 0), .initial, 0⟩
  | some hz =>
    ⟨.new config (.build config hz), .initial, hz.toNat * config.tickMs.toNat / 1000⟩

def setHeading (roll : Roll) (heading : Float32) : Roll :=
  let body := roll.loop.wheels.setHeading heading
  { roll with
    loop := { roll.loop with wheels := body }
    shared := publishBody body roll.shared }

/-- One control period and the stepper ticks behind it. -/
def period (roll : Roll) : Except Fault (Roll × Motion.Outcome × List Note) := do
  let step ← controlPeriod roll.loop roll.shared
  let body := step.loop.wheels.service roll.ticks
  return ({ roll with loop := { step.loop with wheels := body }, shared := step.shared },
    step.outcome, step.notes)

/-- A number of control periods, the first of which has a number itself. -/
def periods (roll : Roll) (first : Nat) : Nat → Except Fault Outcome
  | 0 => .ok ⟨roll, [], []⟩
  | count + 1 => do
    let (roll, outcome, notes) ← roll.period
    let rest ← roll.periods (first + 1) count
    return { rest with
      finished := if outcome.finished then first :: rest.finished else rest.finished
      notes := notes ++ rest.notes }

end Roll

end Mecanum.Robot
