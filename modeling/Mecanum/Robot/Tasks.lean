import Mecanum.Button
import Mecanum.Heading.Provider
import Mecanum.Mission.Errand
import Mecanum.Mission.Runner
import Mecanum.Motion.Loop
import Mecanum.Robot.Body
import Mecanum.Scanner.Intake
import Mecanum.Servo

/-!
# The tasks that wait

Two tasks wait for the clock as well as for other tasks: the mission, whose calls pause or run under
a watchdog, and the arm, whose performances pause. Each makes one step at a time and tells whether
it got on; times are whole milliseconds.
-/
namespace Mecanum.Robot

open Journal (Note)
open Mission (Errand Runner)

structure MissionTask where
  runner : Runner
  errand : Option Errand
  wake : Option Nat
deriving DecidableEq

structure MissionTask.Step where
  task : MissionTask
  shared : Shared.State
  notes : List Note
  -- Whether the mission got on, so that another step may follow.
  moved : Bool

namespace MissionTask

def new (config : Mission.Config) : MissionTask := ⟨.new config, none, none⟩

/-- Goes on with a reply. -/
def resume (task : MissionTask) (shared : Shared.State) (reply : Mission.Reply) :
    Except Fault Step := do
  let progress ← task.runner.reply reply
  return ⟨⟨progress.runner, none, none⟩, shared, progress.notes, true⟩

def pause (task : MissionTask) (now : Nat) (shared : Shared.State) (ms : UInt32) :
    Except Fault Step :=
  let wake := task.wake.getD (now + ms.toNat)
  if wake ≤ now then task.resume shared .done
  else .ok ⟨{ task with wake := some wake }, shared, [], false⟩

/-- An errand that is not over yet, which a watchdog may guard. The watchdog starts running when
the errand is first found waiting. -/
def watch (task : MissionTask) (now : Nat) (shared : Shared.State) (errand : Errand) :
    Except Fault Step :=
  let moved := decide (task.errand ≠ some errand)
  match task.runner.timeLimit? with
  | none => .ok ⟨{ task with errand := some errand }, shared, [], moved⟩
  | some limit =>
    let wake := task.wake.getD (now + limit.toNat)
    if wake ≤ now then task.resume shared .expired
    else .ok ⟨{ task with errand := some errand, wake := some wake }, shared, [], moved⟩

/-- One step of the mission. A call is looked at before its watchdog. -/
def step (task : MissionTask) (now : Nat) (shared : Shared.State) : Except Fault Step :=
  match task.runner.call? with
  | none => do
    let progress ← task.runner.enter
    return ⟨⟨progress.runner, none, none⟩, shared, progress.notes, true⟩
  | some call =>
    match call, task.errand <|> Errand.ofCall? call with
    | .pause ms, _ => task.pause now shared ms
    | _, none => .ok ⟨task, shared, [], false⟩
    | _, some errand =>
      match errand.poll shared with
      | (some reply, _, shared) => task.resume shared reply
      | (none, errand, shared) => task.watch now shared errand

end MissionTask

structure ArmTask where
  config : Arm.Config
  performance : Option Arm.Performance
  -- Whether the end of the performance is to be signalled.
  requested : Bool
  wake : Option Nat
deriving DecidableEq

structure ArmTask.Step where
  task : ArmTask
  shared : Shared.State
  body : Body
  pulses : Servo.Pulses 3
  -- The call that the step has made, a pause when it ends.
  entry : Option Arm.Entry
  notes : List Note
  moved : Bool

namespace ArmTask

/-- The arm begins by taking its safe pose, unasked. -/
def new (config : Arm.Config) : ArmTask :=
  ⟨config, some (.ofMoves (Arm.Task.resetMoves config)), false, none⟩

/-- Waits for a request and takes it on. -/
def receive (task : ArmTask) (shared : Shared.State) (body : Body) (pulses : Servo.Pulses 3) :
    Step :=
  match shared.tasks.pop? with
  | none => ⟨task, shared, body, pulses, none, [], false⟩
  | some (request, tasks) =>
    ⟨{ task with performance := some (.ofTask task.config request), requested := true },
      { shared with tasks := tasks }, body, pulses, none, [.armPerforming request], true⟩

def finish (task : ArmTask) (shared : Shared.State) (body : Body) (pulses : Servo.Pulses 3) :
    Step :=
  ⟨{ task with performance := none, requested := false },
    if task.requested then shared.signalArm else shared, body, pulses, none, [], true⟩

/-- Goes on behind a call, which has left the body as it is now. -/
def resume (task : ArmTask) (performance : Arm.Performance) (call : Arm.Call)
    (shared : Shared.State) (body : Body) (pulses : Servo.Pulses 3) : Step :=
  let (next, notes) := performance.advance body.liftSteps
  ⟨{ task with performance := some next, wake := none }, shared, body, pulses,
    some ⟨call, body.liftSteps⟩, notes, true⟩

/-- One step of the arm. -/
def step (task : ArmTask) (now : Nat) (shared : Shared.State) (body : Body)
    (pulses : Servo.Pulses 3) : Except Fault Step :=
  match task.performance with
  | none => .ok (task.receive shared body pulses)
  | some performance => do
    match ← performance.call? task.config with
    | none => return task.finish shared body pulses
    | some (.pause ms) =>
      let wake := task.wake.getD (now + ms.toNat)
      if wake ≤ now then return task.resume performance (.pause ms) shared body pulses
      else return ⟨{ task with wake := some wake }, shared, body, pulses, none, [], false⟩
    | some (.servo servo angle) =>
      return task.resume performance (.servo servo angle) shared body
        (pulses.setAngle servo.channel angle)
    | some call => return task.resume performance call shared (body.answer call) pulses

end ArmTask

/-- The milliseconds between two samples of the start button. -/
def buttonPeriod : Nat := 200

structure StartTask where
  button : Button
  wake : Nat
deriving DecidableEq, Repr

namespace StartTask

def new : StartTask := ⟨.new, 0⟩

/-- Samples the button. A press is signalled. -/
def sample (button : Button) (reading : Reading) (shared : Shared.State) :
    Button × Shared.State × List Note :=
  match button.poll reading with
  | (true, button) => (button, shared.signalStart, [.startPressed])
  | (false, button) => (button, shared, [])

end StartTask

end Mecanum.Robot
