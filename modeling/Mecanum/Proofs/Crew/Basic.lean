import Mecanum.Robot.Tasks

/-!
# The crew

The tasks of the robot at work on the shared state, in any order and at any pace. One move is one
operation of the mission on a signal, a queue or the board, one control period, one step of the arm,
or one byte or sample taken in. A schedule is a list of moves, so a statement about all schedules is
a statement about all interleavings. Time is not kept: a pause may end and a watchdog may run out at
any moment, the arm reads any clock and any lift, and the wheels and the heading change at will.

Every move says what it did as a list of events. A fault ends a run. The robot on its timeline makes
the moves of one schedule among all these.
-/
namespace Mecanum.Robot

open Mission (Errand)
open Motion (WheelDrive)

inductive Crew.Pending where
  | errand (errand : Errand)
  | pause
deriving DecidableEq

/-- The tasks and what they share. `W` is the drive of the wheels. -/
structure Crew (W : Type) where
  runner : Mission.Runner
  -- The call under way, once its first operation has been made.
  pending : Option Crew.Pending
  motion : Motion.Loop W
  arm : ArmTask
  -- The request that the arm has received and not performed to its end.
  serving : Option Arm.Task
  provider : Heading.Provider
  recorder : Camera.Recorder
  framer : Scanner.Framer
  button : Button
  shared : Shared.State

namespace Crew

structure Setup where
  mission : Mission.Config := {}
  motion : Motion.Config := {}
  arm : Arm.Config := {}
  heading : Heading.Config := {}

/-- What a move did, as far as one task can tell from another. -/
inductive Event where
  -- The mission enters a state, with the plan it has then.
  | entered (state : Mission.State) (plan : Mission.Plan)
  -- The mission makes the first operation of a call.
  | called (call : Mission.Call)
  -- The call ends.
  | replied (reply : Mission.Reply)
  -- The state of the mission ends.
  | ended (ending : Mission.Ending)
  -- The mission leaves a request in the queue of the arm.
  | requested (task : Arm.Task)
  -- The arm takes a request out of its queue.
  | received (task : Arm.Task)
  -- The arm makes a call of its performance, which leaves the lift at a step count.
  | acted (entry : Arm.Entry)
  -- The arm has performed a request to its end and signals so.
  | performed (task : Arm.Task)
  -- A control period, with the command that it picked up.
  | period (taken : Option Motion.Command) (outcome : Motion.Outcome)
  -- A heading is published, measured from a new zero or not.
  | headed (snapshot : Heading.Snapshot) (zeroed : Bool)
  -- A sighting is published.
  | sighted (record : Camera.Record)
  -- A token is complete, whether the queue has room for it or not.
  | framed (token : Scanner.Token)
  -- The start button is pressed.
  | pressed

/-- The devices whose bytes are queued. -/
inductive Port where
  | inertial
  | camera
  | scanner
deriving DecidableEq, Repr

/-- Who acts next. -/
inductive Move (W : Type) where
  | mission
  -- The watchdog of the call under way runs out.
  | watchdog
  | motion
  | arm (now : Nat) (body : Body) (pulses : Servo.Pulses 3)
  -- The task behind a port takes one byte in.
  | intake (port : Port)
  | button (reading : Reading)
  -- A byte arrives at a port; one that finds no room is lost.
  | arrival (port : Port) (byte : UInt8)
  -- The wheels have rolled.
  | wheels (wheels : W)
  -- A body that knows its heading publishes it.
  | heading (snapshot : Heading.Snapshot)

variable {W : Type}

/-! ### The mission -/

/-- What a step of the runner says about the end of its state. -/
def endings (progress : Mission.Progress) : List Event := (progress.ending.map .ended).toList

/-- The mission enters its present state. -/
def enter (crew : Crew W) : Except Fault (Crew W × List Event) := do
  let progress ← crew.runner.enter
  return ({ crew with runner := progress.runner },
    .entered crew.runner.state crew.runner.plan :: endings progress)

/-- The call under way ends with a reply, which leaves the shared state as given. -/
def resume (crew : Crew W) (opening : List Event) (shared : Shared.State)
    (reply : Mission.Reply) : Except Fault (Crew W × List Event) := do
  let progress ← crew.runner.reply reply
  return ({ crew with runner := progress.runner, pending := none, shared := shared },
    opening ++ .replied reply :: endings progress)

/-- What an operation that moves an errand on leaves for the arm. -/
def requestsOf : Errand → List Event
  | .arm task .request => [.requested task]
  | _ => []

def operate (crew : Crew W) (opening : List Event) (errand : Errand) :
    Except Fault (Crew W × List Event) :=
  match errand.step crew.shared with
  | .blocked errand shared =>
    .ok ({ crew with pending := some (.errand errand), shared := shared }, opening)
  | .moved next shared =>
    .ok ({ crew with pending := some (.errand next), shared := shared },
      opening ++ requestsOf errand)
  | .over reply shared => crew.resume opening shared reply

def stepMission (crew : Crew W) : Except Fault (Crew W × List Event) :=
  match crew.pending with
  | some .pause => crew.resume [] crew.shared .done
  | some (.errand errand) => crew.operate [] errand
  | none =>
    match crew.runner.call? with
    | none => crew.enter
    | some call =>
      match Errand.ofCall? call with
      | some errand => crew.operate [.called call] errand
      | none => .ok ({ crew with pending := some .pause }, [.called call])

/-- The watchdog runs out, if there is one on the call under way. -/
def stepWatchdog (crew : Crew W) : Except Fault (Crew W × List Event) :=
  match crew.pending, crew.runner.timeLimit? with
  | some _, some _ => crew.resume [] crew.shared .expired
  | _, _ => .ok (crew, [])

/-! ### The other tasks -/

def stepMotion [WheelDrive W] (crew : Crew W) : Except Fault (Crew W × List Event) := do
  let step ← crew.motion.step crew.shared
  return ({ crew with motion := step.loop, shared := step.shared },
    [.period crew.shared.command.pending step.outcome])

/-- The arm serves a request from the step that takes it out of the queue to the step that signals
its end. -/
def serve (crew : Crew W) (next : ArmTask) : Option Arm.Task × List Event :=
  match crew.arm.requested, next.requested with
  | false, true =>
    (crew.shared.tasks.toList.head?, (crew.shared.tasks.toList.head?.map .received).toList)
  | true, false => (none, (crew.serving.map .performed).toList)
  | _, _ => (crew.serving, [])

/-- What a step of the arm tells of the call that it has made. -/
def actsOf (entry : Option Arm.Entry) : List Event := (entry.map .acted).toList

def stepArm (crew : Crew W) (now : Nat) (body : Body) (pulses : Servo.Pulses 3) :
    Except Fault (Crew W × List Event) := do
  let step ← crew.arm.step now crew.shared body pulses
  let (serving, events) := crew.serve step.task
  return ({ crew with arm := step.task, serving := serving, shared := step.shared },
    actsOf step.entry ++ events)

def takeInertial (crew : Crew W) : Crew W × List Event :=
  match crew.shared.inertialBytes.pop? with
  | none => (crew, [])
  | some (byte, rest) =>
    let step := crew.provider.feed byte crew.shared.heading
    ({ crew with
        provider := step.provider
        shared := { crew.shared with heading := step.cell, inertialBytes := rest } },
      (step.published.map (.headed · crew.shared.heading.rezero.isRaised)).toList)

def takeCamera (crew : Crew W) : Crew W × List Event :=
  match crew.shared.cameraBytes.pop? with
  | none => (crew, [])
  | some (byte, rest) =>
    match crew.recorder.push byte with
    | (none, recorder) =>
      ({ crew with recorder := recorder, shared := { crew.shared with cameraBytes := rest } }, [])
    | (some record, recorder) =>
      ({ crew with
          recorder := recorder
          shared := { crew.shared with cameraBytes := rest }.publishRecord record },
        [.sighted record])

def takeScanner (crew : Crew W) : Crew W × List Event :=
  match crew.shared.scannerBytes.pop? with
  | none => (crew, [])
  | some (byte, rest) =>
    let intake := Scanner.Intake.feed crew.framer byte crew.shared.tokens
    ({ crew with
        framer := intake.framer
        shared := { crew.shared with tokens := intake.tokens, scannerBytes := rest } },
      (intake.framed.map .framed).toList)

/-- The task behind a port takes one byte in. -/
def intake (crew : Crew W) : Port → Crew W × List Event
  | .inertial => crew.takeInertial
  | .camera => crew.takeCamera
  | .scanner => crew.takeScanner

def sampleButton (crew : Crew W) (reading : Reading) : Crew W × List Event :=
  let (button, shared, _) := StartTask.sample crew.button reading crew.shared
  ({ crew with button := button, shared := shared },
    if (crew.button.poll reading).1 then [.pressed] else [])

/-- A byte arrives at a port. -/
def arrive (shared : Shared.State) (byte : UInt8) : Port → Shared.State
  | .inertial =>
    { shared with inertialBytes := (shared.inertialBytes.push? byte).getD shared.inertialBytes }
  | .camera =>
    { shared with cameraBytes := (shared.cameraBytes.push? byte).getD shared.cameraBytes }
  | .scanner =>
    { shared with scannerBytes := (shared.scannerBytes.push? byte).getD shared.scannerBytes }

/-! ### Runs -/

/-- The crew before its first move. -/
def new [WheelDrive W] (setup : Setup) (wheels : W) : Crew W where
  runner := .new setup.mission
  pending := none
  motion := .new setup.motion wheels
  arm := .new setup.arm
  serving := none
  provider := .new setup.heading
  recorder := .new
  framer := .new
  button := .new
  shared := .initial

variable [WheelDrive W]

/-- One move, with what it did. -/
def step (crew : Crew W) : Move W → Except Fault (Crew W × List Event)
  | .mission => crew.stepMission
  | .watchdog => crew.stepWatchdog
  | .motion => crew.stepMotion
  | .arm now body pulses => crew.stepArm now body pulses
  | .intake port => .ok (crew.intake port)
  | .button reading => .ok (crew.sampleButton reading)
  | .arrival port byte => .ok ({ crew with shared := arrive crew.shared byte port }, [])
  | .wheels wheels => .ok ({ crew with motion := { crew.motion with wheels := wheels } }, [])
  | .heading snapshot => .ok ({ crew with shared := crew.shared.publishHeading snapshot }, [])

/-- The moves of a schedule one after another, up to the first fault, with all that they did. -/
def run (crew : Crew W) : List (Move W) → Crew W × List Event
  | [] => (crew, [])
  | move :: rest =>
    match crew.step move with
    | .error _ => (crew, [])
    | .ok (next, events) => ((next.run rest).1, events ++ (next.run rest).2)

/-- The crew that a schedule leads to. -/
def reached (setup : Setup) (wheels : W) (schedule : List (Move W)) : Crew W :=
  ((new setup wheels).run schedule).1

/-- All that happens on a schedule. -/
def history (setup : Setup) (wheels : W) (schedule : List (Move W)) : List Event :=
  ((new setup wheels).run schedule).2

end Crew

end Mecanum.Robot
