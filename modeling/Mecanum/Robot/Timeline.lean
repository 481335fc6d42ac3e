import Mecanum.Camera.Detection
import Mecanum.Journal.Buffer
import Mecanum.Robot.Roll
import Mecanum.Robot.Tasks

/-!
# The robot on a timeline

All tasks of the robot on one clock of whole milliseconds. At each time that matters the robot
settles: the tasks are polled in a fixed order, each goes as far as it can, and the rounds repeat
until a round gets nobody on. Between two such times only the stepper channels run.
-/
namespace Mecanum.Robot

/-- A camera that sends its frames in turn, one in each period. -/
structure CameraFeed where
  periodMs : Nat
  frames : Array (List UInt8)

structure Setup where
  motion : Motion.Config
  mission : Mission.Config
  arm : Arm.Config
  -- The tick rate of the stepper channels; without one, the body is simulated.
  bankHz : Option UInt32
  -- The steps that a simulated lift makes at each look.
  perLook : Int
  camera : Option CameraFeed
  -- The journal keeps records up to this level.
  threshold : Option Journal.Level

end Mecanum.Robot

namespace Mecanum

open Journal (Note)
open Robot

structure Robot where
  setup : Setup
  now : Nat
  shared : Shared.State
  provider : Heading.Provider
  recorder : Camera.Recorder
  framer : Scanner.Framer
  motion : Motion.Loop Body
  -- When the next control period begins.
  motionWake : Nat
  mission : MissionTask
  arm : ArmTask
  pulses : Servo.Pulses 3
  start : StartTask
  -- What the pin of the start button reads.
  pin : Reading
  -- The frames that the camera has sent.
  framesSent : Nat
  -- The bytes lost to full queues.
  dropped : Nat
  journal : Journal.Buffer

namespace Robot

def Setup.body (setup : Setup) : Body :=
  match setup.bankHz with
  | none => .simulate setup.motion setup.perLook
  | some hz => .build setup.motion hz

/-- A robot before its first moment. -/
def assemble (setup : Setup) : Robot where
  setup := setup
  now := 0
  shared := .initial
  provider := .new {}
  recorder := .new
  framer := .new
  motion := .new setup.motion setup.body
  motionWake := 0
  mission := .new setup.mission
  arm := .new setup.arm
  pulses := .new
  start := .new
  pin := .high
  framesSent := 0
  dropped := 0
  journal := .new setup.threshold

def report (robot : Robot) (notes : List Note) : Robot :=
  { robot with journal := robot.journal.recordNotes notes }

/-- A polled robot, and whether the task polled got on. -/
abbrev Polled := Bool × Robot

def pollHeading (robot : Robot) : Polled :=
  match robot.shared.inertialBytes.toList with
  | [] => (false, robot)
  | bytes =>
    (true, bytes.foldl
      (fun robot byte =>
        let step := robot.provider.feed byte robot.shared.heading
        { robot with
          provider := step.provider
          shared := { robot.shared with heading := step.cell } }.report step.notes)
      { robot with shared := { robot.shared with inertialBytes := .empty } })

def pollVision (robot : Robot) : Polled :=
  match robot.shared.cameraBytes.toList with
  | [] => (false, robot)
  | bytes =>
    (true, bytes.foldl
      (fun robot byte =>
        match robot.recorder.push byte with
        | (none, recorder) => { robot with recorder := recorder }
        | (some record, recorder) =>
          { robot with
            recorder := recorder
            shared := robot.shared.publishRecord record }.report [.recorded record])
      { robot with shared := { robot.shared with cameraBytes := .empty } })

def pollScanner (robot : Robot) : Polled :=
  match robot.shared.scannerBytes.toList with
  | [] => (false, robot)
  | bytes =>
    (true, bytes.foldl
      (fun robot byte =>
        let intake := Scanner.Intake.feed robot.framer byte robot.shared.tokens
        { robot with
          framer := intake.framer
          shared := { robot.shared with tokens := intake.tokens } }.report intake.notes)
      { robot with shared := { robot.shared with scannerBytes := .empty } })

def pollMotion (robot : Robot) : Except Fault Polled := do
  if robot.motionWake ≤ robot.now then
    let step ← controlPeriod robot.motion robot.shared
    return (true,
      { robot with
        motion := step.loop
        shared := step.shared
        motionWake := robot.now + robot.setup.motion.tickMs.toNat }.report step.notes)
  else return (false, robot)

def pollMission (robot : Robot) (moved : Bool) : Nat → Except Fault Polled
  | 0 => .ok (moved, robot)
  | count + 1 => do
    let step ← robot.mission.step robot.now robot.shared
    let robot := { robot with mission := step.task, shared := step.shared }.report step.notes
    if step.moved then robot.pollMission true count else return (moved, robot)

def pollArm (robot : Robot) (moved : Bool) : Nat → Except Fault Polled
  | 0 => .ok (moved, robot)
  | count + 1 => do
    let step ← robot.arm.step robot.now robot.shared robot.motion.wheels robot.pulses
    let robot :=
      { robot with
        arm := step.task
        shared := step.shared
        motion := { robot.motion with wheels := step.body }
        pulses := step.pulses }.report step.notes
    if step.moved then robot.pollArm true count else return (moved, robot)

def pollStart (robot : Robot) : Polled :=
  if robot.start.wake ≤ robot.now then
    let (button, shared, notes) := StartTask.sample robot.start.button robot.pin robot.shared
    (true,
      { robot with
        start := ⟨button, robot.now + buttonPeriod⟩
        shared := shared }.report notes)
  else (false, robot)

/-- The steps that one task may make in one round; no task comes near. -/
def patience : Nat := 1000000

def round (robot : Robot) : Except Fault Polled := do
  let (heading, robot) := robot.pollHeading
  let (vision, robot) := robot.pollVision
  let (scanner, robot) := robot.pollScanner
  let (motion, robot) ← robot.pollMotion
  let (mission, robot) ← robot.pollMission false patience
  let (arm, robot) ← robot.pollArm false patience
  let (start, robot) := robot.pollStart
  return (heading || vision || scanner || motion || mission || arm || start, robot)

/-- Makes rounds until one gets nobody on, but at most a number of them. -/
def settleWithin (robot : Robot) : Nat → Except Fault Robot
  | 0 => .ok robot
  | rounds + 1 => do
    let (moved, robot) ← robot.round
    if moved then robot.settleWithin rounds else return robot

def settle (robot : Robot) : Except Fault Robot := robot.settleWithin patience

/-- A robot that has settled at its first moment. -/
def boot (setup : Setup) : Except Fault Robot := (assemble setup).settle

/-- Offers bytes to the inertial queue; those that find no room are lost. -/
def receiveInertial (robot : Robot) (bytes : List UInt8) : Robot :=
  let (queue, lost) := robot.shared.inertialBytes.pushAll bytes
  { robot with
    shared := { robot.shared with inertialBytes := queue }
    dropped := robot.dropped + lost }

/-- Offers bytes to the camera queue; those that find no room are lost. -/
def receiveCamera (robot : Robot) (bytes : List UInt8) : Robot :=
  let (queue, lost) := robot.shared.cameraBytes.pushAll bytes
  { robot with
    shared := { robot.shared with cameraBytes := queue }
    dropped := robot.dropped + lost }

/-- Offers bytes to the scanner queue; those that find no room are lost. -/
def receiveScanner (robot : Robot) (bytes : List UInt8) : Robot :=
  let (queue, lost) := robot.shared.scannerBytes.pushAll bytes
  { robot with
    shared := { robot.shared with scannerBytes := queue }
    dropped := robot.dropped + lost }

/-- What can happen to a robot at a moment. -/
inductive Incident where
  | inertial (bytes : List UInt8)
  | camera (bytes : List UInt8)
  | scanner (bytes : List UInt8)
  -- The pin of the start button changes.
  | pin (reading : Reading)
  | startSignal
  -- A command is left for the chassis.
  | command (command : Motion.Command)

/-- Lets something happen, and settles. -/
def meet (robot : Robot) (incident : Incident) : Except Fault Robot :=
  (match incident with
    | .inertial bytes => robot.receiveInertial bytes
    | .camera bytes => robot.receiveCamera bytes
    | .scanner bytes => robot.receiveScanner bytes
    | .pin reading => { robot with pin := reading }
    | .startSignal => { robot with shared := robot.shared.signalStart }
    | .command command => { robot with shared := robot.shared.postCommand command }).settle

/-- The times at which sleeping tasks go on. -/
def wakes (robot : Robot) : List Nat :=
  [robot.motionWake, robot.start.wake] ++ robot.mission.wake.toList ++ robot.arm.wake.toList

/-- The first camera time after the present. -/
def cameraWake (robot : Robot) : List Nat :=
  match robot.setup.camera with
  | none => []
  | some camera =>
    if camera.periodMs = 0 then [] else [(robot.now / camera.periodMs + 1) * camera.periodMs]

/-- The next time that matters, up to `last`. -/
def nextTime (robot : Robot) (last : Nat) : Nat :=
  ((robot.wakes.filter (robot.now < ·)) ++ robot.cameraWake).foldl min last

/-- At a camera time the camera sends its next frame. -/
def exposeCamera (robot : Robot) : Robot :=
  match robot.setup.camera with
  | none => robot
  | some camera =>
    if 0 < camera.periodMs ∧ 0 < robot.now ∧ robot.now % camera.periodMs = 0
      ∧ 0 < camera.frames.size then
      { robot with framesSent := robot.framesSent + 1 }.receiveCamera
        (camera.frames.getD (robot.framesSent % camera.frames.size) [])
    else robot

/-- The ticks of the stepper channels up to a time. -/
def ticksUntil (robot : Robot) (time : Nat) : Nat :=
  match robot.setup.bankHz with
  | none => 0
  | some hz => time * hz.toNat / 1000 - robot.now * hz.toNat / 1000

/-- Goes to a time at which something may happen, and settles there. -/
def goTo (robot : Robot) (time : Nat) : Except Fault Robot :=
  let body := robot.motion.wheels.service (robot.ticksUntil time)
  { robot with motion := { robot.motion with wheels := body }, now := time }.exposeCamera.settle

/-- Handles the times that matter until `last` is reached, but at most a number of them. -/
def advanceWithin (robot : Robot) (last : Nat) : Nat → Except Fault Robot
  | 0 => .ok robot
  | count + 1 => do
    let next := robot.nextTime last
    let robot ← robot.goTo next
    if next = last then return robot else robot.advanceWithin last count

/-- Lets some milliseconds pass. At most one time to a millisecond matters. -/
def advance (robot : Robot) (ms : Nat) : Except Fault Robot :=
  robot.advanceWithin (robot.now + ms) (ms + 1)

def drainJournal (robot : Robot) : String × Robot :=
  let (writes, journal) := robot.journal.drain
  (String.join writes, { robot with journal := journal })

end Robot

end Mecanum
