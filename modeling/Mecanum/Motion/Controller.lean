import Mecanum.Heading.Angle
import Mecanum.Heading.Continuous
import Mecanum.Journal.Note
import Mecanum.Motion.Profile
import Mecanum.Motion.Wheels

/-!
# The motion controller

Once per control period the controller takes the wheel step count and the heading and answers with
wheel commands. A command in force ends by arriving at its distance or at its heading, which is
reported exactly once; after that the controller stands still.
-/
namespace Mecanum.Motion

open Journal (Note)
open Heading (Snapshot)

structure Controller where
  config : Config
  profile : Profile
  mode : Mode
  -- The cruise speed asked for.
  targetSpeed : Float32
  -- The ramped speed. It carries over, so a new command starts at the speed already there.
  currentSpeed : Float32
  -- The distance asked for, in wheel steps.
  targetPulses : Int
  -- Whether a distance was asked for, even one shorter than a step.
  bounded : Bool
  -- The heading an absolute turn goes to.
  targetHeading : Float32
  headingPid : Pid
  turnPid : Pid
deriving DecidableEq

/-- The answer of one control period. -/
structure Outcome where
  wheels : WheelSpeeds
  -- Whether the command in force ended in this period.
  finished : Bool
deriving DecidableEq, Repr

namespace Outcome

def idle : Outcome := ⟨.zero, false⟩

def done : Outcome := ⟨.zero, true⟩

end Outcome

structure Tick where
  controller : Controller
  outcome : Outcome
  notes : List Note
deriving DecidableEq

namespace Controller

def new (config : Config) : Controller where
  config := config
  profile := .ofConfig config
  mode := .stop
  targetSpeed := 0
  currentSpeed := 0
  targetPulses := 0
  bounded := false
  targetHeading := 0
  headingPid := .ofGains config.headingLock
  turnPid := .ofGains config.turn

/-- The heading that straight moves hold. -/
def lockedHeading (controller : Controller) : Float32 := controller.headingPid.target

/-- Stands still, with nothing left of the command. -/
def halt (controller : Controller) : Controller :=
  { controller with
    mode := .stop, targetSpeed := 0, currentSpeed := 0, targetPulses := 0, bounded := false }

/-- Takes an absolute turn on. The loop controls the error, so its target is zero. -/
def beginTurn (controller : Controller) (angle : Float32) : Controller :=
  { controller with
    turnPid := controller.turnPid.reset.setTarget 0
    mode := .turnAbsolute
    targetHeading := angle
    targetSpeed := 0
    targetPulses := 0
    bounded := false }

/-- Whether the mode holds the heading it began with. -/
def holdsHeading : Mode → Bool
  | .forward | .backward => true
  | _ => false

/-- Takes a travelling command on. -/
def beginTravel (controller : Controller) (command : Command) (heading : Snapshot) : Controller :=
  { controller with
    headingPid :=
      if holdsHeading command.mode then controller.headingPid.reset.setTarget heading.relative
      else controller.headingPid
    mode := command.mode
    targetSpeed := command.speed
    targetPulses := Binary32.toWord (command.target * controller.config.pulsesPerMm)
    bounded := 0 < command.target }

def accept (controller : Controller) (command : Command) (heading : Snapshot) : Controller :=
  match command.mode with
  | .stop => controller.halt
  | .turnAbsolute => controller.beginTurn command.target
  | _ => controller.beginTravel command heading

def apply (controller : Controller) (command : Command) (heading : Snapshot) :
    Controller × List Note :=
  (controller.accept command heading, [.motionApplied command])

/-- The distance left, given the steps travelled. -/
def remaining (controller : Controller) (travelled : Int) : Float32 :=
  if controller.bounded then
    let left := Binary32.ofInt controller.targetPulses - Binary32.ofInt travelled.natAbs
    Binary32.greater (left / controller.config.pulsesPerMm) 0
  else controller.config.cruiseDistance

/-- The speed one control period later, with a distance left. -/
def rampedSpeed (controller : Controller) (remaining : Float32) : Float32 :=
  controller.profile.ramp controller.currentSpeed
    (Binary32.lesser controller.targetSpeed (controller.profile.boundary remaining))

/-- Whether a bounded move has arrived, with a distance left and at a speed. -/
def hasArrived (controller : Controller) (remaining speed : Float32) : Bool :=
  controller.bounded && remaining ≤ controller.config.arriveDistance
    && speed ≤ controller.config.arriveSpeed

/-- One control period of an absolute turn. -/
def turnTick (controller : Controller) (heading : Float32) : Except Fault Tick := do
  let error := Heading.shortestError controller.targetHeading heading
  if error.abs < controller.config.turnThreshold then
    return ⟨controller.halt, .done, [.headingReached controller.targetHeading]⟩
  else
    let turnPid ← controller.turnPid.positional (-error)
    let wheels ← WheelSpeeds.mix controller.mode 0 turnPid.output controller.config.wheelLimit
    return ⟨{ controller with turnPid := turnPid }, ⟨wheels, false⟩, []⟩

/-- One control period of a travelling mode, at the ramped speed. -/
def travelTick (controller : Controller) (heading : Float32) : Except Fault Tick := do
  let speed := controller.currentSpeed * controller.config.speedScale
  let limit := controller.config.wheelLimit
  if holdsHeading controller.mode then
    let headingPid ← controller.headingPid.positional heading
    let wheels ← WheelSpeeds.mix controller.mode speed headingPid.output limit
    return ⟨{ controller with headingPid := headingPid }, ⟨wheels, false⟩, []⟩
  else
    let wheels ← WheelSpeeds.mix controller.mode speed 0 limit
    return ⟨controller, ⟨wheels, false⟩, []⟩

/--
One control period. `travelled` is the count of the front left wheel since the command was
accepted, and `heading` the relative heading.
-/
def tick (controller : Controller) (travelled : Int) (heading : Float32) : Except Fault Tick :=
  if controller.mode = .stop then
    .ok ⟨{ controller with currentSpeed := 0 }, .idle, []⟩
  else
    let remaining := controller.remaining travelled
    let speed := controller.rampedSpeed remaining
    let ramped := { controller with currentSpeed := speed }
    if controller.hasArrived remaining speed then
      .ok ⟨ramped.halt, .done, [.motionArrived controller.mode]⟩
    else if controller.mode = .turnAbsolute then ramped.turnTick heading
    else ramped.travelTick heading

end Controller

end Mecanum.Motion
