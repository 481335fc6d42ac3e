import Mecanum.Binary32.Decimal
import Mecanum.Motion.Command
import Mecanum.Arm.Task
import Mecanum.Camera.Detection
import Mecanum.Mission.Plan
import Mecanum.Mission.State
import Mecanum.Mission.Timeout

/-!
# Notes

A note is one thing the robot reports about itself. Operations return their notes as data; the
level and the wording of each are fixed here.
-/
namespace Mecanum.Journal

/-- The importance of a report, from the greatest to the least. -/
inductive Level where
  | error
  | warn
  | info
  | debug
  | trace
deriving DecidableEq, Repr

namespace Level

def all : List Level := [error, warn, info, debug, trace]

def name : Level → String
  | error => "Error"
  | warn => "Warn"
  | info => "Info"
  | debug => "Debug"
  | trace => "Trace"

/-- How the level stands in a line of the journal. -/
def label : Level → String
  | error => "ERROR"
  | warn => "WARN"
  | info => "INFO"
  | debug => "DEBUG"
  | trace => "TRACE"

/-- The number of levels up to this one. -/
def rank : Level → Nat
  | error => 1
  | warn => 2
  | info => 3
  | debug => 4
  | trace => 5

end Level

inductive Note where
  | motionApplied (command : Motion.Command)
  | motionArrived (mode : Motion.Mode)
  | headingReached (target : Float32)
  | motionFinished (pulses : Int)
  | headingZeroed (yaw : Float32)
  | headingWrapped (continuous : Float32) (wraps : Int)
  | recorded (record : Camera.Record)
  | tokenFramed (length : Nat)
  | tokenDropped
  | startPressed
  | armPerforming (task : Arm.Task)
  | liftTravelling (direction : Arm.Direction) (depth : Int)
  | stateEntered (state : Mission.State)
  | missionAborted (timeout : Mission.Timeout) (state : Mission.State)
  | awaitingItem (color : Mission.Color)
  | planAdopted (plan : Mission.Plan)
  | tokenRejected (error : Mission.CodeError)
  | driveDone (mode : Motion.Mode)
  | aligned (ring : UInt8) (x y : Int)
  | misaligned (ring : UInt8) (x y : Int) (nudge : Motion.Mode)
deriving DecidableEq

namespace Note

def level : Note → Level
  | motionApplied _ | motionArrived _ | headingReached _ | headingWrapped .. | liftTravelling ..
  | driveDone _ | misaligned .. => .debug
  | motionFinished _ | headingZeroed _ | tokenFramed _ | startPressed | armPerforming _
  | stateEntered _ | awaitingItem _ | planAdopted _ | aligned .. => .info
  | tokenDropped | tokenRejected _ => .warn
  | missionAborted .. => .error
  | recorded _ => .trace

/-- The colours of a batch as a bracketed list. -/
def batchText (batch : Trio Mission.Color) : String :=
  "[" ++ ", ".intercalate (batch.map Mission.Color.name).toList ++ "]"

def positionText (x y : Int) : String := "(" ++ toString x ++ ", " ++ toString y ++ ")"

def text : Note → String
  | motionApplied command =>
    "motion: " ++ command.mode.name ++ " speed " ++ Binary32.text command.speed
      ++ " target " ++ Binary32.text command.target
  | motionArrived mode => "motion: " ++ mode.name ++ " arrived"
  | headingReached target => "motion: reached heading " ++ Binary32.text target
  | motionFinished pulses => "motion: finished at " ++ toString pulses ++ " pulses"
  | headingZeroed yaw => "heading: zero at yaw " ++ Binary32.text yaw
  | headingWrapped continuous wraps =>
    "heading: " ++ Binary32.text continuous ++ " (" ++ toString wraps ++ " wraps)"
  | recorded record => "vision: " ++ record.text
  | tokenFramed length => "scan: " ++ toString length ++ " byte token"
  | tokenDropped => "scan: queue full, token dropped"
  | startPressed => "start: pressed"
  | armPerforming task => "arm: " ++ task.text
  | liftTravelling direction depth =>
    "arm: lift " ++ direction.text ++ " " ++ toString depth ++ " steps"
  | stateEntered state => "mission: enter " ++ state.name
  | missionAborted timeout state =>
    "mission: " ++ timeout.message ++ " in " ++ state.name ++ ", back to idle"
  | awaitingItem color => "mission: waiting for " ++ color.name
  | planAdopted plan =>
    "mission: plan " ++ batchText plan.first ++ " then " ++ batchText plan.second
  | tokenRejected error => "mission: rejected scan token: " ++ error.message
  | driveDone mode => "mission: " ++ mode.name ++ " done"
  | aligned ring x y =>
    "mission: aligned on ring " ++ toString ring.toNat ++ " at " ++ positionText x y
  | misaligned ring x y nudge =>
    "mission: ring " ++ toString ring.toNat ++ " at " ++ positionText x y
      ++ ", nudge " ++ nudge.name

end Note

end Mecanum.Journal
