import Mecanum.Arm.Bench
import Mecanum.Motion.Config
import Mecanum.Motion.Simulated

/-!
# Bodies

What the control code moves is either simulated, an ideal chassis with a lift that moves when it is
looked at, or a bank of five stepper channels: the four wheels and then the lift.
-/
namespace Mecanum.Robot

open Arm (BenchLift)
open Motion (SimulatedChassis Wheel WheelDrive WheelSpeeds)
open Stepper (Bank Channel)

def channels : Nat := 5

def liftChannel : Nat := 4

inductive Body where
  | simulated (chassis : SimulatedChassis) (lift : BenchLift)
  | stepped (bank : Bank channels) (outputs : Vector Channel channels)

namespace Body

/-- The stepper channels of the robot. The wheels on the right are mounted mirrored. -/
def outputs (config : Motion.Config) (tickHz : UInt32) : Vector Channel channels :=
  let wheel := Channel.new (.new false) (.new false) config.stepHzPerUnit tickHz
  #v[wheel false, wheel true, wheel false, wheel true,
    Channel.new (.new false) (.new false) 1 tickHz false]

def simulate (config : Motion.Config) (perLook : Int) : Body :=
  simulated (.new config) (.new perLook)

def build (config : Motion.Config) (tickHz : UInt32) : Body := stepped .new (outputs config tickHz)

def wheelSpeeds : Body → WheelSpeeds
  | simulated chassis _ => chassis.speeds
  | stepped bank _ => ⟨bank.speed 0, bank.speed 1, bank.speed 2, bank.speed 3⟩

def liftSpeed : Body → Int
  | simulated _ lift => lift.speed
  | stepped bank _ => bank.speed liftChannel

def liftSteps : Body → Int
  | simulated _ lift => lift.count
  | stepped bank _ => bank.steps liftChannel

def answer (body : Body) (call : Arm.Call) : Body :=
  match body with
  | simulated chassis lift => simulated chassis (lift.answer call)
  | stepped bank outputs =>
    match call with
    | .lift speed => stepped (bank.setSpeed liftChannel speed) outputs
    | .zero => stepped (bank.resetSteps liftChannel) outputs
    | .look | .servo .. | .pause _ => stepped bank outputs

/-- A number of ticks of the stepper channels. -/
def service (body : Body) (ticks : Nat) : Body :=
  match body with
  | simulated .. => body
  | stepped bank outputs =>
    let (bank, outputs) := bank.serviceTimes outputs ticks
    stepped bank outputs

/-- The heading that the body itself reports. -/
def snapshot? : Body → Option Heading.Snapshot
  | simulated chassis _ => some chassis.snapshot
  | stepped .. => none

/-- Turns a simulated body; a real one is not turned by decree. -/
def setHeading (body : Body) (heading : Float32) : Body :=
  match body with
  | simulated chassis lift => simulated (chassis.setHeading heading) lift
  | stepped .. => body

end Body

instance : WheelDrive Body where
  apply
    | .simulated chassis lift, speeds => return .simulated (← WheelDrive.apply chassis speeds) lift
    | .stepped bank outputs, speeds => return .stepped (← WheelDrive.apply bank speeds) outputs
  stopAll
    | .simulated chassis lift => .simulated (WheelDrive.stopAll chassis) lift
    | .stepped bank outputs => .stepped (WheelDrive.stopAll bank) outputs
  steps
    | .simulated chassis _ => WheelDrive.steps chassis
    | .stepped bank _ => WheelDrive.steps bank
  resetSteps
    | .simulated chassis lift => .simulated (WheelDrive.resetSteps chassis) lift
    | .stepped bank outputs => .stepped (WheelDrive.resetSteps bank) outputs

end Mecanum.Robot
