import Mecanum.Checked
import Mecanum.Heading.Continuous
import Mecanum.Motion.Config
import Mecanum.Motion.Drive

/-!
# The simulated chassis

An ideal chassis. Each time its wheels are commanded it moves on by one control period: the wheel
speeds add to the step counts, and the net spin adds to the heading.
-/
namespace Mecanum.Motion

structure SimulatedChassis where
  speeds : WheelSpeeds
  frontLeft : Float32
  frontRight : Float32
  rearLeft : Float32
  rearRight : Float32
  heading : Float32
  -- The control period in seconds.
  period : Float32
  -- Wheel steps per second for one unit of wheel speed.
  hzPerUnit : Float32
deriving DecidableEq

namespace SimulatedChassis

/-- Degrees per second for one unit of net spin. -/
def degreesPerUnit : Float32 := 0.3

def new (config : Config) : SimulatedChassis :=
  ⟨.zero, 0, 0, 0, 0, 0, config.tickSeconds, config.stepHzPerUnit⟩

def setHeading (chassis : SimulatedChassis) (heading : Float32) : SimulatedChassis :=
  { chassis with heading := heading }

/-- The heading as the provider would publish it. -/
def snapshot (chassis : SimulatedChassis) : Heading.Snapshot := ⟨chassis.heading, chassis.heading⟩

/-- The sum of the wheel speeds that turn the chassis left, in checked words of 32 bits. -/
def spinSum (speeds : WheelSpeeds) : Except Fault Int := do
  let sum ← Checked.neg 32 speeds.frontLeft
  let sum ← Checked.add 32 sum speeds.frontRight
  let sum ← Checked.sub 32 sum speeds.rearLeft
  Checked.add 32 sum speeds.rearRight

/-- The steps that a wheel makes in one control period. -/
def stepsAt (chassis : SimulatedChassis) (speed : Int) : Float32 :=
  Binary32.ofInt speed * chassis.hzPerUnit * chassis.period

/-- Moves on by one control period at given wheel speeds. -/
def advance (chassis : SimulatedChassis) (speeds : WheelSpeeds) :
    Except Fault SimulatedChassis := do
  let spin := Binary32.ofInt (← spinSum speeds) / 4
  return { chassis with
    speeds := speeds
    frontLeft := chassis.frontLeft + chassis.stepsAt speeds.frontLeft
    frontRight := chassis.frontRight + chassis.stepsAt speeds.frontRight
    rearLeft := chassis.rearLeft + chassis.stepsAt speeds.rearLeft
    rearRight := chassis.rearRight + chassis.stepsAt speeds.rearRight
    heading := chassis.heading + spin * degreesPerUnit * chassis.period }

def steps (chassis : SimulatedChassis) : Wheel → Int
  | .frontLeft => Binary32.toWord chassis.frontLeft
  | .frontRight => Binary32.toWord chassis.frontRight
  | .rearLeft => Binary32.toWord chassis.rearLeft
  | .rearRight => Binary32.toWord chassis.rearRight

def resetSteps (chassis : SimulatedChassis) : SimulatedChassis :=
  { chassis with frontLeft := 0, frontRight := 0, rearLeft := 0, rearRight := 0 }

end SimulatedChassis

instance : WheelDrive SimulatedChassis where
  apply := SimulatedChassis.advance
  stopAll chassis := { chassis with speeds := .zero }
  steps := SimulatedChassis.steps
  resetSteps := SimulatedChassis.resetSteps

end Mecanum.Motion
