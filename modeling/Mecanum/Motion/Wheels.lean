import Mecanum.Binary32.Basic
import Mecanum.Motion.Command

/-!
# Wheel mixing

Four mecanum wheels, seen from above, carry their rollers in the form of an X. A positive wheel
speed drives that wheel forward. A heading correction is added on the right and taken away on the
left, so a positive one turns the chassis left. Every wheel command is cut off at the limit and
then rounded toward zero.
-/
namespace Mecanum.Motion

/-- The wheels, in the order of their stepper channels. -/
inductive Wheel where
  | frontLeft
  | frontRight
  | rearLeft
  | rearRight
deriving DecidableEq, Repr

namespace Wheel

def all : List Wheel := [frontLeft, frontRight, rearLeft, rearRight]

def channel : Wheel → Nat
  | frontLeft => 0
  | frontRight => 1
  | rearLeft => 2
  | rearRight => 3

end Wheel

structure WheelSpeeds where
  frontLeft : Int
  frontRight : Int
  rearLeft : Int
  rearRight : Int
deriving DecidableEq, Repr

namespace WheelSpeeds

def zero : WheelSpeeds := ⟨0, 0, 0, 0⟩

def get (speeds : WheelSpeeds) : Wheel → Int
  | .frontLeft => speeds.frontLeft
  | .frontRight => speeds.frontRight
  | .rearLeft => speeds.rearLeft
  | .rearRight => speeds.rearRight

def isZero (speeds : WheelSpeeds) : Bool := speeds = zero

/-- One wheel command: cut off at the limit, then rounded toward zero. -/
def command (limit : Int) (speed : Float32) : Except Fault Int :=
  (Binary32.clampSymmetric (Binary32.ofInt limit) speed).map Binary32.toWord

def clamped (frontLeft frontRight rearLeft rearRight : Float32) (limit : Int) :
    Except Fault WheelSpeeds := do
  return ⟨← command limit frontLeft, ← command limit frontRight, ← command limit rearLeft,
    ← command limit rearRight⟩

/-- Straight travel; a negative speed drives backwards. -/
def straight (speed correction : Float32) (limit : Int) : Except Fault WheelSpeeds :=
  let left := speed - correction
  let right := speed + correction
  clamped left right left right limit

/-- Sideways travel; a positive speed slides right. -/
def slide (speed : Float32) (limit : Int) : Except Fault WheelSpeeds :=
  clamped speed (-speed) (-speed) speed limit

/-- Rotation in place; a positive rate spins left. -/
def spin (rate : Float32) (limit : Int) : Except Fault WheelSpeeds :=
  clamped (-rate) rate (-rate) rate limit

/--
The wheel commands of a mode, for a scaled speed and a heading correction. An absolute turn uses
the correction alone, as its rate.
-/
def mix (mode : Mode) (speed correction : Float32) (limit : Int) : Except Fault WheelSpeeds :=
  match mode with
  | .stop => .ok zero
  | .forward => straight speed correction limit
  | .backward => straight (-speed) correction limit
  | .slideLeft => slide (-speed) limit
  | .slideRight => slide speed limit
  | .turnLeft => spin speed limit
  | .turnRight => spin (-speed) limit
  | .turnAbsolute => spin correction limit

end WheelSpeeds

end Mecanum.Motion
