/-!
# Motion commands

A command names a mode, a cruise speed and a target. The target is a distance for the modes that
travel or spin open loop, with zero for "until the next command", and a heading for an absolute
turn.
-/
namespace Mecanum.Motion

inductive Mode where
  | stop
  | forward
  | backward
  | slideLeft
  | slideRight
  -- An open-loop spin counter-clockwise.
  | turnLeft
  -- An open-loop spin clockwise.
  | turnRight
  -- A closed-loop turn to a heading.
  | turnAbsolute
deriving DecidableEq, Repr

namespace Mode

def all : List Mode :=
  [stop, forward, backward, slideLeft, slideRight, turnLeft, turnRight, turnAbsolute]

def name : Mode → String
  | stop => "Stop"
  | forward => "Forward"
  | backward => "Backward"
  | slideLeft => "SlideLeft"
  | slideRight => "SlideRight"
  | turnLeft => "TurnLeft"
  | turnRight => "TurnRight"
  | turnAbsolute => "TurnAbsolute"

/-- Whether the mode measures its progress by the wheel step counters. -/
def tracksDistance : Mode → Bool
  | stop | turnAbsolute => false
  | _ => true

end Mode

/-- A request to the chassis. -/
structure Command where
  mode : Mode
  -- The cruise speed in millimetres per second.
  speed : Float32
  -- Millimetres to travel, or degrees to turn to.
  target : Float32
deriving DecidableEq

namespace Command

def stop : Command := ⟨.stop, 0, 0⟩

/-- Travel or spin. The direction comes from the mode alone, so signs are dropped. -/
def drive (mode : Mode) (speed distance : Float32) : Command := ⟨mode, speed.abs, distance.abs⟩

/-- Turn to a heading, measured from the heading zero. -/
def turnAbsolute (angle : Float32) : Command := ⟨.turnAbsolute, 0, angle⟩

end Command

end Mecanum.Motion
