import Mecanum.Pid

/-!
# Parameters of the chassis motion

Distances are in millimetres, times in milliseconds and angles in degrees. The defaults are those
of the robot: 200 full steps of 16 microsteps each over a wheel of 80 mm.
-/
namespace Mecanum.Motion

structure Config where
  -- The control period.
  tickMs : UInt32 := 20
  -- The limit of acceleration and deceleration, per second.
  accel : Float32 := 400
  pulsesPerMm : Float32 := 12.73
  -- Wheel speed units per millimetre per second.
  speedScale : Float32 := 5
  -- The remaining distance assumed for a move without an end.
  cruiseDistance : Float32 := 999999
  -- Up to this remaining distance the speed allowed is `floorSpeed`.
  floorDistance : Float32 := 0.5
  floorSpeed : Float32 := 1
  -- A move has arrived once its distance and speed are down to these.
  arriveDistance : Float32 := 0.1
  arriveSpeed : Float32 := 5
  -- An absolute turn is over inside this heading error.
  turnThreshold : Float32 := 1
  -- The greatest magnitude of a wheel command.
  wheelLimit : Int := 10000
  -- The loop that holds the heading on straight moves.
  headingLock : Pid.Gains := ⟨8, 0, 2, 200⟩
  -- The loop that turns to a heading.
  turn : Pid.Gains := ⟨6, 0, 1.5, 300⟩
deriving DecidableEq

namespace Config

/-- The parameters of the robot as built. -/
def default : Config := {}

/-- A period of zero would stop the clock, so the least period is one millisecond. -/
def withTickMs (config : Config) (tickMs : UInt32) : Config :=
  { config with tickMs := max tickMs 1 }

def tickSeconds (config : Config) : Float32 := config.tickMs.toFloat32 / 1000

/-- Wheel steps per second for one unit of wheel speed. -/
def stepHzPerUnit (config : Config) : Float32 := config.pulsesPerMm / config.speedScale

end Config

end Mecanum.Motion
