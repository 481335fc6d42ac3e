import Mecanum.Motion.Config

/-!
# Speed profile

The speed of a bounded move rises with limited acceleration, and near the end it follows the
braking boundary: the highest speed from which the chassis can still stop in the distance left.
-/
namespace Mecanum.Motion

/-- The limits that shape the speed over a move. -/
structure Profile where
  accel : Float32
  -- The speed change allowed per control period.
  step : Float32
  floorDistance : Float32
  floorSpeed : Float32
deriving DecidableEq

namespace Profile

def ofConfig (config : Config) : Profile where
  accel := config.accel
  step := config.accel * config.tickSeconds
  floorDistance := config.floorDistance
  floorSpeed := config.floorSpeed

/-- The highest speed allowed with a distance still to go. -/
def boundary (profile : Profile) (remaining : Float32) : Float32 :=
  if remaining ≤ profile.floorDistance then profile.floorSpeed
  else Binary32.rootEstimate (2 * profile.accel * remaining)

/-- Moves `current` toward `target` by at most `step` and never past it. -/
def stepTowards (current target step : Float32) : Float32 :=
  if current < target then Binary32.lesser (current + step) target
  else if target < current then Binary32.greater (current - step) target
  else current

/-- The speed one control period later. -/
def ramp (profile : Profile) (current target : Float32) : Float32 :=
  stepTowards current target profile.step

end Profile

end Mecanum.Motion
