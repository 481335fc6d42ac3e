import Mecanum.Binary32.Basic

/-!
# Angles in degrees

An angle is normalised into the half-open range from -180 (excluded) to 180 (included), and the
error between two angles is their normalised difference, the shorter way round.
-/
namespace Mecanum.Heading

/-- The angle of the same direction above -180 and up to 180 degrees. -/
def normalize (angle : Float32) : Float32 :=
  let a := Binary32.remainder angle 360
  if 180 < a then a - 360
  else if a ≤ -180 then a + 360
  else a

/-- The signed shortest rotation that takes `current` to `target`. -/
def shortestError (target current : Float32) : Float32 := normalize (target - current)

end Mecanum.Heading
