import Mecanum.Checked
import Mecanum.Motion.Command

/-!
# Fine alignment by camera

The camera looks down past the gripper. Image x runs along the robot and image y across it. The
error along x is corrected first, by moves forward and backward, and then the error along y, by
slides. Pixel coordinates are signed words of 16 bits and their differences are checked.
-/
namespace Mecanum.Mission

open Motion (Command Mode)

/-- Where a target has to stand in the image, and how far off it may be. -/
structure Alignment where
  referenceX : Int := 160
  referenceY : Int := 140
  tolerance : Int := 10
deriving DecidableEq, Repr

namespace Alignment

/-- The move against an error along one axis, or none inside the tolerance. -/
def nudgeMode (tolerance error : Int) (above below : Mode) : Except Fault (Option Mode) := do
  let magnitude ← Checked.abs 16 error
  return if tolerance < magnitude then some (if 0 < error then above else below) else none

/-- The nudge that brings a target seen at a pixel nearer to its place, or none if it is there. -/
def correction (alignment : Alignment) (x y : Int) (speed distance : Float32) :
    Except Fault (Option Command) := do
  let dx ← Checked.sub 16 x alignment.referenceX
  let dy ← Checked.sub 16 y alignment.referenceY
  match ← nudgeMode alignment.tolerance dx .backward .forward with
  | some mode => return some (.drive mode speed distance)
  | none =>
    match ← nudgeMode alignment.tolerance dy .slideRight .slideLeft with
    | some mode => return some (.drive mode speed distance)
    | none => return none

end Alignment

end Mecanum.Mission
