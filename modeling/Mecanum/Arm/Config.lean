import Mecanum.Arm.Task
import Mecanum.Trio

/-!
# Parameters of the arm

Depths are lift steps below the top, angles are degrees.
-/
namespace Mecanum.Arm

structure Config where
  -- The speed of a travelling lift; a positive speed lowers it.
  liftSpeed : Int := 5000
  -- The milliseconds between two looks at a travelling lift.
  liftPollMs : UInt32 := 10
  depthPlate : Int := 8000
  depthCar : Int := 4000
  depthStack : Int := 10000
  depthFloor : Int := 15000
  clawOpen : Float32 := 10
  clawClosed : Float32 := 60
  baseFront : Float32 := 0
  baseCar : Float32 := 98
  -- The turntable angles of the carrier slots.
  turntable : Trio Float32 := ⟨17, 77, 137⟩
deriving DecidableEq

/-- The turntable angle of a carrier slot; what is no slot counts as the first. -/
def Config.turntableAngle (config : Config) (slot : UInt8) : Float32 :=
  if slot = 2 then config.turntable.second
  else if slot = 3 then config.turntable.third
  else config.turntable.first

end Mecanum.Arm
