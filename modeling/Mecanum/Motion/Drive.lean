import Mecanum.Motion.Wheels
import Mecanum.Stepper.Bank

/-!
# Wheel drives

The motion loop acts on the wheels through four operations. A stepper bank provides them with its
first four channels.
-/
namespace Mecanum.Motion

/-- Wheels that can be commanded and counted. -/
class WheelDrive (W : Type) where
  -- Commands all wheels.
  apply : W → WheelSpeeds → Except Fault W
  stopAll : W → W
  -- The signed steps of a wheel since the last reset.
  steps : W → Wheel → Int
  resetSteps : W → W

instance {n : Nat} : WheelDrive (Stepper.Bank n) where
  apply bank speeds :=
    .ok (Wheel.all.foldl (fun bank wheel => bank.setSpeed wheel.channel (speeds.get wheel)) bank)
  stopAll bank := Wheel.all.foldl (fun bank wheel => bank.setSpeed wheel.channel 0) bank
  steps bank wheel := bank.steps wheel.channel
  resetSteps bank := Wheel.all.foldl (fun bank wheel => bank.resetSteps wheel.channel) bank

end Mecanum.Motion
