/-!
# Arm tasks

The arm is a lift that carries three servos: the claw, the base that swings between the front of
the robot and the carrier on board, and the turntable that brings one of the three carrier slots
under the claw.
-/
namespace Mecanum.Arm

/-- What the arm can be asked to do. -/
inductive Task where
  -- Base to the front, claw open.
  | ready
  -- Base over the carrier, for driving.
  | stow
  -- Claw open, base to the front, turntable to the first slot, lift stopped.
  | reset
  | pickFromRaw
  | placeToCar (slot : UInt8)
  | pickFromCar (slot : UInt8)
  | placeToFloor
  | pickFromFloor
  -- Place on top of an item that is already on the floor.
  | placeToStack
deriving DecidableEq, Repr

def Task.text : Task → String
  | ready => "Ready"
  | stow => "Stow"
  | reset => "Reset"
  | pickFromRaw => "PickFromRaw"
  | placeToCar slot => "PlaceToCar(" ++ toString slot.toNat ++ ")"
  | pickFromCar slot => "PickFromCar(" ++ toString slot.toNat ++ ")"
  | placeToFloor => "PlaceToFloor"
  | pickFromFloor => "PickFromFloor"
  | placeToStack => "PlaceToStack"

inductive Servo where
  | claw
  | base
  | turntable
deriving DecidableEq, Repr

namespace Servo

def all : List Servo := [claw, base, turntable]

def name : Servo → String
  | claw => "Claw"
  | base => "Base"
  | turntable => "Turntable"

def channel : Servo → Nat
  | claw => 0
  | base => 1
  | turntable => 2

end Servo

inductive Direction where
  | down
  | up
deriving DecidableEq, Repr

def Direction.text : Direction → String
  | down => "Down"
  | up => "Up"

end Mecanum.Arm
