import Mecanum.Arm.Task
import Mecanum.Mission.Plan
import Mecanum.Mission.State
import Mecanum.Motion.Command

/-!
# Scripts

Each state of a mission stands for a list of actions that depends on the plan alone, so the whole
route can be checked without a robot. Distances are in millimetres, speeds in millimetres per
second, turns are headings in degrees.

The floor has three slots. The second is ahead of the first, and the third behind it. Unloading
visits the slots in order and aligns on the ring of each item's colour.
-/
namespace Mecanum.Mission

open Arm (Task)
open Motion (Command Mode)

/-- How a ring is approached: the nudges of a fine alignment. -/
structure Approach where
  ring : UInt8
  speed : Float32
  distance : Float32
deriving DecidableEq

inductive Action where
  | awaitStart
  -- Takes the present heading as zero.
  | rezeroHeading
  | awaitScan
  -- Carries out a motion command to its end.
  | drive (command : Command)
  -- Carries out an arm task to its end.
  | arm (task : Task)
  -- Lets the mechanics and the camera settle for some milliseconds.
  | settle (ms : UInt32)
  -- Waits until the camera sees an item of a colour.
  | awaitTarget (color : Color)
  -- Nudges the chassis until a ring is under the gripper.
  | align (approach : Approach)
deriving DecidableEq

abbrev Script := List Action

namespace Script

/-- The actions that fit the robot's script store. -/
def capacity : Nat := 24

def slotAhead : Float32 := 150

def slotBehind : Float32 := 300

/-- The speeds of the moves between the floor slots. -/
structure SlotMoves where
  ahead : Float32
  behind : Float32

structure Nudge where
  speed : Float32
  distance : Float32

def fineNudge : Nudge := ⟨20, 10⟩

def coarseNudge : Nudge := ⟨50, 15⟩

def drive (mode : Mode) (speed distance : Float32) : Action :=
  .drive (.drive mode speed distance)

def turn (heading : Float32) : Action := .drive (.turnAbsolute heading)

/-- The three slots, in working order. -/
inductive Slot where
  | first
  | second
  | third
deriving DecidableEq, Repr

def Slot.carrier : Slot → UInt8
  | first => 1
  | second => 2
  | third => 3

/-- The move that leads to a slot from the one before it. -/
def toSlot (moves : SlotMoves) : Slot → Script
  | .first => []
  | .second => [drive .forward moves.ahead slotAhead]
  | .third => [drive .backward moves.behind slotBehind]

def ready (settle : UInt32) : Script := [.arm .ready, .settle settle]

def pickItem (color : Color) (slot : Slot) : Script :=
  ready 1000 ++ [.awaitTarget color, .arm .pickFromRaw, .arm (.placeToCar slot.carrier)]

def pickBatch (colors : Trio Color) : Script :=
  pickItem colors.first .first ++ pickItem colors.second .second ++ pickItem colors.third .third

def goFloor (speed distance : Float32) : Script :=
  [drive .backward 350 323, turn 270, drive .backward speed distance, turn 180]

def goFloorEnd (speed firstLeg : Float32) : Script :=
  [drive .backward speed firstLeg, turn 90, drive .backward speed 864]

def unloadItem (moves : SlotMoves) (nudge : Nudge) (place : Task) (ring : UInt8) (slot : Slot) :
    Script :=
  toSlot moves slot ++ ready 1500
    ++ [.align ⟨ring, nudge.speed, nudge.distance⟩, .arm (.pickFromCar slot.carrier), .arm place]

/-- Unloads the carrier over three rings. -/
def unload (rings : Trio UInt8) (moves : SlotMoves) (nudge : Nudge) (place : Task) : Script :=
  unloadItem moves nudge place rings.first .first
    ++ unloadItem moves nudge place rings.second .second
    ++ unloadItem moves nudge place rings.third .third

def reloadItem (moves : SlotMoves) (slot : Slot) : Script :=
  toSlot moves slot ++ ready 800 ++ [.arm .pickFromFloor, .arm (.placeToCar slot.carrier)]

/-- Takes the three items on the floor back. -/
def reload (moves : SlotMoves) : Script :=
  drive .forward 50 slotAhead :: (reloadItem moves .first ++ reloadItem moves .second
    ++ reloadItem moves .third)

def rings (plan : Plan) (batch : Batch) (offset : UInt8) : Except Fault (Trio UInt8) :=
  (plan.batch batch).mapM (Color.ringId · offset)

def goHome : Script :=
  [.arm .stow, .settle 500, drive .backward 450 1090, turn 0, drive .backward 700 2162,
    drive .slideRight 300 120]

end Script

open Script in
/--
The script of a state. The second layer goes on top of the first batch, so stacking aligns on the
rings of the first batch.
-/
def State.script (state : State) (plan : Plan) (offset : UInt8) : Except Fault Script :=
  match state with
  | idle => .ok [.awaitStart]
  | scanCode =>
    .ok [.rezeroHeading, drive .slideLeft 100 132, drive .forward 300 686, .awaitScan]
  | goPlate1 => .ok [drive .forward 300 699]
  | pickPlate1 => .ok (pickBatch plan.first)
  | goFloor1 => .ok (goFloor 550 1672)
  | unloadFloor1 => do
    return unload (← rings plan .first offset) ⟨100, 200⟩ fineNudge .placeToFloor
  | reloadFloor1 => .ok (reload ⟨400, 500⟩)
  | goFloorEnd1 => .ok (goFloorEnd 360 876)
  | unloadFloorEnd1 => do
    return unload (← rings plan .first offset) ⟨200, 250⟩ coarseNudge .placeToFloor
  | goPlate2 => .ok [drive .backward 466 565, turn 0, drive .backward 350 369]
  | pickPlate2 => .ok (pickBatch plan.second)
  | goFloor2 => .ok (goFloor 600 1665)
  | unloadFloor2 => do
    return unload (← rings plan .second offset) ⟨100, 100⟩ coarseNudge .placeToFloor
  | reloadFloor2 => .ok (reload ⟨200, 250⟩)
  | goFloorEnd2 => .ok (goFloorEnd 450 874)
  | stackFloorEnd2 => do
    return unload (← rings plan .first offset) ⟨150, 250⟩ coarseNudge .placeToStack
  | goHome => .ok Script.goHome
  | done => .ok []

/-- Follows an event and gives the script of the state it leads to. -/
def State.step (state : State) (event : Event) (plan : Plan) (offset : UInt8) :
    Except Fault (State × Script) := do
  let next := state.transition event
  return (next, ← next.script plan offset)

end Mecanum.Mission
