/-!
# Mission states

A run goes through its states in one line, from waiting for the start button to the end. The two
batches pass through blocks of the same structure.
-/
namespace Mecanum.Mission

inductive State where
  | idle
  | scanCode
  | goPlate1
  | pickPlate1
  | goFloor1
  | unloadFloor1
  | reloadFloor1
  | goFloorEnd1
  | unloadFloorEnd1
  | goPlate2
  | pickPlate2
  | goFloor2
  | unloadFloor2
  | reloadFloor2
  | goFloorEnd2
  | stackFloorEnd2
  | goHome
  | done
deriving DecidableEq, Repr

/-- What ends a state. -/
inductive Event where
  -- The start button was pressed.
  | start
  -- A task code was scanned.
  | scanned
  -- Every action of the state was carried out.
  | completed
deriving DecidableEq, Repr

namespace Event

def all : List Event := [start, scanned, completed]

def name : Event → String
  | start => "Start"
  | scanned => "Scanned"
  | completed => "Completed"

end Event

namespace State

def all : List State :=
  [idle, scanCode, goPlate1, pickPlate1, goFloor1, unloadFloor1, reloadFloor1, goFloorEnd1,
    unloadFloorEnd1, goPlate2, pickPlate2, goFloor2, unloadFloor2, reloadFloor2, goFloorEnd2,
    stackFloorEnd2, goHome, done]

def name : State → String
  | idle => "Idle"
  | scanCode => "ScanCode"
  | goPlate1 => "GoPlate1"
  | pickPlate1 => "PickPlate1"
  | goFloor1 => "GoFloor1"
  | unloadFloor1 => "UnloadFloor1"
  | reloadFloor1 => "ReloadFloor1"
  | goFloorEnd1 => "GoFloorEnd1"
  | unloadFloorEnd1 => "UnloadFloorEnd1"
  | goPlate2 => "GoPlate2"
  | pickPlate2 => "PickPlate2"
  | goFloor2 => "GoFloor2"
  | unloadFloor2 => "UnloadFloor2"
  | reloadFloor2 => "ReloadFloor2"
  | goFloorEnd2 => "GoFloorEnd2"
  | stackFloorEnd2 => "StackFloorEnd2"
  | goHome => "GoHome"
  | done => "Done"

def index (state : State) : Nat := all.idxOf state

/-- The next state of the run; the last one leads back to the first. -/
def successor (state : State) : State := all.getD (state.index + 1) idle

/-- The state after an event. The first two states wait for their own event only. -/
def transition : State → Event → State
  | idle, .start => scanCode
  | scanCode, .scanned => goPlate1
  | idle, _ => idle
  | scanCode, _ => scanCode
  | state, .completed => state.successor
  | state, _ => state

end State

end Mecanum.Mission
