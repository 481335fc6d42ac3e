import Mecanum.Arm.Task
import Mecanum.Heading.Continuous
import Mecanum.Motion.Command
import Mecanum.Scanner.Line
import Mecanum.Shared.Board
import Mecanum.Shared.Queue
import Mecanum.Shared.Signal

/-!
# Shared state

Everything that one task of the robot leaves for another: signals that something is over, the
latest heading, the command for the chassis, the latest sighting, and the queues of tokens, arm
requests and received bytes.
-/
namespace Mecanum.Shared

open Arm (Task)
open Heading (Snapshot)
open Motion (Command)
open Scanner (Token)

/-- The bytes that a serial receive queue holds. -/
def byteCapacity : Nat := 64

/-- The tokens that wait for the mission. -/
def tokenSlots : Nat := 2

abbrev ByteQueue := Queue UInt8 byteCapacity

abbrev TokenQueue := Queue Token tokenSlots

/-- At most one arm request waits. -/
abbrev TaskQueue := Queue Task 1

/-- The latest heading, and the request to take a new zero. -/
structure HeadingCell where
  snapshot : Snapshot
  rezero : Signal Unit
deriving DecidableEq

namespace HeadingCell

def initial : HeadingCell := ⟨.zero, .empty⟩

def requestRezero (cell : HeadingCell) : HeadingCell := { cell with rezero := cell.rezero.raise () }

end HeadingCell

/-- The state that the tasks share. -/
structure State where
  moveFinished : Signal Unit
  armFinished : Signal Unit
  missionStart : Signal Unit
  heading : HeadingCell
  -- The command for the chassis; a newer one replaces one not yet picked up.
  command : Signal Command
  board : Board
  tokens : TokenQueue
  tasks : TaskQueue
  inertialBytes : ByteQueue
  cameraBytes : ByteQueue
  scannerBytes : ByteQueue
deriving DecidableEq

namespace State

def initial : State where
  moveFinished := .empty
  armFinished := .empty
  missionStart := .empty
  heading := .initial
  command := .empty
  board := .empty
  tokens := .empty
  tasks := .empty
  inertialBytes := .empty
  cameraBytes := .empty
  scannerBytes := .empty

def signalMove (state : State) : State :=
  { state with moveFinished := state.moveFinished.raise () }

def signalArm (state : State) : State :=
  { state with armFinished := state.armFinished.raise () }

def signalStart (state : State) : State :=
  { state with missionStart := state.missionStart.raise () }

def clearMove (state : State) : State := { state with moveFinished := .empty }

def clearArm (state : State) : State := { state with armFinished := .empty }

def clearStart (state : State) : State := { state with missionStart := .empty }

def takeMove (state : State) : Bool × State := (state.moveFinished.isRaised, state.clearMove)

def takeArm (state : State) : Bool × State := (state.armFinished.isRaised, state.clearArm)

def takeStart (state : State) : Bool × State := (state.missionStart.isRaised, state.clearStart)

def publishHeading (state : State) (snapshot : Snapshot) : State :=
  { state with heading := { state.heading with snapshot := snapshot } }

def requestRezero (state : State) : State :=
  { state with heading := state.heading.requestRezero }

def takeRezero (state : State) : Bool × State :=
  (state.heading.rezero.isRaised,
    { state with heading := { state.heading with rezero := .empty } })

def postCommand (state : State) (command : Command) : State :=
  { state with command := state.command.raise command }

def takeCommand (state : State) : Option Command × State :=
  (state.command.pending, { state with command := .empty })

/--
Leaves a command whose completion will be waited for. An older completion is cleared first, so the
next one belongs to this command.
-/
def postTracked (state : State) (command : Command) : State :=
  state.clearMove.postCommand command

def publishRecord (state : State) (record : Camera.Record) : State :=
  { state with board := state.board.publish record }

end State

end Mecanum.Shared
