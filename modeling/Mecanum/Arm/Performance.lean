import Mecanum.Arm.Config
import Mecanum.Checked
import Mecanum.Journal.Note

/-!
# Performances of the arm

A task is a list of moves. Every pick and every place lowers the lift, works the claw, and raises
the lift by the same depth. A performance turns the moves into calls on the servos, the lift and
the clock: a travel sets the step counter to zero, starts the lift, looks at the counter until the
depth is reached, pausing between two looks, and stops the lift. Only a look has an answer.
-/
namespace Mecanum.Arm

open Journal (Note)

inductive Move where
  | servo (servo : Servo) (angle : Float32)
  | pause (ms : UInt32)
  -- Travel of the lift over a positive number of steps.
  | travel (direction : Direction) (depth : Int)
  | stopLift
deriving DecidableEq

namespace Task

/-- Travel of the lift; there is nothing to do for a depth that is not positive. -/
def travel (direction : Direction) (depth : Int) : List Move :=
  if depth ≤ 0 then [] else [.travel direction depth]

/-- Down, close the claw, up. -/
def grabAt (config : Config) (depth : Int) : List Move :=
  travel .down depth ++ [.pause 200, .servo .claw config.clawClosed, .pause 500]
    ++ travel .up depth

/-- Down, open the claw, up. -/
def releaseAt (config : Config) (depth : Int) : List Move :=
  travel .down depth ++ [.pause 200, .servo .claw config.clawOpen, .pause 400]
    ++ travel .up depth

def pickFront (config : Config) (depth : Int) : List Move :=
  [.servo .base config.baseFront, .servo .claw config.clawOpen, .pause 300]
    ++ grabAt config depth

def placeFront (config : Config) (depth : Int) : List Move :=
  [.servo .base config.baseFront, .pause 400] ++ releaseAt config depth

/-- The safe pose. The lift is taken to be at the top already. -/
def resetMoves (config : Config) : List Move :=
  [.servo .claw config.clawOpen, .servo .base config.baseFront,
    .servo .turntable (config.turntableAngle 1), .stopLift]

def moves (config : Config) : Task → List Move
  | ready => [.servo .base config.baseFront, .servo .claw config.clawOpen]
  | stow => [.servo .base config.baseCar]
  | reset => resetMoves config
  | pickFromRaw => pickFront config config.depthPlate
  | placeToCar slot =>
    [.servo .base config.baseCar, .servo .turntable (config.turntableAngle slot), .pause 500]
      ++ releaseAt config config.depthCar
  | pickFromCar slot =>
    [.servo .base config.baseCar, .servo .turntable (config.turntableAngle slot),
      .servo .claw config.clawOpen, .pause 500]
      ++ grabAt config config.depthCar
  | placeToFloor => placeFront config config.depthFloor
  | pickFromFloor => pickFront config config.depthFloor
  | placeToStack => placeFront config config.depthStack

end Task

/-- What a performance asks of the servos, the lift and the clock. -/
inductive Call where
  | servo (servo : Servo) (angle : Float32)
  -- Set the speed of the lift.
  | lift (speed : Int)
  -- Set the step counter of the lift to zero.
  | zero
  -- Look at the step counter of the lift.
  | look
  | pause (ms : UInt32)
deriving DecidableEq

/-- A call that has been made, with the step count of the lift behind it. -/
structure Entry where
  call : Call
  count : Int
deriving DecidableEq

/-- Where a performance stands in the move at hand. -/
inductive Phase where
  -- About to begin the first of the moves left.
  | begin
  -- The counter is zero; about to start the lift.
  | launch (direction : Direction) (depth : Int)
  -- About to look at the counter.
  | look (depth : Int)
  -- Pausing before the next look.
  | linger (depth : Int)
  -- About to stop the lift.
  | stop
deriving DecidableEq, Repr

structure Performance where
  phase : Phase
  moves : List Move
deriving DecidableEq

namespace Performance

def ofMoves (moves : List Move) : Performance := ⟨.begin, moves⟩

def ofTask (config : Config) (task : Task) : Performance := ofMoves (task.moves config)

/-- The speed that starts the lift in a direction. -/
def launchSpeed (config : Config) : Direction → Except Fault Int
  | .down => .ok config.liftSpeed
  | .up => Checked.neg 32 config.liftSpeed

/-- The present call, or nothing at the end of the performance. -/
def call? (performance : Performance) (config : Config) : Except Fault (Option Call) :=
  match performance.phase, performance.moves with
  | .begin, [] => .ok none
  | .begin, .servo servo angle :: _ => .ok (some (.servo servo angle))
  | .begin, .pause ms :: _ => .ok (some (.pause ms))
  | .begin, .travel .. :: _ => .ok (some .zero)
  | .begin, .stopLift :: _ => .ok (some (.lift 0))
  | .launch direction _, _ => (launchSpeed config direction).map (some <| .lift ·)
  | .look _, _ => .ok (some .look)
  | .linger _, _ => .ok (some (.pause config.liftPollMs))
  | .stop, _ => .ok (some (.lift 0))

/-- Goes on behind the present call. `count` is the step count that a look has shown. -/
def advance (performance : Performance) (count : Int) : Performance × List Note :=
  match performance.phase, performance.moves with
  | .begin, .travel direction depth :: rest =>
    (⟨.launch direction depth, rest⟩, [.liftTravelling direction depth])
  | .begin, moves => (⟨.begin, moves.tail⟩, [])
  | .launch _ depth, moves => (⟨.look depth, moves⟩, [])
  | .look depth, moves =>
    (⟨if count.natAbs < depth.natAbs then .linger depth else .stop, moves⟩, [])
  | .linger depth, moves => (⟨.look depth, moves⟩, [])
  | .stop, moves => (⟨.begin, moves⟩, [])

end Performance

end Mecanum.Arm
