import Mecanum.Arm.Task
import Mecanum.Mission.Timeout
import Mecanum.Motion.Command
import Mecanum.Scanner.Line

/-!
# Calls of a mission

A mission acts on the robot only by calls, one at a time, and goes on with the reply to each. A
watchdog guards the calls that wait for a part of the robot. It does not guard the wait for the
start button, nor pauses.
-/
namespace Mecanum.Mission

/-- What a mission asks of the robot. -/
inductive Call where
  | awaitStart
  | rezero
  | awaitToken
  -- Carry out a motion command to its end.
  | drive (command : Motion.Command)
  -- Stop the chassis, without waiting.
  | halt
  -- Carry out an arm task to its end.
  | arm (task : Arm.Task)
  -- Wait until the camera sees a target.
  | awaitTarget (id : UInt8)
  -- Tell where the camera sees a target next.
  | sight (id : UInt8)
  | pause (ms : UInt32)
deriving DecidableEq

/-- How a call ends. -/
inductive Reply where
  | done
  | token (token : Scanner.Token)
  | position (x y : Int)
  -- The watchdog ran out before the call ended.
  | expired
deriving DecidableEq

/-- The kind of wait that a call is, if a watchdog guards it. -/
def Call.guard? : Call → Option WaitKind
  | awaitToken => some .scan
  | drive _ => some .move
  | arm _ => some .arm
  | awaitTarget _ => some .target
  | sight _ => some .sight
  | awaitStart | rezero | halt | pause _ => none

end Mecanum.Mission
