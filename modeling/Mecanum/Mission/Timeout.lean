/-!
# Timeouts

A mission waits for the scanner, the chassis, the arm and the camera. Each such wait can be given
a time limit; when it runs out, the mission is aborted with the kind of the wait.
-/
namespace Mecanum.Mission

inductive WaitKind where
  | scan
  | move
  | arm
  | target
  | sight
deriving DecidableEq, Repr

def WaitKind.name : WaitKind → String
  | scan => "Scan"
  | move => "Move"
  | arm => "Arm"
  | target => "Target"
  | sight => "Sight"

/-- The one way a state can fail: a guarded wait ran out. -/
structure Timeout where
  kind : WaitKind
deriving DecidableEq, Repr

def Timeout.message (timeout : Timeout) : String := "timed out waiting for " ++ timeout.kind.name

end Mecanum.Mission
