import Mecanum.Button

/-!
# Wires

Output and input pins on one wire. A faulty wire fails every access and is not changed by it.
-/
namespace Mecanum.Hardware

/-- An access to a faulty wire. -/
inductive PinError where
  | other
deriving DecidableEq, Repr

/-- What a wire is at: a level, or a fault. -/
abbrev Wire := Reading

namespace Wire

def drive (wire : Wire) (high : Bool) : Except PinError Wire :=
  match wire with
  | .unreadable => .error .other
  | _ => .ok (if high then .high else .low)

def isHigh (wire : Wire) : Except PinError Bool :=
  match wire with
  | .unreadable => .error .other
  | .high => .ok true
  | .low => .ok false

def isLow (wire : Wire) : Except PinError Bool := (Wire.isHigh wire).map (!·)

end Wire

/-- The reading of one bit of an input register. -/
def readBit (register : UInt32) (bit : UInt32) : Reading :=
  if (register >>> bit) &&& 1 = 1 then .high else .low

end Mecanum.Hardware
