/-!
# Faults

The arithmetic of the control code is checked: an integer operation whose exact result does not
fit its type, or a clamp between bounds that are out of order, is a fault and never a wrong
number. Every function that can fault says so in its result type `Except Fault`.
-/
namespace Mecanum

inductive Fault where
  | addOverflow
  | subtractOverflow
  | negateOverflow
  -- The lower bound of a clamp is above the upper one, or one of them is not a number.
  | clampBounds
deriving DecidableEq, Repr

def Fault.message : Fault → String
  | addOverflow => "attempt to add with overflow"
  | subtractOverflow => "attempt to subtract with overflow"
  | negateOverflow => "attempt to negate with overflow"
  | clampBounds => "min > max, or either was NaN"

end Mecanum
