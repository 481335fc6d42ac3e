import Mecanum.Fault
import Mecanum.Trio

/-!
# Task codes

The scanned task code reads `ABC+DEF`: three colour digits for the first batch, a separator and
three for the second. Only the digit positions are checked, so the separator may be any byte and
anything may follow.
-/
namespace Mecanum.Mission

/-- The colour of an item, numbered as the camera reports it. -/
inductive Color where
  | red
  | green
  | blue
deriving DecidableEq, Repr

namespace Color

def all : List Color := [red, green, blue]

def name : Color → String
  | red => "Red"
  | green => "Green"
  | blue => "Blue"

def ofDigit? (byte : UInt8) : Option Color :=
  if byte = 49 then some red
  else if byte = 50 then some green
  else if byte = 51 then some blue
  else none

/-- The camera's number of the item itself. -/
def id : Color → UInt8
  | red => 1
  | green => 2
  | blue => 3

/-- The camera's number of the floor ring that belongs to the colour. -/
def ringId (color : Color) (offset : UInt8) : Except Fault UInt8 :=
  if color.id.toNat + offset.toNat < 256 then .ok (color.id + offset) else .error .addOverflow

end Color

inductive Batch where
  | first
  | second
deriving DecidableEq, Repr

structure Plan where
  first : Trio Color
  second : Trio Color
deriving DecidableEq, Repr

inductive CodeError where
  | tooShort (length : Nat)
  | badSymbol (index : Nat) (byte : UInt8)
deriving DecidableEq, Repr

/-- Two hexadecimal digits behind `0x`. -/
def hexText (byte : UInt8) : String :=
  String.ofList ['0', 'x', Nat.digitChar (byte.toNat / 16), Nat.digitChar (byte.toNat % 16)]

def CodeError.kind : CodeError → String
  | tooShort _ => "TooShort"
  | badSymbol .. => "BadSymbol"

def CodeError.message : CodeError → String
  | tooShort length => "token too short (" ++ toString length ++ " bytes)"
  | badSymbol index byte =>
    "bad color symbol " ++ hexText byte ++ " at " ++ toString index

namespace Plan

/-- The plan in force before any code has been scanned. -/
def default : Plan := ⟨⟨.red, .green, .blue⟩, ⟨.red, .green, .blue⟩⟩

def batch (plan : Plan) : Batch → Trio Color
  | .first => plan.first
  | .second => plan.second

/-- The shortest token that holds a code. -/
def codeLength : Nat := 7

/-- Where the digits of each batch stand in a code. -/
def positions : Batch → Trio Nat
  | .first => ⟨0, 1, 2⟩
  | .second => ⟨4, 5, 6⟩

/-- The colour at one position of a token that reaches there. -/
def colorAt (token : List UInt8) (index : Nat) : Except CodeError Color :=
  let byte := token.getD index 0
  match Color.ofDigit? byte with
  | some color => .ok color
  | none => .error (.badSymbol index byte)

/-- Reads a task code; of several faults the first in reading order is reported. -/
def parse (token : List UInt8) : Except CodeError Plan :=
  if token.length < codeLength then .error (.tooShort token.length)
  else do
    return ⟨← (positions .first).mapM (colorAt token), ← (positions .second).mapM (colorAt token)⟩

end Plan

end Mecanum.Mission
