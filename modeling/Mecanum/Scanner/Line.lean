/-!
# Scanner lines

The code scanner ends each code with a carriage return, a line feed or both. A token is what a line
holds, cut off at fifteen bytes; lines of fewer than three bytes are noise.
-/
namespace Mecanum.Scanner

/-- The content of one scanned line. -/
abbrev Token := List UInt8

/-- The bytes of a line that are kept. -/
def tokenCapacity : Nat := 15

/-- The length below which a line is noise. -/
def tokenLeast : Nat := 3

/-- Carriage return and line feed end a line. -/
def isTerminator (byte : UInt8) : Bool := byte = 13 || byte = 10

/-- The token of a complete line, if it is not noise. -/
def tokenOf (line : List UInt8) : Option Token :=
  if tokenLeast ≤ line.length then some line else none

structure Framer where
  -- The bytes kept of the current line.
  line : List UInt8
deriving DecidableEq, Repr

namespace Framer

def new : Framer := ⟨[]⟩

/-- Ends the current line. -/
def flush (framer : Framer) : Option Token × Framer := (tokenOf framer.line, new)

def push (framer : Framer) (byte : UInt8) : Option Token × Framer :=
  if isTerminator byte then framer.flush
  else if framer.line.length < tokenCapacity then (none, ⟨framer.line ++ [byte]⟩)
  else (none, framer)

end Framer

end Mecanum.Scanner
