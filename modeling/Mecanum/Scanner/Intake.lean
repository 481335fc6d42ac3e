import Mecanum.Journal.Note
import Mecanum.Scanner.Line
import Mecanum.Shared.State

/-!
# Scanner intake

Completed tokens go to the queue that the mission reads. A token that finds the queue full is lost.
-/
namespace Mecanum.Scanner

open Journal (Note)
open Shared (TokenQueue)

/-- The effect of one byte. -/
structure Intake where
  framer : Framer
  tokens : TokenQueue
  -- The token that the byte completed, whether it found room or not.
  framed : Option Token
  notes : List Note

/-- Takes one byte in and queues the token that it completes. -/
def Intake.feed (framer : Framer) (byte : UInt8) (tokens : TokenQueue) : Intake :=
  match framer.push byte with
  | (none, framer) => ⟨framer, tokens, none, []⟩
  | (some token, framer) =>
    match tokens.push? token with
    | some tokens => ⟨framer, tokens, some token, [.tokenFramed token.length]⟩
    | none => ⟨framer, tokens, some token, [.tokenFramed token.length, .tokenDropped]⟩

/-- An intake at work on a queue of its own, with what it has reported. -/
structure Reception where
  framer : Framer
  tokens : TokenQueue
  notes : List Note

namespace Reception

def new : Reception := ⟨.new, .empty, []⟩

def push (reception : Reception) (byte : UInt8) : Option Token × Reception :=
  let intake := Intake.feed reception.framer byte reception.tokens
  (intake.framed, ⟨intake.framer, intake.tokens, reception.notes ++ intake.notes⟩)

def receive (reception : Reception) : Option Token × Reception :=
  match reception.tokens.pop? with
  | none => (none, reception)
  | some (token, tokens) => (some token, { reception with tokens := tokens })

end Reception

end Mecanum.Scanner
