import Mecanum.Shared.State

/-!
# Serial ports

A port sends bytes one after another, and its receive interrupt moves what has come in on the line
into a queue. Bytes that find the queue full are lost and counted. A condition of error on the line
ends the drain; reading it takes it off the line.
-/
namespace Mecanum.Hardware

open Shared (ByteQueue Queue)

/-- The errors that the receiver finds on a line. -/
inductive LineError where
  | parity
  | framing
  | noise
  | overrun
deriving DecidableEq, Repr

namespace LineError

def all : List LineError := [parity, framing, noise, overrun]

def flag : LineError → String
  | parity => "PE"
  | framing => "FE"
  | noise => "NF"
  | overrun => "ORE"

end LineError

/-- What is coming in on a line. -/
inductive LineItem where
  | byte (byte : UInt8)
  | error (error : LineError)
deriving DecidableEq, Repr

/-- The receiving half of a port. -/
structure SerialReceiver where
  line : List LineItem
  queue : ByteQueue
  -- The bytes lost to a full queue since the port was opened; a word that wraps around.
  dropped : UInt32
deriving DecidableEq

namespace SerialReceiver

def new : SerialReceiver := ⟨[], .empty, 0⟩

/-- More comes in on the line. -/
def arrive (receiver : SerialReceiver) (items : List LineItem) : SerialReceiver :=
  { receiver with line := receiver.line ++ items }

/-- Moves bytes into a queue up to the end of the line or up to an error, which is taken off. -/
def drainLine (queue : ByteQueue) (dropped : UInt32) :
    List LineItem → SerialReceiver × Option LineError
  | [] => (⟨[], queue, dropped⟩, none)
  | .error error :: rest => (⟨rest, queue, dropped⟩, some error)
  | .byte byte :: rest =>
    match queue.push? byte with
    | some queue => drainLine queue dropped rest
    | none => drainLine queue (dropped + 1) rest

/-- The receive interrupt. Tells the error that ended it, if one did. -/
def drain (receiver : SerialReceiver) : SerialReceiver × Option LineError :=
  drainLine receiver.queue receiver.dropped receiver.line

/-- Takes up to a number of bytes out of the queue. -/
def take (receiver : SerialReceiver) : Nat → List UInt8 × SerialReceiver
  | 0 => ([], receiver)
  | count + 1 =>
    match receiver.queue.pop? with
    | none => ([], receiver)
    | some (byte, queue) =>
      let (bytes, receiver) := { receiver with queue := queue }.take count
      (byte :: bytes, receiver)

end SerialReceiver

namespace SerialPort

/-- The bytes that sending a text puts on the wire. -/
def textBytes (text : String) : List UInt8 := text.toUTF8.toList

def lineBytes (text : String) : List UInt8 := textBytes text ++ [13, 10]

/-- The control word with the receive interrupt enabled: bit 5. -/
def enableReceive (control : UInt32) : UInt32 := control ||| 32

end SerialPort

end Mecanum.Hardware
