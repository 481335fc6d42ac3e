import Mecanum.Binary32.Basic

/-!
# Packets of the inertial module

A packet has eleven bytes: a header, a type, eight bytes of data and the sum of the ten bytes
before. The data are four signed words of sixteen bits, low byte first; the fourth is a
temperature, which is not used.

The receiver collects eleven bytes from a header on. If the sum is wrong, that header was none, and
the receiver goes on with the next header among the bytes it holds, so that no byte is read twice
and none is skipped.
-/
namespace Mecanum.Inertial

def header : UInt8 := 0x55

def packetLength : Nat := 11

structure Axes where
  x : Float32
  y : Float32
  z : Float32
deriving DecidableEq

inductive Frame where
  -- Acceleration, in units of gravity.
  | acceleration (axes : Axes)
  -- Angular rate, in degrees per second.
  | rate (axes : Axes)
  -- Angles in degrees; the third is yaw.
  | angle (axes : Axes)
deriving DecidableEq

/-- The signed word of two bytes, low byte first. -/
def word (low high : UInt8) : Int := Int.bmod (low.toNat + 256 * high.toNat) 65536

/-- The word at a position of a packet as a share of the full range. -/
def scaled (packet : List UInt8) (position : Nat) (range : Float32) : Float32 :=
  Binary32.ofInt (word (packet.getD position 0) (packet.getD (position + 1) 0)) / 32768 * range

def axes (packet : List UInt8) (range : Float32) : Axes :=
  ⟨scaled packet 2 range, scaled packet 4 range, scaled packet 6 range⟩

/-- The sum of bytes, without carry. -/
def checksum (bytes : List UInt8) : UInt8 := bytes.foldl (· + ·) 0

/-- Whether the last byte of a packet is the sum of those before. -/
def sumHolds (packet : List UInt8) : Bool := checksum (packet.take 10) = packet.getD 10 0

/-- The content of a packet whose sum is right, if its type is known. -/
def Frame.ofPacket? (packet : List UInt8) : Option Frame :=
  let type := packet.getD 1 0
  if type = 0x51 then some (.acceleration (axes packet 16))
  else if type = 0x52 then some (.rate (axes packet 2000))
  else if type = 0x53 then some (.angle (axes packet 180))
  else none

structure Receiver where
  -- The bytes held, from a header on.
  held : List UInt8
deriving DecidableEq, Repr

namespace Receiver

def new : Receiver := ⟨[]⟩

/-- The bytes from the first header on. -/
def fromHeader (bytes : List UInt8) : List UInt8 := bytes.dropWhile (· ≠ header)

def push (receiver : Receiver) (byte : UInt8) : Option Frame × Receiver :=
  let bytes := fromHeader (receiver.held ++ [byte])
  if bytes.length < packetLength then (none, ⟨bytes⟩)
  else if sumHolds bytes then (Frame.ofPacket? bytes, new)
  else (none, ⟨fromHeader bytes.tail⟩)

end Receiver

end Mecanum.Inertial
