/-!
# Camera detections

The camera sends one frame of nine ASCII characters for each detection: `a`, the digit of the
target, three digits for each of the pixel coordinates, and `c`. A byte that does not continue a
frame ends it, and an `a` always begins a new one.
-/
namespace Mecanum.Camera

structure Detection where
  targetId : UInt8
  x : UInt16
  y : UInt16
deriving DecidableEq, Repr

/-- A detection as published: numbered, so that a fresh one can be told from a stale one. -/
structure Record where
  targetId : UInt8
  x : UInt16
  y : UInt16
  found : Bool
  sequence : UInt32
deriving DecidableEq, Repr

def Record.text (record : Record) : String :=
  "VisionRecord \x7b target_id: " ++ toString record.targetId.toNat
    ++ ", x: " ++ toString record.x.toNat
    ++ ", y: " ++ toString record.y.toNat
    ++ ", found: " ++ (if record.found then "true" else "false")
    ++ ", sequence: " ++ toString record.sequence.toNat ++ " \x7d"

def frameStart : UInt8 := 97

def frameEnd : UInt8 := 99

def payloadLength : Nat := 7

def isDigit (byte : UInt8) : Bool := 48 ≤ byte && byte ≤ 57

def digitValue (byte : UInt8) : Nat := byte.toNat - 48

/-- The value of a run of decimal digits. -/
def number (digits : List UInt8) : Nat :=
  digits.foldl (fun value digit => value * 10 + digitValue digit) 0

/-- The detection that seven digits spell. -/
def Detection.ofDigits (digits : List UInt8) : Detection where
  targetId := (number (digits.take 1)).toUInt8
  x := (number ((digits.drop 1).take 3)).toUInt16
  y := (number ((digits.drop 4).take 3)).toUInt16

structure Receiver where
  -- The digits received since a frame began, or nothing outside of frames.
  digits : Option (List UInt8)
deriving DecidableEq, Repr

namespace Receiver

def new : Receiver := ⟨none⟩

def push (receiver : Receiver) (byte : UInt8) : Option Detection × Receiver :=
  if byte = frameStart then (none, ⟨some []⟩)
  else
    match receiver.digits with
    | none => (none, ⟨none⟩)
    | some digits =>
      if digits.length = payloadLength then
        (if byte = frameEnd then some (.ofDigits digits) else none, ⟨none⟩)
      else if isDigit byte then (none, ⟨some (digits ++ [byte])⟩)
      else (none, ⟨none⟩)

end Receiver

/-- Turns detections into numbered records. -/
structure Recorder where
  receiver : Receiver
  sequence : UInt32
deriving DecidableEq, Repr

namespace Recorder

def new : Recorder := ⟨.new, 0⟩

def push (recorder : Recorder) (byte : UInt8) : Option Record × Recorder :=
  match recorder.receiver.push byte with
  | (none, receiver) => (none, { recorder with receiver := receiver })
  | (some detection, receiver) =>
    let sequence := recorder.sequence + 1
    (some ⟨detection.targetId, detection.x, detection.y, true, sequence⟩, ⟨receiver, sequence⟩)

end Recorder

end Mecanum.Camera
