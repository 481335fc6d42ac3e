import Mecanum.Binary32.Basic
import Mecanum.Hardware.Output

/-!
# Servos

A servo takes a pulse of half a millisecond for 0 degrees up to two and a half milliseconds for 180
degrees, once in a frame of twenty milliseconds. The pulses are made from a fixed-rate tick.
-/
namespace Mecanum.Servo

open Hardware (Output)

/-- The length of a frame in microseconds. -/
def frameUs : Nat := 20000

/-- The pulse width for an angle, which is first cut off to 0 and 180 degrees. -/
def pulseOfAngle (angle : Float32) : UInt16 :=
  500 + (Binary32.cutOff 0 180 angle * 2000 / 180).toUInt16

/-- The pulse widths commanded for `n` servos. -/
abbrev Pulses (n : Nat) := Vector UInt16 n

namespace Pulses

/-- All servos at 0 degrees. -/
def new {n : Nat} : Pulses n := .replicate n 500

/-- Commands an angle; a servo that does not exist is ignored. -/
def setAngle {n : Nat} (pulses : Pulses n) (channel : Nat) (angle : Float32) : Pulses n :=
  pulses.setIfInBounds channel (pulseOfAngle angle)

end Pulses

structure Generator where
  pin : Output
  -- The length of a tick in microseconds.
  tickUs : Nat
  -- The part of the frame that is over, in microseconds.
  elapsed : Nat
deriving DecidableEq, Repr

namespace Generator

/-- An output at the start of a frame that has driven its pin low. -/
def new (pin : Output) (tickUs : Nat) : Generator := ⟨pin.set false, max tickUs 1, 0⟩

def tick (generator : Generator) (width : UInt16) : Generator :=
  let begun := if generator.elapsed = 0 then generator.pin.set true else generator.pin
  let elapsed := generator.elapsed + generator.tickUs
  { generator with
    pin := if width.toNat ≤ elapsed then begun.set false else begun
    elapsed := if frameUs ≤ elapsed then 0 else elapsed }

/-- A number of ticks, and how many of them ended with the pin high. -/
def run (generator : Generator) (width : UInt16) : Nat → Nat × Generator
  | 0 => (0, generator)
  | count + 1 =>
    let next := generator.tick width
    let (high, last) := next.run width count
    (if next.pin.high then high + 1 else high, last)

end Generator

def service {n : Nat} (pulses : Pulses n) (generators : Vector Generator n) :
    Vector Generator n :=
  Vector.zipWith (fun generator width => generator.tick width) generators pulses

/-- A number of ticks of every output, and how many of them ended with each pin high. -/
def serviceTimes {n : Nat} (pulses : Pulses n) (generators : Vector Generator n) (count : Nat) :
    Vector Nat n × Vector Generator n :=
  let ran := Vector.zipWith (fun generator width => generator.run width count) generators pulses
  (ran.map (·.1), ran.map (·.2))

end Mecanum.Servo
