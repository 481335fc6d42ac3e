import Mecanum.Binary32.Basic
import Mecanum.Hardware.Output

/-!
# Step generation

A channel makes step pulses from a fixed-rate tick with a phase accumulator of 32 bits. Each tick
adds an increment that is proportional to the speed; each overflow flips the step pin, so two
overflows make one step. Nothing of the phase is lost when the speed changes.
-/
namespace Mecanum.Stepper

open Hardware (Output)

structure Channel where
  step : Output
  direction : Output
  -- Whether the motor is mounted mirrored, so that the direction pin is inverted.
  reversed : Bool
  -- Steps per second for one unit of speed.
  hzPerUnit : Float32
  -- Ticks per second.
  tickHz : UInt32
  -- The speed that the increment belongs to.
  speed : Int
  increment : UInt32
  phase : UInt32
  -- The level last given to the step pin.
  level : Bool
deriving DecidableEq

namespace Channel

/-- A channel at rest that has driven both of its pins low. -/
def new (step direction : Output) (hzPerUnit : Float32) (tickHz : UInt32) (reversed : Bool) :
    Channel where
  step := step.set false
  direction := direction.set false
  reversed := reversed
  hzPerUnit := hzPerUnit
  tickHz := max tickHz 1
  speed := 0
  increment := 0
  phase := 0
  level := false

/--
The phase that one tick adds at a speed: two overflows to a step, and at most one overflow to a
tick.
-/
def incrementAt (channel : Channel) (speed : Int) : UInt32 :=
  let stepHz := Binary32.ofInt speed.natAbs * channel.hzPerUnit
  let share := Binary32.lesser (2 * stepHz / channel.tickHz.toFloat32) 1
  (share * 4294967296).toUInt32

/-- Adopts a speed, for which the direction pin is set. -/
def retune (channel : Channel) (speed : Int) : Channel :=
  { channel with
    speed := speed
    increment := channel.incrementAt speed
    direction := channel.direction.set (decide (speed < 0) != channel.reversed) }

/-- Adds the increment to the phase; an overflow flips the step pin. -/
def accumulate (channel : Channel) : Int × Channel :=
  let phase := channel.phase + channel.increment
  if channel.phase.toNat + channel.increment.toNat < UInt32.size then
    (0, { channel with phase := phase })
  else
    let level := !channel.level
    (if level then channel.speed.sign else 0,
      { channel with phase := phase, level := level, step := channel.step.set level })

/-- One tick at a speed. The number is the signed steps made, at most one. -/
def tick (channel : Channel) (speed : Int) : Int × Channel :=
  let tuned := if speed = channel.speed then channel else channel.retune speed
  if tuned.increment = 0 then (0, tuned) else tuned.accumulate

/-- A number of ticks at one speed, and what each of them made. -/
def run (channel : Channel) (speed : Int) : Nat → List Int × Channel
  | 0 => ([], channel)
  | count + 1 =>
    let (made, channel) := channel.tick speed
    let (rest, channel) := channel.run speed count
    (made :: rest, channel)

end Channel

end Mecanum.Stepper
