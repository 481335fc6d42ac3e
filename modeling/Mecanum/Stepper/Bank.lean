import Mecanum.Stepper.Channel

/-!
# Stepper banks

A bank holds the speed command and the step counter of each of its channels. Step counters are
words of 32 bits and wrap around. Channels that a bank does not have are ignored.
-/
namespace Mecanum.Stepper

/-- The greatest magnitude of a speed command. -/
def speedLimit : Int := 10000

structure Bank (n : Nat) where
  speeds : Vector Int n
  counts : Vector Int32 n
deriving DecidableEq

namespace Bank

variable {n : Nat}

def new : Bank n := ⟨.replicate n 0, .replicate n 0⟩

/-- Commands a channel, within the speed limit. -/
def setSpeed (bank : Bank n) (channel : Nat) (speed : Int) : Bank n :=
  { bank with
    speeds := bank.speeds.setIfInBounds channel (max (-speedLimit) (min speedLimit speed)) }

def speed (bank : Bank n) (channel : Nat) : Int := bank.speeds[channel]?.getD 0

/-- The signed steps of a channel since its last reset. -/
def steps (bank : Bank n) (channel : Nat) : Int := (bank.counts[channel]?.getD 0).toInt

def resetSteps (bank : Bank n) (channel : Nat) : Bank n :=
  { bank with counts := bank.counts.setIfInBounds channel 0 }

/-- One tick of every channel; the steps made are counted. -/
def service (bank : Bank n) (channels : Vector Channel n) : Bank n × Vector Channel n :=
  let ticked := Vector.zipWith (fun channel speed => channel.tick speed) channels bank.speeds
  ({ bank with
      counts :=
        Vector.zipWith (fun count made => count + Int32.ofInt made.1) bank.counts ticked },
    ticked.map (·.2))

def serviceTimes (bank : Bank n) (channels : Vector Channel n) : Nat → Bank n × Vector Channel n
  | 0 => (bank, channels)
  | count + 1 =>
    let (bank, channels) := bank.service channels
    bank.serviceTimes channels count

end Bank

end Mecanum.Stepper
