import Mecanum.Binary32.Basic

/-!
# Continuous heading

The inertial module reports yaw between -180 and 180 degrees, so the reading jumps by a full turn
when the robot rotates through the seam. The estimator counts these wraps and adds a full turn for
each, which makes the heading continuous, and measures it from the sample it was armed with.
-/
namespace Mecanum.Heading

structure Config where
  -- A jump between two samples above this many degrees is a wrap.
  wrapThreshold : Float32 := 300
deriving DecidableEq

structure Snapshot where
  -- Degrees since the zero reference was taken.
  relative : Float32
  -- The raw yaw and a full turn for each counted wrap.
  continuous : Float32
deriving DecidableEq

def Snapshot.zero : Snapshot := ⟨0, 0⟩

structure Estimator where
  wrapThreshold : Float32
  -- Whether a zero reference has been taken.
  armed : Bool
  lastRaw : Float32
  -- The wraps counted since the zero reference, without a bound where a word of 32 bits would have
  -- one; it takes more than two thousand million wraps in one direction to tell the two apart.
  wraps : Int
  zeroReference : Float32
deriving DecidableEq

namespace Estimator

def new (config : Config) : Estimator := ⟨config.wrapThreshold, false, 0, 0, 0⟩

/-- Makes the next sample the zero reference. -/
def reset (estimator : Estimator) : Estimator := { estimator with armed := false, wraps := 0 }

/-- The wraps that a change of the raw yaw by `jump` degrees adds. -/
def wrapsOf (threshold jump : Float32) : Int :=
  if threshold < jump then -1 else if jump < -threshold then 1 else 0

/-- Takes one raw sample in; an unarmed estimator takes it as its zero. -/
def observe (estimator : Estimator) (raw : Float32) : Estimator :=
  if estimator.armed then
    { estimator with
      wraps := estimator.wraps + wrapsOf estimator.wrapThreshold (raw - estimator.lastRaw)
      lastRaw := raw }
  else
    { estimator with armed := true, lastRaw := raw, wraps := 0, zeroReference := raw }

/-- The heading at the last raw sample. -/
def snapshot (estimator : Estimator) : Snapshot :=
  let continuous := estimator.lastRaw + 360 * Binary32.ofInt estimator.wraps
  ⟨continuous - estimator.zeroReference, continuous⟩

/-- Takes one raw sample in and tells the heading at it. -/
def update (estimator : Estimator) (raw : Float32) : Snapshot × Estimator :=
  let next := estimator.observe raw
  (next.snapshot, next)

end Estimator

end Mecanum.Heading
