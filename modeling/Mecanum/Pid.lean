import Mecanum.Binary32.Basic

/-!
# PID control

One controller serves two laws. The positional law computes its output from the current error, the
sum of errors and the last change; the incremental law adds a change to the output it holds. Both
work per call, so the gains belong to a fixed period. The output is cut off at a symmetric limit
and the integrator at a fixed share of it, so neither can run away.
-/
namespace Mecanum

/-- The gains of one loop and its output limit. -/
structure Pid.Gains where
  kp : Float32
  ki : Float32
  kd : Float32
  limit : Float32
deriving DecidableEq

structure Pid where
  kp : Float32
  ki : Float32
  kd : Float32
  target : Float32
  -- The output stays between `-limit` and `limit`.
  limit : Float32
  integral : Float32
  -- The error of the last call.
  lastError : Float32
  -- The error of the call before the last.
  previousError : Float32
  output : Float32
deriving DecidableEq

namespace Pid

/-- The share of the output limit that the integrator may hold. -/
def integralHeadroom : Float32 := 0.8

/-- A controller without history, with target zero and limit one. -/
def new (kp ki kd : Float32) : Pid where
  kp := kp
  ki := ki
  kd := kd
  target := 0
  limit := 1
  integral := 0
  lastError := 0
  previousError := 0
  output := 0

/-- Sets the output limit to the magnitude of `limit`. -/
def withOutputLimit (pid : Pid) (limit : Float32) : Pid := { pid with limit := limit.abs }

def setTarget (pid : Pid) (target : Float32) : Pid := { pid with target := target }

def setGains (pid : Pid) (kp ki kd : Float32) : Pid := { pid with kp := kp, ki := ki, kd := kd }

/-- A controller without history for a set of gains. -/
def ofGains (gains : Gains) : Pid := (new gains.kp gains.ki gains.kd).withOutputLimit gains.limit

/-- A controller without history for given gains, target and limit. -/
def setUp (kp ki kd target limit : Float32) : Pid :=
  ((new kp ki kd).setTarget target).withOutputLimit limit

def reset (pid : Pid) : Pid :=
  { pid with integral := 0, lastError := 0, previousError := 0, output := 0 }

/-- The magnitude up to which the integrator may grow. -/
def integralLimit (pid : Pid) : Float32 := pid.limit * integralHeadroom

/-- The positional law. The new output is the `output` of the resulting controller. -/
def positional (pid : Pid) (measurement : Float32) : Except Fault Pid := do
  let error := pid.target - measurement
  let integral ← Binary32.clampSymmetric pid.integralLimit (pid.integral + error)
  let p := pid.kp * error
  let i := pid.ki * integral
  let d := pid.kd * (error - pid.lastError)
  let output ← Binary32.clampSymmetric pid.limit (p + i + d)
  return { pid with integral := integral, output := output, lastError := error }

/-- The incremental law. The new output is the `output` of the resulting controller. -/
def incremental (pid : Pid) (measurement : Float32) : Except Fault Pid := do
  let error := pid.target - measurement
  let delta := pid.kp * (error - pid.lastError) + pid.ki * error
    + pid.kd * (error - 2 * pid.lastError + pid.previousError)
  let output ← Binary32.clampSymmetric pid.limit (pid.output + delta)
  return { pid with
    output := output, previousError := pid.lastError, lastError := error }

end Pid

end Mecanum
