import Mecanum.Proofs.Binary32.Opposite
import Mecanum.Proofs.Binary32.Root
import Mecanum.Proofs.Motion.Limits

/-!
# Loops stay within their limits

Both laws write what they keep through a clamp, whatever the gains, the target and the measurement
are, and the limit of a loop is always a magnitude. So no operation fails, and after each the output
and the integrator are within their limits or not a number (`Bounded.perform`). A reset leaves the
gains, the target and the limit, and a loop that is set up with these is the same
(`reset_eq_setUp`).
-/
namespace Mecanum.Pid

open Binary32

/-- The loops that are built with limits that are numbers. -/
inductive Buildable : Pid → Prop
  | new (kp ki kd : Float32) : Buildable (.new kp ki kd)
  | ofGains {gains : Gains} (number : gains.limit.isNaN = false) : Buildable (.ofGains gains)
  | setUp (kp ki kd target : Float32) {limit : Float32} (number : limit.isNaN = false) :
      Buildable (.setUp kp ki kd target limit)
  | withOutputLimit {pid : Pid} (built : Buildable pid) {limit : Float32}
      (number : limit.isNaN = false) : Buildable (pid.withOutputLimit limit)
  | setTarget {pid : Pid} (built : Buildable pid) (target : Float32) :
      Buildable (pid.setTarget target)

inductive Operation where
  | positional (measurement : Float32)
  | incremental (measurement : Float32)
  | setTarget (target : Float32)
  | setGains (kp ki kd : Float32)
  | reset
  | setUp (kp ki kd target limit : Float32)

/-- Only setting a loop up gives it a limit, which has to be a number. -/
def Operation.Sound : Operation → Prop
  | setUp _ _ _ _ limit => limit.isNaN = false
  | _ => True

def perform (pid : Pid) : Operation → Except Fault Pid
  | .positional measurement => pid.positional measurement
  | .incremental measurement => pid.incremental measurement
  | .setTarget target => .ok (pid.setTarget target)
  | .setGains kp ki kd => .ok (pid.setGains kp ki kd)
  | .reset => .ok pid.reset
  | .setUp kp ki kd target limit => .ok (.setUp kp ki kd target limit)

/-- The loops behind the operations, one after another. -/
def trail (pid : Pid) : List Operation → Except Fault (List Pid)
  | [] => .ok []
  | first :: operations => do
    let next ← pid.perform first
    let further ← next.trail operations
    return next :: further

def outputs (pid : Pid) (operations : List Operation) : Except Fault (List Float32) :=
  (pid.trail operations).map (List.map output)

/-- A loop within its limits. -/
structure Bounded (pid : Pid) : Prop where
  limit : Magnitude pid.limit
  integral : Within pid.integralLimit pid.integral
  output : Within pid.limit pid.output

/-! ### Single operations -/

/-- Nothing is within every limit. -/
theorem Bounded.of_cleared {pid : Pid} (limit : Magnitude pid.limit) (integral : pid.integral = 0)
    (output : pid.output = 0) : pid.Bounded where
  limit := limit
  integral := by
    rw [integral]
    exact within_isZero (magnitude_integralLimit limit).natural isZero_zero
  output := by
    rw [output]
    exact within_isZero limit.natural isZero_zero

theorem bounded_setUp (kp ki kd target : Float32) {limit : Float32}
    (number : limit.isNaN = false) : (setUp kp ki kd target limit).Bounded :=
  .of_cleared (.abs number) rfl rfl

theorem Buildable.bounded {pid : Pid} (built : Buildable pid) : pid.Bounded := by
  suffices cleared : Magnitude pid.limit ∧ pid.integral = 0 ∧ pid.output = 0 from
    .of_cleared cleared.1 cleared.2.1 cleared.2.2
  induction built with
  | new => exact ⟨(rfl : sign? (unpack 1) = some .positive), rfl, rfl⟩
  | ofGains number => exact ⟨.abs number, rfl, rfl⟩
  | setUp _ _ _ _ number => exact ⟨.abs number, rfl, rfl⟩
  | withOutputLimit _ number before => exact ⟨.abs number, before.2⟩
  | setTarget _ _ before => exact before

namespace Bounded

variable {pid : Pid} (bounded : pid.Bounded)

include bounded

theorem positional (measurement : Float32) :
    ∃ next, pid.positional measurement = .ok next ∧ next.Bounded := by
  have headroom := magnitude_integralLimit bounded.limit
  simp only [Pid.positional, clampSymmetric_ok headroom, clampSymmetric_ok bounded.limit]
  refine ⟨_, rfl, bounded.limit, ?_, ?_⟩
  · exact within_cutOff headroom.natural _
  · exact within_cutOff bounded.limit.natural _

theorem incremental (measurement : Float32) :
    ∃ next, pid.incremental measurement = .ok next ∧ next.Bounded := by
  simp only [Pid.incremental, clampSymmetric_ok bounded.limit]
  refine ⟨_, rfl, bounded.limit, bounded.integral, ?_⟩
  exact within_cutOff bounded.limit.natural _

theorem reset : pid.reset.Bounded := .of_cleared bounded.limit rfl rfl

/-- A sound operation comes out and keeps the loop bounded. -/
theorem perform {operation : Operation} (sound : operation.Sound) :
    ∃ next, pid.perform operation = .ok next ∧ next.Bounded := by
  cases operation with
  | positional measurement => exact bounded.positional measurement
  | incremental measurement => exact bounded.incremental measurement
  | setTarget target => exact ⟨_, rfl, bounded.limit, bounded.integral, bounded.output⟩
  | setGains kp ki kd => exact ⟨_, rfl, bounded.limit, bounded.integral, bounded.output⟩
  | reset => exact ⟨_, rfl, bounded.reset⟩
  | setUp kp ki kd target limit => exact ⟨_, rfl, bounded_setUp kp ki kd target sound⟩

/-- Nothing but the gains, the target and the limit outlasts a reset. -/
theorem reset_eq_setUp : pid.reset = setUp pid.kp pid.ki pid.kd pid.target pid.limit := by
  show _ = { pid.reset with limit := pid.limit.abs }
  rw [bounded.limit.abs_eq]
  rfl

end Bounded

/-! ### Runs -/

/-- Every sequence of sound operations comes out, each state bounded. -/
theorem Bounded.exists_trail {pid : Pid} (bounded : pid.Bounded) {operations : List Operation}
    (sound : ∀ operation ∈ operations, operation.Sound) :
    ∃ states, pid.trail operations = .ok states ∧ ∀ state ∈ states, state.Bounded := by
  induction operations generalizing pid with
  | nil => exact ⟨[], rfl, by simp⟩
  | cons first operations step =>
    obtain ⟨next, performed, further⟩ := bounded.perform (sound first List.mem_cons_self)
    obtain ⟨states, rest, within⟩ := step further fun operation inside =>
      sound operation (List.mem_cons_of_mem _ inside)
    refine ⟨next :: states, ?_, List.forall_mem_cons.mpr ⟨further, within⟩⟩
    exact bind_eq_ok_iff.mpr ⟨next, performed, bind_eq_ok_iff.mpr ⟨states, rest, rfl⟩⟩

/--
With limits that are numbers every operation succeeds and leaves the output and the integrator
within their limits, or not a number, and a loop that is reset goes on as a new one.
-/
theorem trail_within {pid : Pid} (built : Buildable pid) {operations : List Operation}
    (sound : ∀ operation ∈ operations, operation.Sound) :
    ∃ states, pid.trail operations = .ok states ∧ ∀ state ∈ pid :: states,
      Within state.limit state.output ∧ Within state.integralLimit state.integral ∧
      ∀ later, state.reset.outputs later =
        (setUp state.kp state.ki state.kd state.target state.limit).outputs later := by
  obtain ⟨states, performed, within⟩ := built.bounded.exists_trail sound
  refine ⟨states, performed, ?_⟩
  intro state inside
  have bounded : state.Bounded := List.forall_mem_cons.mpr ⟨built.bounded, within⟩ state inside
  refine ⟨bounded.output, bounded.integral, ?_⟩
  intro later
  rw [bounded.reset_eq_setUp]

/-- A loop that runs into its limit, loses its error and is set up again with a negative limit. -/
theorem trail_within_windup :
    let pid : Pid := ofGains ⟨50, 3, 10, -200⟩
    let operations : List Operation :=
      [.positional (-1000), .incremental nan, .reset, .setUp 1 0 0 2 (-5), .incremental 9]
    Buildable pid ∧ (∀ operation ∈ operations, operation.Sound) ∧
      pid.outputs operations = .ok [200, nan, 0, 0, -5] ∧
      ∃ states, pid.trail operations = .ok states ∧ ∀ state ∈ pid :: states,
        Within state.limit state.output ∧ Within state.integralLimit state.integral ∧
        ∀ later, state.reset.outputs later =
          (setUp state.kp state.ki state.kd state.target state.limit).outputs later := by
  intro pid operations
  have built : Buildable pid := .ofGains (by decide +kernel)
  have sound : ∀ operation ∈ operations, operation.Sound := by
    have number : (-5 : Float32).isNaN = false := by decide +kernel
    simpa [operations, Operation.Sound] using number
  exact ⟨built, sound, by decide +kernel, trail_within built sound⟩

end Mecanum.Pid
