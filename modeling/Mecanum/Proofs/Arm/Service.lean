import Mecanum.Proofs.Fault
import Mecanum.Robot.Tasks

/-!
# Steps of the arm

What one step of the arm can do to its task and to the shared state: wait for a request, receive
one, end a performance, pause, or make the next call of a performance. Only the first three look
beyond the body of the robot. A call does to the body and to the servos what it says
(`step_obeyed`).
-/
namespace Mecanum.Robot.ArmTask

/-- What one step of the arm does, with the call that it makes. -/
inductive Stepped (task : ArmTask) (shared : Shared.State) :
    ArmTask → Shared.State → Option Arm.Entry → Prop where
  | waiting (free : task.performance = none) (empty : shared.tasks.pop? = none) :
      Stepped task shared task shared none
  | receiving {request : Arm.Task} {tasks : Shared.TaskQueue} (free : task.performance = none)
      (taken : shared.tasks.pop? = some (request, tasks)) :
      Stepped task shared
        { task with performance := some (.ofTask task.config request), requested := true }
        { shared with tasks := tasks } none
  | finishing {performance : Arm.Performance} (busy : task.performance = some performance)
      (ended : performance.call? task.config = .ok none) :
      Stepped task shared { task with performance := none, requested := false }
        (if task.requested then shared.signalArm else shared) none
  | pausing {performance : Arm.Performance} {wake : Nat}
      (busy : task.performance = some performance) :
      Stepped task shared { task with wake := some wake } shared none
  | performing {performance : Arm.Performance} {call : Arm.Call} {count : Int}
      (busy : task.performance = some performance)
      (called : performance.call? task.config = .ok (some call)) :
      Stepped task shared
        { task with performance := some (performance.advance count).1, wake := none } shared
        (some ⟨call, count⟩)

/-- Every step of the task is one of those told. -/
theorem step_stepped {task : ArmTask} {now : Nat} {shared : Shared.State} {body : Body}
    {pulses : Servo.Pulses 3} {result : Step}
    (stepped : task.step now shared body pulses = .ok result) :
    Stepped task shared result.task result.shared result.entry := by
  simp only [step] at stepped
  split at stepped
  next free =>
    cases stepped
    unfold receive
    split
    next empty => exact .waiting free empty
    next taken => exact .receiving free taken
  next performance busy =>
    obtain ⟨call, present, rest⟩ := bind_eq_ok_iff.mp stepped
    split at rest
    next => cases rest; exact .finishing busy present
    next ms =>
      split at rest
      · cases rest
        exact .performing busy present
      · cases rest
        exact .pausing busy
    next => cases rest; exact .performing busy present
    next => cases rest; exact .performing busy present

/-- A step of the arm that neither begins nor ends the service of a request. -/
inductive Onward (task next : ArmTask) : Option Arm.Entry → Prop where
  | still (same : next.performance = task.performance) : Onward task next none
  -- A performance that nobody has asked for ends.
  | posed {performance : Arm.Performance} (busy : task.performance = some performance)
      (ended : performance.call? task.config = .ok none) (unasked : task.requested = false)
      (free : next.performance = none) : Onward task next none
  | acted {performance : Arm.Performance} {call : Arm.Call} {count : Int}
      (busy : task.performance = some performance)
      (called : performance.call? task.config = .ok (some call))
      (behind : next.performance = some (performance.advance count).1) :
      Onward task next (some ⟨call, count⟩)

/-- A call done to the body and to the servos: the lift shows the count of the entry behind it, a
servo is set to its angle, and the wheels are left alone. -/
structure Obeyed (entry : Arm.Entry) (body behind : Body) (pulses set : Servo.Pulses 3) : Prop where
  answered : behind = body.answer entry.call
  shown : entry.count = behind.liftSteps
  wheels : behind.wheelSpeeds = body.wheelSpeeds
  servo : ∀ {servo angle}, entry.call = .servo servo angle →
    set = pulses.setAngle servo.channel angle

/-- No call of the arm turns a wheel. -/
theorem wheelSpeeds_answer (body : Body) (call : Arm.Call) :
    (body.answer call).wheelSpeeds = body.wheelSpeeds := by
  cases body with
  | simulated => rfl
  | stepped bank outputs =>
    cases call with
    | lift speed =>
      -- The lift has a channel of its own.
      have apart (wheel : Nat) (other : wheel ≠ liftChannel) :
          (bank.setSpeed liftChannel speed).speed wheel = bank.speed wheel := by
        simp only [Stepper.Bank.setSpeed, Stepper.Bank.speed, Vector.getElem?_setIfInBounds,
          if_neg other.symm]
      simp only [Body.answer, Body.wheelSpeeds]
      rw [apart 0 (by decide), apart 1 (by decide), apart 2 (by decide), apart 3 (by decide)]
    | _ => rfl

/-- The call that a step tells of is the one that the body and the servos have obeyed. -/
theorem step_obeyed {task : ArmTask} {now : Nat} {shared : Shared.State} {body : Body}
    {pulses : Servo.Pulses 3} {result : Step} {entry : Arm.Entry}
    (stepped : task.step now shared body pulses = .ok result) (made : result.entry = some entry) :
    Obeyed entry body result.body pulses result.pulses := by
  simp only [step] at stepped
  split at stepped
  next =>
    cases stepped
    unfold receive at made
    split at made <;> cases made
  next performance busy =>
    obtain ⟨call, present, rest⟩ := bind_eq_ok_iff.mp stepped
    split at rest
    next => cases rest; cases made
    next ms =>
      split at rest
      · cases rest
        cases made
        exact ⟨by cases body <;> rfl, rfl, rfl, nofun⟩
      · cases rest
        cases made
    next servo angle =>
      cases rest
      cases made
      refine ⟨by cases body <;> rfl, rfl, rfl, ?_⟩
      rintro _ _ ⟨⟩
      rfl
    next call notPause notServo =>
      cases rest
      cases made
      exact ⟨rfl, rfl, wheelSpeeds_answer body call, fun same => (notServo _ _ same).elim⟩

section Stepped

variable {task next : ArmTask} {shared behind : Shared.State} {entry : Option Arm.Entry}

/-- The task leaves the command of the chassis and its completion alone. -/
theorem Stepped.chassis (stepped : Stepped task shared next behind entry) :
    behind.command = shared.command ∧ behind.moveFinished = shared.moveFinished := by
  cases stepped with
  | waiting => exact ⟨rfl, rfl⟩
  | receiving => exact ⟨rfl, rfl⟩
  | finishing => split <;> exact ⟨rfl, rfl⟩
  | pausing => exact ⟨rfl, rfl⟩
  | performing => exact ⟨rfl, rfl⟩

theorem Stepped.config (stepped : Stepped task shared next behind entry) :
    next.config = task.config := by
  cases stepped <;> rfl

/-- An arm at leisure has no request to signal for. -/
theorem Stepped.free (stepped : Stepped task shared next behind entry)
    (free : task.performance = none → task.requested = false) :
    next.performance = none → next.requested = false := by
  cases stepped with
  | waiting => exact free
  | receiving => nofun
  | finishing => exact fun _ => rfl
  | pausing => exact free
  | performing => nofun

end Stepped

end Mecanum.Robot.ArmTask
