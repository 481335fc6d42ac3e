import Mecanum.Proofs.Mission.Runner

/-!
# The arm tasks of scripts

A script fixes which tasks the arm is asked for and in which order. The runner calls for them one by
one: entering a state puts the tasks of its script ahead, and each reply leaves those behind the job
that it ends. Only a watchdog drops any.
-/
namespace Mecanum.Mission

open Arm (Task)

def Call.armTask? : Call → Option Task
  | arm task => some task
  | _ => none

def Action.armTask? : Action → Option Task
  | arm task => some task
  | _ => none

def Job.armTask? : Job → Option Task
  | action present => present.armTask?
  | _ => none

def Script.armTasks (script : Script) : List Task := script.filterMap Action.armTask?

theorem Job.armTask?_call (config : Config) (job : Job) :
    (job.call config).armTask? = job.armTask? := by
  cases job with
  | action present => cases present <;> rfl
  | _ => rfl

namespace Runner

/-- The arm tasks behind the job at hand. -/
def armTasksBehind (runner : Runner) : List Task :=
  match runner.activity with
  | .resting => []
  | .busy (.abort _) _ _ => []
  | .busy _ rest _ => Script.armTasks rest

/-- The arm tasks from the job at hand on. -/
def armTasks (runner : Runner) : List Task :=
  match runner.activity with
  | .resting => []
  | .busy job _ _ => job.armTask?.toList ++ runner.armTasksBehind

/-- The arm task of the call under way comes before those behind the job at hand. -/
theorem armTasks_of_call? {runner : Runner} {call : Call} (waiting : runner.call? = some call) :
    runner.armTasks = call.armTask?.toList ++ runner.armTasksBehind := by
  unfold call? at waiting
  unfold armTasks
  cases activity : runner.activity with
  | resting => simp [activity] at waiting
  | busy job rest event =>
    simp only [activity, Option.some.injEq] at waiting ⊢
    rw [← waiting, Job.armTask?_call]

theorem armTasks_of_resting {runner : Runner} (resting : runner.call? = none) :
    runner.armTasks = [] := by
  unfold call? at resting
  unfold armTasks
  cases activity : runner.activity with
  | resting => rfl
  | busy job rest event => simp [activity] at resting

theorem armTasks_proceed (runner : Runner) (event : Event) (notes : List Journal.Note)
    (script : Script) : (runner.proceed event notes script).runner.armTasks = script.armTasks := by
  cases script with
  | nil => rfl
  | cons action rest => cases action <;> rfl

theorem armTasks_enter {runner : Runner} {progress : Progress}
    (entered : runner.enter = .ok progress) :
    ∃ script, runner.state.script runner.plan runner.config.ringOffset = .ok script ∧
      progress.runner.armTasks = script.armTasks := by
  obtain ⟨script, made, produced⟩ := bind_eq_ok_iff.mp entered
  cases produced
  exact ⟨script, made, armTasks_proceed ..⟩

/-- When a job is done, the arm tasks behind it are what is left. -/
private theorem armTasks_finish {runner : Runner} {job : Job} {rest : Script} {event : Event}
    (activity : runner.activity = .busy job rest event) :
    (runner.finish job rest event).runner.armTasks = runner.armTasksBehind := by
  unfold armTasksBehind
  rw [activity]
  cases job with
  | action present => cases present <;> exact armTasks_proceed ..
  | nudge approach command => rfl
  | steady approach => rfl
  | abort timeout => rfl

/-- A reply that is no expiry leads on to the tasks behind the job that it ends. -/
theorem armTasks_reply {runner : Runner} {answer : Reply} {progress : Progress}
    (replied : runner.reply answer = .ok progress) (present : answer ≠ .expired)
    (done : ∀ task, runner.call? = some (.arm task) → answer = .done) :
    progress.runner.armTasks = runner.armTasksBehind := by
  unfold reply at replied
  unfold call? at done
  split at replied
  next resting =>
    cases replied
    simp [armTasks, armTasksBehind, resting]
  next job rest event activity =>
    simp only [activity] at done
    split at replied
    next => exact absurd rfl present
    -- A token that is no plan leaves the runner at the same wait, which asks for no task.
    next token =>
      cases replied
      unfold takeToken
      split
      · rw [armTasks_proceed]
        simp [armTasksBehind, activity]
      · simp [armTasksBehind, activity, turnTo, armTasks, Job.armTask?, Action.armTask?]
    next approach x y =>
      obtain ⟨correction, _, produced⟩ := bind_eq_ok_iff.mp replied
      split at produced
      · cases produced
        rw [armTasks_proceed]
        simp [armTasksBehind, activity]
      · cases produced
        simp [armTasksBehind, activity, turnTo, armTasks, Job.armTask?]
    next =>
      cases replied
      simp [armTasks, activity, Job.armTask?, Action.armTask?]
    next =>
      cases replied
      simp [armTasks, activity, Job.armTask?, Action.armTask?]
    next => cases replied; exact armTasks_finish activity
    next undone _ _ =>
      cases replied
      have none : job.armTask? = none := by
        cases job with
        | action present =>
          cases present with
          | arm task => exact absurd (done task rfl) undone
          | _ => rfl
        | _ => rfl
      simp [armTasks, activity, none]

end Runner

end Mecanum.Mission
