import Mecanum.Mission.Runner
import Mecanum.Proofs.Fault

/-!
# Steps of the mission runner

What every step of the runner keeps, and the one way that a watchdog leads.
-/
namespace Mecanum.Mission.Runner

theorem config_proceed (runner : Runner) (event : Event) (notes : List Journal.Note)
    (actions : Script) : (runner.proceed event notes actions).runner.config = runner.config := by
  cases actions <;> rfl

theorem config_finish (runner : Runner) (job : Job) (rest : Script) (event : Event) :
    (runner.finish job rest event).runner.config = runner.config := by
  unfold finish
  split <;> first | rfl | exact config_proceed ..

theorem config_enter {runner : Runner} {progress : Progress}
    (entered : runner.enter = .ok progress) : progress.runner.config = runner.config := by
  obtain ⟨script, _, produced⟩ := bind_eq_ok_iff.mp entered
  cases produced
  exact config_proceed ..

theorem config_takeToken (runner : Runner) (token : Scanner.Token) (rest : Script)
    (event : Event) : (runner.takeToken token rest event).runner.config = runner.config := by
  unfold takeToken
  split
  · exact config_proceed ..
  · rfl

theorem config_takeSighting {runner : Runner} {approach : Approach} {x y : Int} {rest : Script}
    {event : Event} {progress : Progress}
    (taken : runner.takeSighting approach x y rest event = .ok progress) :
    progress.runner.config = runner.config := by
  obtain ⟨correction, _, produced⟩ := bind_eq_ok_iff.mp taken
  split at produced
  · cases produced
    exact config_proceed ..
  · cases produced
    rfl

theorem config_expire (runner : Runner) (job : Job) (event : Event) :
    (runner.expire job event).runner.config = runner.config := by
  unfold expire
  split <;> rfl

/-- No reply changes the parameters of the runner. -/
theorem config_reply {runner : Runner} {answer : Reply} {progress : Progress}
    (replied : runner.reply answer = .ok progress) : progress.runner.config = runner.config := by
  unfold reply at replied
  split at replied
  · cases replied
    rfl
  · split at replied
    · cases replied
      exact config_expire ..
    · cases replied
      exact config_takeToken ..
    · exact config_takeSighting replied
    · cases replied
      rfl
    · cases replied
      rfl
    · cases replied
      exact config_finish ..
    · cases replied
      rfl

/-- Only the job at hand calls. -/
theorem busy_of_call? {runner : Runner} {call : Call} (waiting : runner.call? = some call) :
    ∃ job rest event, runner.activity = .busy job rest event ∧ job.call runner.config = call := by
  unfold call? at waiting
  split at waiting
  next => cases waiting
  next job rest event busy => exact ⟨job, rest, event, busy, Option.some.inj waiting⟩

/-- A watchdog that runs out leads to a halt of the chassis. -/
theorem call?_expired {runner : Runner} {limit : UInt32} {progress : Progress}
    (guarded : runner.timeLimit? = some limit) (expired : runner.reply .expired = .ok progress) :
    progress.runner.call? = some .halt := by
  unfold timeLimit? call? at guarded
  unfold reply at expired
  cases activity : runner.activity with
  | resting => simp [activity] at guarded
  | busy job rest event =>
    simp only [activity] at guarded expired
    split at guarded
    next present =>
      cases expired
      unfold expire
      cases kind : (job.call runner.config).guard? with
      | none => simp [kind] at present
      | some wait => rfl
    next => cases guarded

theorem timeLimit?_eq_none {runner : Runner} (unlimited : runner.config.timeout = none) :
    runner.timeLimit? = none := by
  unfold timeLimit?
  split
  · rfl
  · split
    · exact unlimited
    · rfl

end Mecanum.Mission.Runner
