import Mecanum.Proofs.Mission.Runner

/-!
# How a run opens

The first state waits for the start button and for nothing else, and the script behind it begins by
asking for a new zero of the heading. So the runner is at one of four places until it has asked, and
only a press takes it from the first state to the second.
-/
namespace Mecanum.Mission.Runner

/-- The places of a run up to the request for a new zero. -/
inductive Opens (runner : Runner) : Prop where
  | idle (state : runner.state = .idle) (resting : runner.activity = .resting)
  | waiting {event : Event} (state : runner.state = .idle)
      (busy : runner.activity = .busy (.action .awaitStart) [] event)
  | started (state : runner.state = .scanCode) (resting : runner.activity = .resting)
  | asking {rest : Script} {event : Event} (state : runner.state = .scanCode)
      (busy : runner.activity = .busy (.action .rezeroHeading) rest event)

/-- In the first state a runner is at one of these places. -/
def Poised (runner : Runner) : Prop := runner.state = .idle → runner.Opens

variable {runner : Runner} {answer : Reply} {progress : Progress}

theorem Opens.call? (opens : runner.Opens) :
    runner.call? = none ∨ runner.call? = some .awaitStart ∨ runner.call? = some .rezero := by
  unfold Runner.call?
  cases opens with
  | idle state resting => exact .inl (by rw [resting])
  | waiting state busy => exact .inr (.inl (by rw [busy]; rfl))
  | started state resting => exact .inl (by rw [resting])
  | asking state busy => exact .inr (.inr (by rw [busy]; rfl))

theorem Opens.eq_of_call? {call : Call} (opens : runner.Opens)
    (waiting : runner.call? = some call) : call = .awaitStart ∨ call = .rezero := by
  rcases opens.call? with none | start | rezero
  · rw [waiting] at none
    cases none
  · exact .inl (Option.some.inj (waiting.symm.trans start))
  · exact .inr (Option.some.inj (waiting.symm.trans rezero))

/-- No watchdog guards the first calls of a run. -/
theorem Opens.timeLimit?_eq_none (opens : runner.Opens) : runner.timeLimit? = none := by
  unfold timeLimit?
  rcases opens.call? with call | call | call <;> rw [call] <;> rfl

/-! ### Steps within a state -/

/-- As long as a script goes on, the state is the same. -/
theorem state_of_busy_proceed {event : Event} {notes : List Journal.Note} {script : Script}
    (busy : (runner.proceed event notes script).runner.activity ≠ .resting) :
    (runner.proceed event notes script).runner.state = runner.state := by
  cases script with
  | nil => exact absurd rfl busy
  | cons action rest => rfl

theorem state_of_busy_finish {job : Job} {rest : Script} {event : Event}
    (busy : (runner.finish job rest event).runner.activity ≠ .resting) :
    (runner.finish job rest event).runner.state = runner.state := by
  unfold finish at busy ⊢
  split at busy
  all_goals first | exact absurd rfl busy | exact state_of_busy_proceed busy | rfl

/-- A runner that goes on with a state is in the state it was in. -/
theorem state_of_busy (replied : runner.reply answer = .ok progress)
    (busy : progress.runner.activity ≠ .resting) : progress.runner.state = runner.state := by
  unfold reply at replied
  split at replied
  next => cases replied; rfl
  next job rest event activity =>
    split at replied
    next =>
      cases replied
      unfold expire
      split <;> rfl
    next =>
      cases replied
      unfold takeToken at busy ⊢
      split at busy
      next plan _ =>
        have same : ({ runner with plan := plan } : Runner).state = runner.state := rfl
        exact (state_of_busy_proceed busy).trans same
      next => rfl
    next =>
      obtain ⟨correction, _, produced⟩ := bind_eq_ok_iff.mp replied
      split at produced
      · cases produced
        exact state_of_busy_proceed busy
      · cases produced
        rfl
    next => cases replied; rfl
    next => cases replied; rfl
    next =>
      cases replied
      exact state_of_busy_finish busy
    next => cases replied; rfl

/-! ### The first calls of a run -/

/-- A wait for the start button ends with the press, and leads to the second state. -/
theorem reply_waiting {event : Event} (state : runner.state = .idle)
    (busy : runner.activity = .busy (.action .awaitStart) [] event)
    (replied : runner.reply answer = .ok progress) :
    progress.runner = runner ∨
      answer = .done ∧
        progress.runner = { runner with state := .scanCode, activity := .resting } := by
  unfold reply at replied
  rw [busy] at replied
  cases answer with
  | done =>
    cases replied
    refine .inr ⟨rfl, ?_⟩
    simp only [finish, proceed, state]
    rfl
  | _ => cases replied; exact .inl rfl

/-- The first two states begin at the places of the opening. -/
theorem enter_opens (entered : runner.enter = .ok progress)
    (first : runner.state = .idle ∨ runner.state = .scanCode) : progress.runner.Opens := by
  obtain ⟨script, written, produced⟩ := bind_eq_ok_iff.mp entered
  rcases first with state | state
  · rw [state] at written
    cases written
    cases produced
    exact .waiting state rfl
  · rw [state] at written
    cases written
    cases produced
    exact .asking state rfl

/-- A run leaves its first places only by asking for a new zero. -/
theorem opens_reply (opens : runner.Opens) (replied : runner.reply answer = .ok progress) :
    progress.runner.Opens ∨ runner.call? = some .rezero := by
  have unchanged (resting : runner.activity = .resting) : progress.runner = runner := by
    unfold reply at replied
    rw [resting] at replied
    cases replied
    rfl
  cases opens with
  | idle state resting => exact .inl (unchanged resting ▸ .idle state resting)
  | started state resting => exact .inl (unchanged resting ▸ .started state resting)
  | asking state busy => exact .inr (by rw [Runner.call?, busy]; rfl)
  | waiting state busy =>
    rcases reply_waiting state busy replied with same | ⟨_, behind⟩
    · exact .inl (same ▸ .waiting state busy)
    · rw [behind]
      exact .inl (.started rfl rfl)

theorem poised_new (config : Config) : (new config).Poised := fun _ => .idle rfl rfl

theorem poised_enter (entered : runner.enter = .ok progress) : progress.runner.Poised := by
  intro idle
  by_cases resting : progress.runner.activity = .resting
  · exact .idle idle resting
  · have same : progress.runner.state = runner.state := by
      obtain ⟨script, _, produced⟩ := bind_eq_ok_iff.mp entered
      cases produced
      exact state_of_busy_proceed resting
    exact enter_opens entered (.inl (same ▸ idle))

/-- No reply leads a runner in the first state away from these places. -/
theorem poised_reply (poised : runner.Poised) (replied : runner.reply answer = .ok progress) :
    progress.runner.Poised := by
  intro idle
  by_cases resting : progress.runner.activity = .resting
  · exact .idle idle resting
  · have state : runner.state = .idle := state_of_busy replied resting ▸ idle
    rcases opens_reply (poised state) replied with opens | asking
    · exact opens
    · -- In the first state there is nobody asking for a zero.
      cases poised state with
      | idle _ quiet => simp [Runner.call?, quiet] at asking
      | waiting _ busy => simp [Runner.call?, busy, Job.call] at asking
      | started other => rw [state] at other; cases other
      | asking other => rw [state] at other; cases other

/-- Only the end of a wait for the start button leads from the first state to the second. -/
theorem start_of_reply (poised : runner.Poised) (replied : runner.reply answer = .ok progress)
    (idle : runner.state = .idle) (started : progress.runner.state = .scanCode) :
    runner.call? = some .awaitStart ∧ answer = .done := by
  cases poised idle with
  | idle _ resting =>
    unfold reply at replied
    rw [resting] at replied
    cases replied
    rw [idle] at started
    cases started
  | waiting _ busy =>
    rcases reply_waiting idle busy replied with same | ⟨done, _⟩
    · rw [same, idle] at started
      cases started
    · exact ⟨by rw [Runner.call?, busy]; rfl, done⟩
  | started other => rw [idle] at other; cases other
  | asking other => rw [idle] at other; cases other

theorem state_enter_idle (entered : runner.enter = .ok progress) (idle : runner.state = .idle) :
    progress.runner.state = .idle := by
  obtain ⟨script, written, produced⟩ := bind_eq_ok_iff.mp entered
  rw [idle] at written
  cases written
  cases produced
  exact idle

end Mecanum.Mission.Runner
