import Mathlib.Data.List.Forall2
import Mecanum.Proofs.Fault
import Mecanum.Proofs.Mission.Conversation

/-!
# Runs do not depend on earlier runs

The plan is not taken back at the end of a run, so two runners that are back at their beginning may
hold different plans. No script reads the plan before a scan has replaced it, and an expiry on the
way there replaces it as well. So the two runners go on alike, whatever answers them: they differ
in the plan at most, and only as long as neither has accepted a token.
-/
namespace Mecanum.Mission

variable {W : Type}

namespace Runner

/-! ### Runners that differ in the plan -/

/-- Whether a runner gets to no script that reads the plan before it has another plan. -/
def Unplanned (state : State) (activity : Activity) : Prop :=
  state = .idle ∨
    state = .scanCode ∧ ∀ job rest event, activity = .busy job rest event → event ≠ .scanned

/-- Two runners with the same way ahead of them. -/
inductive Alike : Runner → Runner → Prop
  | same (runner : Runner) : Alike runner runner
  | replanned {config : Config} {state : State} {activity : Activity}
      (unplanned : Unplanned state activity) (plan other : Plan) :
      Alike ⟨config, state, plan, activity⟩ ⟨config, state, other, activity⟩

end Runner

/-- Two steps that look the same and leave runners alike. -/
structure Progress.Alike (first second : Progress) : Prop where
  runner : first.runner.Alike second.runner
  notes : first.notes = second.notes
  ending : first.ending = second.ending

theorem Progress.Alike.refl (progress : Progress) : progress.Alike progress :=
  ⟨.same _, rfl, rfl⟩

namespace Runner

variable {config : Config} {state : State} {activity : Activity} {first second : Runner}

theorem Alike.call? (alike : first.Alike second) : first.call? = second.call? := by
  cases alike <;> rfl

theorem Alike.timeLimit? (alike : first.Alike second) : first.timeLimit? = second.timeLimit? := by
  cases alike <;> rfl

theorem Alike.abandon (alike : first.Alike second) : first.abandon.Alike second.abandon := by
  cases alike with
  | same => exact .same _
  | replanned unplanned =>
    refine .replanned ?_ _ _
    rcases unplanned with idle | ⟨scanning, _⟩
    · exact .inl idle
    · exact .inr ⟨scanning, nofun⟩

/-- Where a script goes on before a scan, or to an event other than a scan. -/
def Before (state : State) (event : Event) : Prop :=
  state = .idle ∨ state = .scanCode ∧ event ≠ .scanned

theorem Unplanned.before {job : Job} {rest : Script} {event : Event}
    (unplanned : Unplanned state (.busy job rest event)) : Before state event := by
  rcases unplanned with idle | ⟨scanning, unscanned⟩
  · exact .inl idle
  · exact .inr ⟨scanning, unscanned job rest event rfl⟩

theorem Before.unplanned {event : Event} (before : Before state event) (job : Job)
    (rest : Script) : Unplanned state (.busy job rest event) := by
  rcases before with idle | ⟨scanning, unscanned⟩
  · exact .inl idle
  · refine .inr ⟨scanning, ?_⟩
    intro _ _ _ busy
    cases busy
    exact unscanned

/-- Before a code is read the next state does not lean on the plan. -/
theorem Before.transition {event : Event} (before : Before state event) :
    Unplanned (state.transition event) .resting := by
  rcases before with rfl | ⟨rfl, unscanned⟩
  · cases event with
    | start => exact .inr ⟨rfl, nofun⟩
    | scanned | completed => exact .inl rfl
  · cases event with
    | scanned => exact absurd rfl unscanned
    | start | completed => exact .inr ⟨rfl, nofun⟩

section Steps

variable {event : Event} (before : Before state event) (plan other : Plan) (activity : Activity)
include before

theorem alike_proceed (notes : List Journal.Note) (script : Script) :
    ((Runner.mk config state plan activity).proceed event notes script).Alike
      ((Runner.mk config state other activity).proceed event notes script) := by
  cases script with
  | nil => exact ⟨.replanned before.transition _ _, rfl, rfl⟩
  | cons action rest => exact ⟨.replanned (before.unplanned _ _) _ _, rfl, rfl⟩

theorem alike_turnTo (job : Job) (rest : Script) (notes : List Journal.Note) :
    ((Runner.mk config state plan activity).turnTo job rest event notes).Alike
      ((Runner.mk config state other activity).turnTo job rest event notes) :=
  ⟨.replanned (before.unplanned _ _) _ _, rfl, rfl⟩

/-- A token that is a code puts the same plan in the place of both. -/
theorem alike_takeToken (token : Scanner.Token) (rest : Script) :
    ((Runner.mk config state plan activity).takeToken token rest event).Alike
      ((Runner.mk config state other activity).takeToken token rest event) := by
  unfold takeToken
  cases Plan.parse token with
  | ok scanned => exact .refl _
  | error error => exact alike_turnTo before plan other activity _ _ _

theorem alike_takeSighting (approach : Approach) (x y : Int) (rest : Script) :
    Agree Progress.Alike
      ((Runner.mk config state plan activity).takeSighting approach x y rest event)
      ((Runner.mk config state other activity).takeSighting approach x y rest event) := by
  unfold takeSighting
  refine (Agree.refl Eq.refl _).bind ?_
  rintro correction _ rfl
  cases correction with
  | none => exact .result (alike_proceed before plan other activity _ _)
  | some command => exact .result (alike_turnTo before plan other activity _ _ _)

theorem alike_expire (job : Job) (rest : Script) :
    ((Runner.mk config state plan (.busy job rest event)).expire job event).Alike
      ((Runner.mk config state other (.busy job rest event)).expire job event) := by
  unfold expire
  cases (job.call config).guard? with
  | none => exact ⟨.replanned (before.unplanned _ _) _ _, rfl, rfl⟩
  | some kind => exact alike_turnTo before plan other _ _ _ _

/-- Only a start leads out of the first state, and an abort gives both the default plan. -/
theorem alike_finish (job : Job) (rest : Script) :
    ((Runner.mk config state plan activity).finish job rest event).Alike
      ((Runner.mk config state other activity).finish job rest event) := by
  have started : Before state .start := by
    rcases before with idle | ⟨scanning, _⟩
    · exact .inl idle
    · exact .inr ⟨scanning, nofun⟩
  cases job with
  | action present =>
    cases present with
    | awaitStart => exact alike_proceed started plan other activity _ _
    | _ => exact alike_proceed before plan other activity _ _
  | nudge approach command => exact alike_turnTo before plan other activity _ _ _
  | steady approach => exact alike_turnTo before plan other activity _ _ _
  | abort timeout => exact .refl _

end Steps

/-- Runners that are alike answer a reply alike. -/
theorem Alike.reply (alike : first.Alike second) (answer : Reply) :
    Agree Progress.Alike (first.reply answer) (second.reply answer) := by
  cases alike with
  | same => exact .refl .refl _
  | @replanned config state activity unplanned plan other =>
    cases activity with
    | resting => exact .result ⟨.replanned unplanned _ _, rfl, rfl⟩
    | busy job rest event =>
      have before := unplanned.before
      simp only [Runner.reply]
      split
      next => exact .result (alike_expire before plan other job rest)
      next token => exact .result (alike_takeToken before plan other _ token rest)
      next approach x y => exact alike_takeSighting before plan other _ approach x y rest
      next => exact .result ⟨.replanned unplanned _ _, rfl, rfl⟩
      next => exact .result ⟨.replanned unplanned _ _, rfl, rfl⟩
      next => exact .result (alike_finish before plan other _ job rest)
      next => exact .result ⟨.replanned unplanned _ _, rfl, rfl⟩

/-- The scripts of the first two states are the same for all plans. -/
theorem Alike.enter (alike : first.Alike second) :
    Agree Progress.Alike first.enter second.enter := by
  cases alike with
  | same => exact .refl .refl _
  | @replanned config state activity unplanned plan other =>
    have before : Before state .completed := by
      rcases unplanned with idle | ⟨scanning, _⟩
      · exact .inl idle
      · exact .inr ⟨scanning, nofun⟩
    have unread : state.script plan config.ringOffset = state.script other config.ringOffset := by
      rcases before with rfl | ⟨rfl, _⟩ <;> rfl
    simp only [Runner.enter, unread]
    refine (Agree.refl Eq.refl _).bind ?_
    rintro script _ rfl
    exact .result (alike_proceed before plan other activity _ _)

end Runner

/-! ### Rehearsals -/

/-- Two rehearsals that do the same, with runners that are alike behind them. -/
structure Rehearsal.Alike (first second : Rehearsal W) : Prop where
  runner : first.runner.Alike second.runner
  world : first.world = second.world
  trace : first.trace = second.trace
  notes : first.notes = second.notes
  ending : first.ending = second.ending

theorem Rehearsal.Alike.after {first second : Rehearsal W} (alike : first.Alike second)
    (trace : List Call) (notes : List Journal.Note) :
    (first.after trace notes).Alike (second.after trace notes) where
  runner := alike.runner
  world := alike.world
  trace := congrArg (trace ++ ·) alike.trace
  notes := congrArg (notes ++ ·) alike.notes
  ending := alike.ending

section Rehearsals

variable [Responder W]

theorem Runner.Alike.consult {first second : Runner} (alike : first.Alike second) (world : W)
    (call : Call) : first.consult world call = second.consult world call := by
  simp only [Runner.consult, Runner.outcome, alike.timeLimit?]

/-- Alike runners make the same calls and take the same replies, one by one. -/
theorem Progress.Alike.rehearse {first second : Progress} (alike : first.Alike second) (world : W)
    (budget : Nat) :
    Agree Rehearsal.Alike (first.rehearse world budget) (second.rehearse world budget) := by
  induction budget generalizing first second world with
  | zero =>
    rw [Progress.rehearse.eq_def, Progress.rehearse.eq_def, ← alike.ending]
    cases first.ending with
    | some ending => exact .result ⟨alike.runner, rfl, rfl, alike.notes, rfl⟩
    | none => exact .result ⟨alike.runner.abandon, rfl, rfl, alike.notes, rfl⟩
  | succ budget ih =>
    rw [Progress.rehearse.eq_def, Progress.rehearse.eq_def, ← alike.ending]
    cases first.ending with
    | some ending => exact .result ⟨alike.runner, rfl, rfl, alike.notes, rfl⟩
    | none =>
      rw [← alike.runner.call?, ← alike.notes]
      cases waiting : first.runner.call? with
      | none => exact .result ⟨alike.runner, rfl, rfl, rfl, rfl⟩
      | some call =>
        dsimp only
        rw [← alike.runner.consult]
        rcases first.runner.consult world call with ⟨trace, _ | ⟨reply, between⟩⟩
        · exact .result ⟨alike.runner.abandon, rfl, rfl, rfl, rfl⟩
        · refine (alike.runner.reply reply).bind fun _ _ onward => ?_
          exact (ih onward between).bind fun _ _ both => .result (both.after _ _)

theorem Runner.Alike.rehearse {first second : Runner} (alike : first.Alike second) (world : W)
    (budget : Nat) :
    Agree Rehearsal.Alike (first.rehearse world budget) (second.rehearse world budget) :=
  alike.enter.bind fun _ _ entered => entered.rehearse world budget

/-- Runners that are alike rehearse alike, state by state. -/
theorem Runner.Alike.rehearseEach {first second : Runner} (alike : first.Alike second) (world : W)
    (budget states : Nat) :
    Agree (List.Forall₂ Rehearsal.Alike) (first.rehearseEach world budget states)
      (second.rehearseEach world budget states) := by
  induction states generalizing first second world with
  | zero => exact .result .nil
  | succ states ih =>
    refine (alike.rehearse world budget).bind fun rehearsed other both => ?_
    rw [← both.ending, ← both.world]
    cases rehearsed.ending with
    | none => exact .result (.cons both .nil)
    | some ending =>
      exact (ih both.runner rehearsed.world).bind fun _ _ later => .result (.cons both later)

end Rehearsals

/-! ### Runners between runs -/

/-- Whether a step that ends a state leaves the runner between states. -/
def Progress.Rests (progress : Progress) : Prop :=
  progress.ending = none ∨ progress.runner.activity = .resting

namespace Runner

theorem rests_proceed (runner : Runner) (event : Event) (notes : List Journal.Note)
    (script : Script) : (runner.proceed event notes script).Rests := by
  cases script with
  | nil => exact .inr rfl
  | cons action rest => exact .inl rfl

theorem rests_turnTo (runner : Runner) (job : Job) (rest : Script) (event : Event)
    (notes : List Journal.Note) : (runner.turnTo job rest event notes).Rests :=
  .inl rfl

theorem rests_finish (runner : Runner) (job : Job) (rest : Script) (event : Event) :
    (runner.finish job rest event).Rests := by
  unfold finish
  split
  · exact rests_proceed ..
  · exact rests_proceed ..
  · exact rests_turnTo ..
  · exact rests_turnTo ..
  · exact .inr rfl
  · exact rests_proceed ..

theorem rests_enter {runner : Runner} {progress : Progress}
    (entered : runner.enter = .ok progress) : progress.Rests := by
  obtain ⟨script, _, produced⟩ := bind_eq_ok_iff.mp entered
  cases produced
  exact rests_proceed ..

theorem resting_of_call? {runner : Runner} (uncalled : runner.call? = none) :
    runner.activity = .resting := by
  unfold call? at uncalled
  split at uncalled
  next resting => exact resting
  next => cases uncalled

/-- A reply that ends a state leaves the runner between states. -/
theorem rests_reply {runner : Runner} {answer : Reply} {progress : Progress}
    (replied : runner.reply answer = .ok progress) : progress.Rests := by
  unfold reply at replied
  split at replied
  · cases replied
    exact .inl rfl
  · split at replied
    · cases replied
      unfold expire
      split
      · exact rests_turnTo ..
      · exact .inl rfl
    · cases replied
      unfold takeToken
      split
      · exact rests_proceed ..
      · exact rests_turnTo ..
    · obtain ⟨correction, _, produced⟩ := bind_eq_ok_iff.mp replied
      split at produced
      · cases produced
        exact rests_proceed ..
      · cases produced
        exact rests_turnTo ..
    · cases replied
      exact .inl rfl
    · cases replied
      exact .inl rfl
    · cases replied
      exact rests_finish ..
    · cases replied
      exact .inl rfl

end Runner

/-- A rehearsal that ends leaves the runner between states, with its parameters. -/
theorem Progress.rehearse_rests [Responder W] {progress : Progress} {world : W} {budget : Nat}
    {rehearsal : Rehearsal W} (rests : progress.Rests)
    (rehearsed : progress.rehearse world budget = .ok rehearsal) :
    rehearsal.runner.config = progress.runner.config ∧ rehearsal.runner.activity = .resting := by
  induction budget generalizing progress world rehearsal with
  | zero =>
    cases ended : progress.ending with
    | some ending =>
      rw [rehearse_of_ended ended] at rehearsed
      cases rehearsed
      exact ⟨rfl, rests.resolve_left (by simp [ended])⟩
    | none =>
      rw [rehearse_zero ended] at rehearsed
      cases rehearsed
      exact ⟨rfl, rfl⟩
  | succ budget ih =>
    cases ended : progress.ending with
    | some ending =>
      rw [rehearse_of_ended ended] at rehearsed
      cases rehearsed
      exact ⟨rfl, rests.resolve_left (by simp [ended])⟩
    | none =>
      cases waiting : progress.runner.call? with
      | none =>
        rw [rehearse_of_silent ended waiting] at rehearsed
        cases rehearsed
        exact ⟨rfl, Runner.resting_of_call? waiting⟩
      | some call =>
        rcases consulted : progress.runner.consult world call with ⟨trace, _ | ⟨reply, between⟩⟩
        · rw [rehearse_of_hung ended waiting consulted] at rehearsed
          cases rehearsed
          exact ⟨rfl, rfl⟩
        · obtain ⟨next, onward, inner, behind, rfl⟩ :=
            rehearse_behind ended waiting consulted rehearsed
          obtain ⟨config, resting⟩ := ih (Runner.rests_reply onward) behind
          exact ⟨config.trans (Runner.config_reply onward), resting⟩

/-- The runners that states lead to, one after another: to their end, to an expiry, or given up at
any call. -/
inductive Runner.Reached (config : Config) : Runner → Prop
  | new : Reached config (.new config)
  | rehearsed {W : Type} [Responder W] {runner : Runner} {world : W} {budget : Nat}
      {rehearsal : Rehearsal W} (before : Reached config runner)
      (rehearsed : runner.rehearse world budget = .ok rehearsal) : Reached config rehearsal.runner

namespace Runner.Reached

variable {config : Config} {runner : Runner}

theorem resting (reached : Reached config runner) :
    runner.config = config ∧ runner.activity = .resting := by
  induction reached with
  | new => exact ⟨rfl, rfl⟩
  | rehearsed _ rehearsed ih =>
    obtain ⟨progress, entered, rehearsed⟩ := bind_eq_ok_iff.mp rehearsed
    obtain ⟨same, resting⟩ := Progress.rehearse_rests (rests_enter entered) rehearsed
    exact ⟨same.trans ((config_enter entered).trans ih.1), resting⟩

/-- Two runners of one configuration that are about to begin a run are alike. -/
theorem alike {other : Runner} (reached : Reached config runner) (idle : runner.state = .idle)
    (reachedOther : Reached config other) (idleOther : other.state = .idle) :
    runner.Alike other := by
  obtain ⟨rfl, resting⟩ := reached.resting
  obtain ⟨same, restingOther⟩ := reachedOther.resting
  obtain ⟨config, state, plan, activity⟩ := runner
  obtain ⟨config', state', plan', activity'⟩ := other
  cases same
  cases idle
  cases idleOther
  cases resting
  cases restingOther
  exact .replanned (.inl rfl) plan plan'

/-- Every rehearsal of a reached runner leaves a reached runner. -/
theorem rehearseEach [Responder W] {world : W} {budget states : Nat}
    {rehearsals : List (Rehearsal W)} (reached : Reached config runner)
    (rehearsed : runner.rehearseEach world budget states = .ok rehearsals) :
    ∀ rehearsal ∈ rehearsals, Reached config rehearsal.runner := by
  induction states generalizing runner world rehearsals with
  | zero =>
    cases rehearsed
    intro rehearsal member
    cases member
  | succ states ih =>
    obtain ⟨first, entered, ⟨_, rfl⟩ | ⟨_, later, _, more, rfl⟩⟩ :=
      Runner.rehearseEach_succ rehearsed
    · intro rehearsal member
      cases List.mem_singleton.mp member
      exact reached.rehearsed entered
    · intro rehearsal member
      have here := reached.rehearsed entered
      rcases List.mem_cons.mp member with rfl | member
      · exact here
      · exact ih here more rehearsal member

end Runner.Reached

/-- What a rehearsal looks like from outside the runner. -/
def Rehearsal.seen (rehearsal : Rehearsal W) : List Call × List Journal.Note × Option Ending × W :=
  (rehearsal.trace, rehearsal.notes, rehearsal.ending, rehearsal.world)

theorem Rehearsal.Alike.seen {first second : Rehearsal W} (alike : first.Alike second) :
    first.seen = second.seen := by
  simp only [Rehearsal.seen, alike.trace, alike.notes, alike.ending, alike.world]

theorem Rehearsal.Alike.map_seen {first second : List (Rehearsal W)}
    (alike : List.Forall₂ Rehearsal.Alike first second) :
    first.map Rehearsal.seen = second.map Rehearsal.seen := by
  induction alike with
  | nil => rfl
  | cons both _ ih => rw [List.map_cons, List.map_cons, both.seen, ih]

theorem Runner.Alike.map_seen [Responder W] {first second : Runner} (alike : first.Alike second)
    (world : W) (budget states : Nat) :
    (first.rehearseEach world budget states).map (List.map Rehearsal.seen) =
      (second.rehearseEach world budget states).map (List.map Rehearsal.seen) :=
  (alike.rehearseEach world budget states).map_eq fun _ _ => Rehearsal.Alike.map_seen

/-- Whatever two runners at their beginning have been through, they do the same from there on. -/
theorem rehearsals_independent [Responder W] {config : Config} {first second : Runner}
    (reached : first.Reached config) (idle : first.state = .idle)
    (reachedOther : second.Reached config) (idleOther : second.state = .idle) (world : W)
    (budget states : Nat) :
    (first.rehearseEach world budget states).map (List.map Rehearsal.seen) =
        (second.rehearseEach world budget states).map (List.map Rehearsal.seen) ∧
      (first.rehearseEach world budget states).map (List.map Rehearsal.seen) =
        ((Runner.new config).rehearseEach world budget states).map (List.map Rehearsal.seen) :=
  ⟨(reached.alike idle reachedOther idleOther).map_seen world budget states,
    (reached.alike idle .new rfl).map_seen world budget states⟩

/-- A runner behind a complete run, which keeps the plan of that run. -/
def Runner.afterRun : Runner :=
  ⟨{}, .idle, ⟨⟨.blue, .green, .red⟩, ⟨.red, .green, .blue⟩⟩, .resting⟩

/-- The runner behind a complete run is one that can be reached. -/
theorem Runner.reached_afterRun : afterRun.Reached {} := by
  have last : ((new {}).rehearseEach World.oneRun 100 18).toOption.bind
      (fun rehearsals => rehearsals.getLast?.map Rehearsal.runner) = some afterRun := by
    decide +kernel
  cases rehearsed : (new {}).rehearseEach World.oneRun 100 18 with
  | error fault =>
    rw [rehearsed] at last
    cases last
  | ok rehearsals =>
    rw [rehearsed] at last
    obtain ⟨rehearsal, member, same⟩ := Option.map_eq_some_iff.mp last
    rw [← same]
    exact Reached.new.rehearseEach rehearsed rehearsal (List.mem_of_getLast? member)

/-- The runner behind a run still has a plan of its own, and does what a new runner does. -/
theorem rehearsals_independent_afterRun :
    (Runner.afterRun.Reached {} ∧ Runner.afterRun.plan ≠ .default) ∧
      (Runner.afterRun.rehearseEach World.oneRun 100 18).map (List.map Rehearsal.seen) =
        ((Runner.new {}).rehearseEach World.oneRun 100 18).map (List.map Rehearsal.seen) :=
  ⟨⟨Runner.reached_afterRun, by decide⟩,
    (rehearsals_independent Runner.reached_afterRun rfl .new rfl World.oneRun 100 18).1⟩

end Mecanum.Mission
