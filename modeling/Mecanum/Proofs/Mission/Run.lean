import Mathlib.Data.List.Forall2
import Mecanum.Proofs.Mission.Expansion

/-!
# Complete runs

Without a watchdog, a run depends on nothing but the replies of the responder. If it ends every call
that the scripts come down to, brings a task code after finitely many other tokens, and shows each
ring in its place after finitely many sightings out of place, then the runner goes through all
states, one by one, and makes exactly the calls of the scripts.
-/
namespace Mecanum.Mission

/-! ### Responders that serve a script -/

variable {W : Type} [Responder W]

/-- A call ends with a reply, if no watchdog guards it. -/
def Responder.Ends (world : W) (call : Call) (reply : Reply) (next : W) : Prop :=
  Outcome.ofLooks false (Responder.looks world call) = .replied reply next

/-- A call ends with a reply before its watchdog runs out, if one guards it. -/
def Responder.EndsInTime (config : Config) (world : W) (call : Call) (reply : Reply) (next : W) :
    Prop :=
  Outcome.ofLooks (call.guard?.isSome && config.timeout.isSome) (Responder.looks world call) =
    .replied reply next

/-- The replies of exchanges are those of a responder, one after another. -/
inductive Answered : W → List Exchange → W → Prop
  | nil {world : W} : Answered world [] world
  | cons {world next final : W} {call : Call} {reply : Reply} {later : List Exchange}
      (ended : Responder.Ends world call reply next) (onward : Answered next later final) :
      Answered world (⟨call, reply⟩ :: later) final

theorem Answered.append {world next final : W} {exchanges later : List Exchange}
    (first : Answered world exchanges next) (second : Answered next later final) :
    Answered world (exchanges ++ later) final := by
  induction first with
  | nil => exact second
  | cons ended _ ih => exact .cons ended (ih second)

theorem Conversation.answered {progress last : Progress} {world final : W}
    {exchanges : List Exchange} (conversation : Conversation progress world exchanges last final) :
    Answered world exchanges final := by
  induction conversation with
  | done => exact .nil
  | step _ _ replied _ _ ih => exact .cons (Outcome.replied_unguarded replied) ih

/-- A responder ends every call that a script comes down to, in finitely many of them. The tokens
before the one that reads as `plan` are no task codes. -/
inductive Serves (config : Config) (plan : Plan) : Script → W → W → Prop
  | nil {world : W} : Serves config plan [] world world
  | single {action : Action} {call : Call} {rest : Script} {world next final : W}
      (one : action.single? = some call) (ended : Responder.Ends world call .done next)
      (onward : Serves config plan rest next final) :
      Serves config plan (action :: rest) world final
  | rejected {token : Scanner.Token} {error : CodeError} {rest : Script} {world next final : W}
      (ended : Responder.Ends world .awaitToken (.token token) next)
      (unread : Plan.parse token = .error error)
      (onward : Serves config plan (.awaitScan :: rest) next final) :
      Serves config plan (.awaitScan :: rest) world final
  | accepted {token : Scanner.Token} {rest : Script} {world next final : W}
      (ended : Responder.Ends world .awaitToken (.token token) next)
      (read : Plan.parse token = .ok plan) (onward : Serves config plan rest next final) :
      Serves config plan (.awaitScan :: rest) world final
  | nudged {approach : Approach} {x y : Int} {rest : Script} {world seen driven next final : W}
      (ended : Responder.Ends world (.sight approach.ring) (.position x y) seen)
      (frame : Alignment.InFrame x y) (outside : ¬config.alignment.Inside x y)
      (drove : Responder.Ends seen
        (.drive (config.alignment.nudge x y approach.speed approach.distance)) .done driven)
      (paused : Responder.Ends driven (.pause config.alignSettle) .done next)
      (onward : Serves config plan (.align approach :: rest) next final) :
      Serves config plan (.align approach :: rest) world final
  | aligned {approach : Approach} {x y : Int} {rest : Script} {world next final : W}
      (ended : Responder.Ends world (.sight approach.ring) (.position x y) next)
      (frame : Alignment.InFrame x y) (inside : config.alignment.Inside x y)
      (onward : Serves config plan rest next final) :
      Serves config plan (.align approach :: rest) world final

/-- A responder serves one script after another. -/
inductive ServesEach (config : Config) (plan : Plan) : List Script → W → W → Prop
  | nil {world : W} : ServesEach config plan [] world world
  | cons {script : Script} {scripts : List Script} {world next final : W}
      (served : Serves config plan script world next)
      (onward : ServesEach config plan scripts next final) :
      ServesEach config plan (script :: scripts) world final

namespace Runner

variable {runner : Runner} {event : Event} {rest : Script} {token : Scanner.Token}
  {approach : Approach} {x y : Int}

theorem reply_rejected {error : CodeError} (unread : Plan.parse token = .error error) :
    (runner.facing .awaitScan rest event).reply (.token token) =
      .ok ((runner.facing .awaitScan rest event).proceed event [.tokenRejected error]
        (.awaitScan :: rest)) := by
  simp only [reply, facing, takeToken, unread]
  rfl

theorem reply_accepted {plan : Plan} (read : Plan.parse token = .ok plan) :
    (runner.facing .awaitScan rest event).reply (.token token) =
      .ok ({ runner.facing .awaitScan rest event with plan := plan }.proceed .scanned
        [.planAdopted plan] rest) := by
  simp only [reply, facing, takeToken, read]

theorem reply_nudged {command : Motion.Command}
    (corrected : runner.config.alignment.correction x y approach.speed approach.distance =
      .ok (some command)) :
    (runner.facing (.align approach) rest event).reply (.position x y) =
      .ok ((runner.facing (.align approach) rest event).turnTo (.nudge approach command) rest event
        [.misaligned approach.ring x y command.mode]) := by
  simp only [reply, facing, takeSighting, corrected]
  rfl

theorem reply_aligned
    (corrected : runner.config.alignment.correction x y approach.speed approach.distance =
      .ok none) :
    (runner.facing (.align approach) rest event).reply (.position x y) =
      .ok ((runner.facing (.align approach) rest event).proceed event
        [.aligned approach.ring x y] rest) := by
  simp only [reply, facing, takeSighting, corrected]
  rfl

end Runner

section Unguarded

variable {config : Config} {plan : Plan} {world next : W} {script : Script}

/-- A call that ends in time is an exchange of the conversation. -/
theorem Conversation.step_in_time {runner : Runner} {notes : List Journal.Note} {call : Call}
    {reply : Reply} {onward last : Progress} {final : W} {rest : List Exchange}
    (same : runner.config = config) (waiting : runner.call? = some call)
    (ended : Responder.EndsInTime config world call reply next)
    (replied : runner.reply reply = .ok onward)
    (later : Conversation onward next rest last final) :
    Conversation ⟨runner, notes, none⟩ world (⟨call, reply⟩ :: rest) last final := by
  refine .step rfl waiting ?_ replied later
  have limited : runner.timeLimit?.isSome = (call.guard?.isSome && config.timeout.isSome) := by
    simp only [Runner.timeLimit?, waiting, same]
    cases call.guard?.isSome <;> rfl
  rw [Runner.outcome, limited]
  exact ended

/-- Without a watchdog it is enough that the call ends. -/
theorem Conversation.step_of_ends {runner : Runner} {notes : List Journal.Note} {call : Call}
    {reply : Reply} {onward last : Progress} {final : W} {rest : List Exchange}
    (unguarded : runner.config.timeout = none) (waiting : runner.call? = some call)
    (ended : Responder.Ends world call reply next) (replied : runner.reply reply = .ok onward)
    (later : Conversation onward next rest last final) :
    Conversation ⟨runner, notes, none⟩ world (⟨call, reply⟩ :: rest) last final := by
  refine .step_in_time rfl waiting ?_ replied later
  rw [Responder.EndsInTime, unguarded, Option.isSome_none, Bool.and_false]
  exact ended

/-- The runner carries a script that is served to its end. -/
theorem Serves.conversation (served : Serves config plan script world next)
    (unguarded : config.timeout = none) (near : config.alignment.Near)
    (once : script.count .awaitScan ≤ 1) (runner : Runner) (same : runner.config = config)
    (event : Event) (notes : List Journal.Note) :
    ∃ exchanges last ending,
      Conversation (runner.proceed event notes script) world exchanges last next ∧
        last.ending = some ending ∧ (.awaitScan ∈ script → last.runner.plan = plan) := by
  have silent : runner.config.timeout = none := by rw [same, unguarded]
  induction served generalizing runner event notes with
  | nil => exact ⟨[], _, _, .done, rfl, nofun⟩
  | @single action call rest world next final one ended _ ih =>
    have other := Runner.ne_awaitScan_of_single one
    rw [List.count_cons_of_ne other] at once
    obtain ⟨reported, replied⟩ := Runner.reply_facing_single runner rest event one
    obtain ⟨exchanges, last, ending, later, done, adopted⟩ :=
      ih once (runner.facing action rest event) same _ reported silent
    refine ⟨_, last, ending, .step_of_ends silent (Runner.call?_facing_single one) ended replied
      later, done, ?_⟩
    exact fun member => adopted ((List.mem_cons.mp member).resolve_left other.symm)
  | @rejected token error rest world next final ended unread _ ih =>
    obtain ⟨exchanges, last, ending, later, done, adopted⟩ :=
      ih once (runner.facing .awaitScan rest event) same event [.tokenRejected error] silent
    exact ⟨_, last, ending, .step_of_ends silent rfl ended (Runner.reply_rejected unread) later,
      done, adopted⟩
  | @accepted token rest world next final ended read _ ih =>
    rw [List.count_cons_self] at once
    obtain ⟨exchanges, last, ending, later, done, _⟩ :=
      ih (by omega) { runner.facing .awaitScan rest event with plan := plan } same .scanned
        [.planAdopted plan] silent
    -- The rest keeps the plan, for it waits for no other code.
    have unscanned : .awaitScan ∉ rest := List.count_eq_zero.mp (by omega)
    have kept := (later.carriesOut done (by omega)).plan unscanned
    exact ⟨_, last, ending, .step_of_ends silent rfl ended (Runner.reply_accepted read) later, done,
      fun _ => kept⟩
  | @nudged approach x y rest world seen driven next final ended frame outside drove paused _ ih =>
    subst same
    have corrected := (Alignment.correction_in_frame near frame approach.speed
      approach.distance).2 outside
    obtain ⟨exchanges, last, ending, later, done, adopted⟩ :=
      ih once (runner.facing (.align approach) rest event) rfl event [] silent
    exact ⟨_, last, ending, .step_of_ends silent rfl ended (Runner.reply_nudged corrected)
      (.step_of_ends silent rfl drove rfl (.step_of_ends silent rfl paused rfl later)),
      done, adopted⟩
  | @aligned approach x y rest world next final ended frame inside _ ih =>
    subst same
    have corrected := (Alignment.correction_in_frame near frame approach.speed
      approach.distance).1 inside
    obtain ⟨exchanges, last, ending, later, done, adopted⟩ :=
      ih once (runner.facing (.align approach) rest event) rfl event
        [.aligned approach.ring x y] silent
    refine ⟨_, last, ending, .step_of_ends silent rfl ended (Runner.reply_aligned corrected) later,
      done, fun member => adopted ?_⟩
    exact (List.mem_cons.mp member).resolve_left nofun

/-- What the runner holds behind a state: the plan of the task code, or still an older one. -/
def Runner.planBehind (held plan : Plan) (state : State) : Plan :=
  if state = .idle then held else plan

/-- A responder that serves the script of a state has it carried out. -/
theorem Serves.carriesOut {state : State} {held : Plan}
    (written : state.script plan config.ringOffset = .ok script)
    (served : Serves config plan script world next) (unguarded : config.timeout = none)
    (near : config.alignment.Near) (ready : held = plan ∨ state = .idle ∨ state = .scanCode)
    (notes : List Journal.Note) :
    ∃ part last,
      Conversation ((Runner.mk config state held .resting).proceed .completed notes script) world
        part last next ∧
      script.Expands config plan part ∧
      last.runner = ⟨config, state.successor, Runner.planBehind held plan state, .resting⟩ ∧
      last.ending = some (.ok state.successor) := by
  have once := State.count_script_le written
  obtain ⟨part, last, ending, conversation, done, adopted⟩ :=
    served.conversation unguarded near once (.mk config state held .resting) rfl .completed notes
  have carried := conversation.carriesOut done once
  have arrived : last.runner.state = state.successor :=
    carried.state.trans (State.transition_event_script written)
  have fixed : last.runner.config = config :=
    conversation.config.trans (Runner.config_proceed ..)
  have ended : last.ending = some (.ok state.successor) := by rw [carried.ending, arrived]
  by_cases scanned : state = .scanCode
  · -- The script waits for the task code, and nothing behind that wait changes the plan again.
    subst scanned
    cases written
    have read : last.runner.plan = plan := adopted (by decide)
    refine ⟨part, last, conversation, read ▸ carried.expands, ?_, ended⟩
    have behind : Runner.planBehind held plan .scanCode = plan := rfl
    rw [behind, ← read, ← arrived, ← carried.resting, ← fixed]
  · -- The script leaves the plan alone, so it may as well be read with the plan of the task code.
    have unscanned := State.not_mem_script written scanned
    refine ⟨part, last, conversation, carried.expands.replan unscanned plan, ?_, ended⟩
    have behind : last.runner.plan = Runner.planBehind held plan state := by
      rw [carried.plan unscanned, Runner.planBehind]
      split
      next => rfl
      next started => exact ready.resolve_right (not_or.mpr ⟨started, scanned⟩)
    rw [← behind, ← arrived, ← carried.resting, ← fixed]

/-- A state whose script is served ends with the calls of the script. -/
theorem Serves.rehearse {state : State} {held : Plan}
    (written : state.script plan config.ringOffset = .ok script)
    (served : Serves config plan script world next) (unguarded : config.timeout = none)
    (near : config.alignment.Near) (ready : held = plan ∨ state = .idle ∨ state = .scanCode) :
    ∃ part notes, script.Expands config plan part ∧ Answered world part next ∧
      ∀ budget, part.length ≤ budget →
        (Runner.mk config state held .resting).rehearse world budget =
          .ok ⟨⟨config, state.successor, Runner.planBehind held plan state, .resting⟩, next,
            calls part, notes, some (.ok state.successor)⟩ := by
  obtain ⟨part, last, conversation, expands, behind, ended⟩ :=
    served.carriesOut written unguarded near ready [.stateEntered state]
  obtain ⟨notes, rehearsed⟩ := conversation.rehearse_ended ended
  refine ⟨part, notes, expands, conversation.answered, ?_⟩
  intro budget enough
  have readable : state.script held config.ringOffset = .ok script := by
    rcases ready with rfl | unread
    · exact written
    · exact (State.script_unread unread held plan).trans written
  let runner : Runner := ⟨config, state, held, .resting⟩
  have entered : runner.enter = .ok (runner.proceed .completed [.stateEntered state] script) :=
    bind_eq_ok_iff.mpr ⟨script, readable, rfl⟩
  rw [Runner.rehearse, entered, ← behind]
  exact rehearsed budget enough

end Unguarded

/-! ### Runs -/

def Plan.Scripts (plan : Plan) (offset : UInt8) (states : List State) (scripts : List Script) :
    Prop :=
  List.Forall₂ (fun state script => state.script plan offset = .ok script) states scripts

theorem Plan.exists_scripts {offset : UInt8} (offset_le : offset ≤ 252) (plan : Plan)
    (states : List State) : ∃ scripts, plan.Scripts offset states scripts := by
  induction states with
  | nil => exact ⟨[], .nil⟩
  | cons state states ih =>
    obtain ⟨script, written⟩ := State.exists_script offset_le state plan
    obtain ⟨scripts, later⟩ := ih
    exact ⟨script :: scripts, .cons written later⟩

/-- A runner goes through states, one by one, and carries out the script of each. -/
structure Runner.Runs (runner : Runner) (plan : Plan) (states : List State)
    (scripts : List Script) (world final : W) (parts : List (List Exchange))
    (rehearsals : List (Rehearsal W)) : Prop where
  expands : List.Forall₂ (Script.Expands runner.config plan) scripts parts
  answered : Answered world parts.flatten final
  rehearsed : ∀ budget, parts.flatten.length ≤ budget →
    runner.rehearseEach world budget states.length = .ok rehearsals
  traces : rehearsals.map Rehearsal.trace = parts.map calls
  endings : rehearsals.map Rehearsal.ending = states.map fun state => some (.ok state.successor)
  plans : List.Forall₂ (fun state rehearsal => state ≠ .idle → rehearsal.runner.plan = plan)
    states rehearsals

/-- A responder that serves the scripts one after another has the states run one after another. -/
theorem ServesEach.runs {config : Config} {plan held : Plan} {state : State} {count : Nat}
    {scripts : List Script} {world final : W}
    (written : plan.Scripts config.ringOffset (List.iterate State.successor state count) scripts)
    (served : ServesEach config plan scripts world final) (unguarded : config.timeout = none)
    (near : config.alignment.Near) (ready : held = plan ∨ state = .idle ∨ state = .scanCode) :
    ∃ parts rehearsals, (Runner.mk config state held .resting).Runs plan
      (List.iterate State.successor state count) scripts world final parts rehearsals := by
  induction count generalizing state held scripts world with
  | zero =>
    cases written
    cases served
    exact ⟨[], [], .nil, .nil, fun _ _ => rfl, rfl, rfl, .nil⟩
  | succ count ih =>
    rw [List.iterate] at written ⊢
    obtain _ | @⟨_, script, _, scripts, written, others⟩ := written
    obtain _ | @⟨_, _, _, next, _, served, onward⟩ := served
    obtain ⟨part, notes, expands, answered, rehearsed⟩ :=
      served.rehearse written unguarded near ready
    have readyNext : Runner.planBehind held plan state = plan ∨
        state.successor = .idle ∨ state.successor = .scanCode := by
      by_cases started : state = .idle
      · subst started
        exact .inr (.inr rfl)
      · exact .inl (if_neg started)
    obtain ⟨parts, rehearsals, later⟩ := ih others onward readyNext
    refine ⟨part :: parts,
      ⟨⟨config, state.successor, Runner.planBehind held plan state, .resting⟩, next, calls part,
        notes, some (.ok state.successor)⟩ :: rehearsals, ?_⟩
    refine ⟨.cons expands later.expands, answered.append later.answered, ?_,
      congrArg (List.cons _) later.traces, congrArg (List.cons _) later.endings,
      .cons (fun started => if_neg started) later.plans⟩
    intro budget enough
    rw [List.flatten_cons, List.length_append] at enough
    rw [List.length_cons, Runner.rehearseEach, rehearsed budget (by omega)]
    simp only [bind, Except.bind, later.rehearsed budget (by omega)]
    rfl

/-- A complete run is exactly its scripts: a served runner goes through all states, back to the
first, and the calls of each state are those that its script comes down to. From the scan on, the
plan is that of the first token that is a task code. -/
theorem run_eq_scripts {config : Config} {old plan : Plan} {world : W}
    (unguarded : config.timeout = none) (offset_le : config.ringOffset ≤ 252)
    (near : config.alignment.Near)
    (served : ∀ scripts, plan.Scripts config.ringOffset State.all scripts →
      ∃ final, ServesEach config plan scripts world final) :
    ∃ scripts parts rehearsals final, plan.Scripts config.ringOffset State.all scripts ∧
      (Runner.mk config .idle old .resting).Runs plan State.all scripts world final parts
        rehearsals := by
  obtain ⟨scripts, written⟩ := plan.exists_scripts offset_le State.all
  obtain ⟨final, served⟩ := served scripts written
  have all : State.all = List.iterate State.successor .idle 18 := by decide
  rw [all] at written ⊢
  obtain ⟨parts, rehearsals, runs⟩ := served.runs written unguarded near (.inr (.inl rfl))
  exact ⟨scripts, parts, rehearsals, final, written, runs⟩

/-! ### Scripted worlds that serve -/

/-- Scripts that are served one after the other are served as one. -/
theorem Serves.append {config : Config} {plan : Plan} {script later : Script}
    {world next final : W} (first : Serves config plan script world next)
    (second : Serves config plan later next final) :
    Serves config plan (script ++ later) world final := by
  induction first with
  | nil => exact second
  | single one ended _ ih => exact .single one ended (ih second)
  | rejected ended unread _ ih => exact .rejected ended unread (ih second)
  | accepted ended read _ ih => exact .accepted ended read (ih second)
  | nudged ended frame outside drove paused _ ih =>
    exact .nudged ended frame outside drove paused (ih second)
  | aligned ended frame inside _ ih => exact .aligned ended frame inside (ih second)

namespace World

variable {config : Config} {world : World}

/-- Every call ends but the wait for a start or a token, and a ring is seen in its place once the
other sightings are used up. -/
structure Ample (config : Config) (world : World) : Prop where
  drives : world.drives = none
  arms : world.arms = none
  targets : world.targets = none
  framed : ∀ place ∈ world.sightings, Alignment.InFrame place.1 place.2
  settled : ∃ x y, world.defaultSighting = some (x, y) ∧ Alignment.InFrame x y ∧
    config.alignment.Inside x y

/-- An ample world answers the call of a plain action and stays as it is. -/
theorem Ample.single (ample : world.Ample config) {action : Action} {call : Call}
    (one : action.single? = some call) (plain : action.isPlain = true) :
    Responder.Ends world call .done world := by
  obtain ⟨starts, tokens, sightings, default, drives, arms, targets⟩ := world
  obtain ⟨rfl, rfl, rfl, _, _⟩ := ample
  cases action with
  | awaitStart => cases plain
  | awaitScan | align => cases one
  | _ =>
    cases one
    rfl

/-- An ample world lets an alignment come to its end, at the cost of its sightings. -/
theorem Ample.align (ample : world.Ample config) (plan : Plan) (approach : Approach) :
    ∃ next : World, next.Ample config ∧ Serves config plan [.align approach] world next := by
  obtain ⟨starts, tokens, sightings, default, drives, arms, targets⟩ := world
  obtain ⟨rfl, rfl, rfl, framed, ⟨x, y, rfl, frame, inside⟩⟩ := ample
  have settled : ∃ a b, some (x, y) = some (a, b) ∧ Alignment.InFrame a b ∧
    config.alignment.Inside a b := ⟨x, y, rfl, frame, inside⟩
  induction sightings with
  | nil => exact ⟨_, ⟨rfl, rfl, rfl, framed, settled⟩, .aligned rfl frame inside .nil⟩
  | cons place rest ih =>
    obtain ⟨here, later⟩ := List.forall_mem_cons.mp framed
    by_cases within : config.alignment.Inside place.1 place.2
    · exact ⟨_, ⟨rfl, rfl, rfl, later, settled⟩, .aligned rfl here within .nil⟩
    · obtain ⟨next, ample, served⟩ := ih later
      exact ⟨next, ample, .nudged rfl here within rfl rfl served⟩

/-- An ample world serves every plain script. -/
theorem Ample.serves (ample : world.Ample config) (plan : Plan) {script : Script}
    (plain : ∀ action ∈ script, action.isPlain = true) :
    ∃ next : World, next.Ample config ∧ Serves config plan script world next := by
  induction script generalizing world with
  | nil => exact ⟨world, ample, .nil⟩
  | cons action rest ih =>
    obtain ⟨here, later⟩ := List.forall_mem_cons.mp plain
    cases one : action.single? with
    | some call =>
      obtain ⟨next, ampleNext, served⟩ := ih ample later
      exact ⟨next, ampleNext, .single one (ample.single one here) served⟩
    | none =>
      cases action with
      | awaitScan => cases here
      | align approach =>
        obtain ⟨between, ample, aligned⟩ := ample.align plan approach
        obtain ⟨next, ampleNext, served⟩ := ih ample later
        exact ⟨next, ampleNext, aligned.append served⟩
      | _ => cases one

/-- An ample world serves the scripts of all states but the first two. -/
theorem Ample.servesEach (ample : world.Ample config) {plan : Plan} {offset : UInt8}
    {states : List State} {scripts : List Script} (written : plan.Scripts offset states scripts)
    (beyond : ∀ state ∈ states, state ≠ .idle ∧ state ≠ .scanCode) :
    ∃ next, ServesEach config plan scripts world next := by
  induction written generalizing world with
  | nil => exact ⟨world, .nil⟩
  | cons made _ ih =>
    obtain ⟨⟨started, scanned⟩, later⟩ := List.forall_mem_cons.mp beyond
    obtain ⟨between, ample, served⟩ :=
      ample.serves plan (State.plain_of_script made started scanned)
    obtain ⟨next, onward⟩ := ih ample later
    exact ⟨next, .cons served onward⟩

/-- The wait for a scan passes over the tokens before the first task code. -/
theorem serves_scan {plan : Plan} {code : Scanner.Token} {others : List Scanner.Token}
    (unread : ∀ token ∈ others, ∃ error, Plan.parse token = .error error)
    (read : Plan.parse code = .ok plan) (later : List Scanner.Token) (world : World) :
    Serves config plan [.awaitScan] { world with tokens := others ++ code :: later }
      { world with tokens := later } := by
  induction others with
  | nil => exact .accepted rfl read .nil
  | cons token others ih =>
    obtain ⟨⟨error, bad⟩, unread⟩ := List.forall_mem_cons.mp unread
    exact .rejected rfl bad (ih unread)

/-- An ample world with a start and a task code in store serves a run. -/
theorem Ample.servesRun {starts : Nat} {code : Scanner.Token} {others later : List Scanner.Token}
    {plan : Plan} {offset : UInt8} {scripts : List Script} (ample : world.Ample config)
    (started : world.starts = starts + 1) (stored : world.tokens = others ++ code :: later)
    (unread : ∀ token ∈ others, ∃ error, Plan.parse token = .error error)
    (read : Plan.parse code = .ok plan) (written : plan.Scripts offset State.all scripts) :
    ∃ final, ServesEach config plan scripts world final := by
  obtain _ | ⟨idle, _ | ⟨scanCode, written⟩⟩ := written
  cases idle
  cases scanCode
  obtain ⟨_, _, sightings, default, drives, arms, targets⟩ := world
  cases started
  cases stored
  have restocked : (World.mk starts later sightings default drives arms targets).Ample config :=
    ⟨ample.drives, ample.arms, ample.targets, ample.framed, ample.settled⟩
  obtain ⟨final, onward⟩ := restocked.servesEach written (by decide)
  cases ample.drives
  have scanned : Serves config plan [.awaitScan] _ _ := serves_scan unread read later
    ⟨starts, [], sightings, default, none, arms, targets⟩
  exact ⟨final, .cons (.single rfl rfl .nil) (.cons (.single rfl rfl (.single rfl rfl
    (.single rfl rfl scanned))) onward)⟩

theorem oneRun_ample : oneRun.Ample {} :=
  ⟨rfl, rfl, rfl, by decide, 160, 140, rfl, by decide, by decide⟩

end World

/-- A run with a token that is no code, two nudges at the first ring, and a plan of its own. -/
theorem run_eq_scripts_oneRun :
    ∃ scripts parts rehearsals final,
      (Plan.mk ⟨.blue, .green, .red⟩ ⟨.red, .green, .blue⟩).Scripts 3 State.all scripts ∧
        (Runner.new {}).Runs ⟨⟨.blue, .green, .red⟩, ⟨.red, .green, .blue⟩⟩ State.all scripts
          World.oneRun final parts rehearsals := by
  have unread : ∀ token ∈ ([[49, 50]] : List Scanner.Token),
      ∃ error, Plan.parse token = .error error := by
    intro token member
    cases List.mem_singleton.mp member
    exact ⟨_, rfl⟩
  have near : ({} : Alignment).Near := ⟨by decide, by decide, by decide, by decide⟩
  exact run_eq_scripts rfl (by decide) near fun scripts written =>
    World.oneRun_ample.servesRun rfl rfl unread rfl written

end Mecanum.Mission
