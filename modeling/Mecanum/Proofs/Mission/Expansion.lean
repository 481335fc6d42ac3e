import Mecanum.Proofs.Mission.Alignment
import Mecanum.Proofs.Mission.Conversation
import Mecanum.Proofs.Mission.Script

/-!
# What a script comes down to

Most actions are one call. The wait for a scan is one call for each token, up to the first that is a
task code. An alignment is a look, a nudge and a pause for each sighting out of place, and then one
look more. The runner keeps to this: a conversation that ends a state is an expansion of the
script, and it leads along the event that the script stands for.
-/
namespace Mecanum.Mission

/-- The call of an action that is one call. -/
def Action.single? : Action → Option Call
  | awaitStart => some .awaitStart
  | rezeroHeading => some .rezero
  | drive command => some (.drive command)
  | arm task => some (.arm task)
  | settle ms => some (.pause ms)
  | awaitTarget color => some (.awaitTarget color.id)
  | awaitScan | align _ => none

/-- The exchanges that a script comes down to, if the task code that is scanned reads as `plan`. -/
inductive Script.Expands (config : Config) (plan : Plan) : Script → List Exchange → Prop
  | nil : Expands config plan [] []
  | single {action : Action} {call : Call} {rest : Script} {later : List Exchange}
      (one : action.single? = some call) (onward : Expands config plan rest later) :
      Expands config plan (action :: rest) (⟨call, .done⟩ :: later)
  | rejected {token : Scanner.Token} {error : CodeError} {rest : Script} {later : List Exchange}
      (unread : Plan.parse token = .error error)
      (onward : Expands config plan (.awaitScan :: rest) later) :
      Expands config plan (.awaitScan :: rest) (⟨.awaitToken, .token token⟩ :: later)
  | accepted {token : Scanner.Token} {rest : Script} {later : List Exchange}
      (read : Plan.parse token = .ok plan) (onward : Expands config plan rest later) :
      Expands config plan (.awaitScan :: rest) (⟨.awaitToken, .token token⟩ :: later)
  | nudged {approach : Approach} {x y : Int} {command : Motion.Command} {rest : Script}
      {later : List Exchange} (outside : ¬config.alignment.Inside x y)
      (corrected : config.alignment.correction x y approach.speed approach.distance =
        .ok (some command))
      (onward : Expands config plan (.align approach :: rest) later) :
      Expands config plan (.align approach :: rest)
        (⟨.sight approach.ring, .position x y⟩ :: ⟨.drive command, .done⟩ ::
          ⟨.pause config.alignSettle, .done⟩ :: later)
  | aligned {approach : Approach} {x y : Int} {rest : Script} {later : List Exchange}
      (inside : config.alignment.Inside x y) (onward : Expands config plan rest later) :
      Expands config plan (.align approach :: rest)
        (⟨.sight approach.ring, .position x y⟩ :: later)

/-- Without a wait for a scan, the plan does not matter. -/
theorem Script.Expands.replan {config : Config} {plan : Plan} {script : Script}
    {exchanges : List Exchange} (expands : script.Expands config plan exchanges)
    (unscanned : .awaitScan ∉ script) (other : Plan) : script.Expands config other exchanges := by
  induction expands with
  | nil => exact .nil
  | single one _ ih => exact .single one (ih fun later => unscanned (List.mem_cons_of_mem _ later))
  | rejected => exact absurd List.mem_cons_self unscanned
  | accepted => exact absurd List.mem_cons_self unscanned
  | nudged outside corrected _ ih => exact .nudged outside corrected (ih unscanned)
  | aligned inside _ ih =>
    exact .aligned inside (ih fun later => unscanned (List.mem_cons_of_mem _ later))

/-! ### Scripts carried out -/

/-- The runner behind a script that has been carried out. -/
structure Runner.CarriesOut (runner : Runner) (event : Event) (script : Script)
    (exchanges : List Exchange) (last : Progress) : Prop where
  expands : script.Expands runner.config last.runner.plan exchanges
  state : last.runner.state = runner.state.transition (script.event event)
  ending : last.ending = some (.ok last.runner.state)
  resting : last.runner.activity = .resting
  plan : .awaitScan ∉ script → last.runner.plan = runner.plan

namespace Runner

variable {runner : Runner} {event : Event} {notes : List Journal.Note} {action : Action}
  {rest : Script} {call : Call}

/-- Turns to an action with `rest` behind it. -/
def facing (runner : Runner) (action : Action) (rest : Script) (event : Event) : Runner :=
  { runner with activity := .busy (.action action) rest event }

theorem call?_facing_single (one : action.single? = some call) :
    (runner.facing action rest event).call? = some call := by
  cases action <;> cases one <;> rfl

theorem reply_facing_single (runner : Runner) (rest : Script) (event : Event)
    (one : action.single? = some call) :
    ∃ notes, (runner.facing action rest event).reply .done =
      .ok ((runner.facing action rest event).proceed (action.leave event) notes rest) := by
  cases action <;> cases one <;> exact ⟨_, rfl⟩

theorem admits_single {reply : Reply} (one : action.single? = some call)
    (admitted : call.Admits reply) : reply = .done := by
  cases action <;> cases one <;> exact admitted

theorem ne_awaitScan_of_single (one : action.single? = some call) : action ≠ .awaitScan := by
  cases action <;> cases one <;> nofun

end Runner

variable {W : Type} [Responder W]

namespace Conversation

variable {runner : Runner} {event : Event} {notes : List Journal.Note} {script : Script}
  {world final : W} {exchanges : List Exchange} {last : Progress} {ending : Ending}

/-- Behind a nudge and a pause, the alignment is back at its first look. -/
theorem backToLook {approach : Approach} {command : Motion.Command} {rest : Script}
    (conversation : Conversation (runner.turnTo (.nudge approach command) rest event notes) world
      exchanges last final)
    (ended : last.ending = some ending) :
    ∃ later between, exchanges =
        ⟨.drive command, .done⟩ :: ⟨.pause runner.config.alignSettle, .done⟩ :: later ∧
      Conversation (runner.proceed event [] (.align approach :: rest)) between later last
        final := by
  obtain ⟨_, _, _, _, _, rfl, waiting, admitted, onward, conversation⟩ :=
    conversation.next rfl ended
  cases waiting
  cases admitted
  cases onward
  obtain ⟨_, _, between, _, later, rfl, waiting, admitted, onward, conversation⟩ :=
    conversation.next rfl ended
  cases waiting
  cases admitted
  cases onward
  exact ⟨later, between, rfl, conversation⟩

/-- A conversation that ends a state has carried its script out. The induction is on the number of
exchanges, for a rejected token and a nudge leave the script as it was. -/
theorem carriesOut
    (conversation : Conversation (runner.proceed event notes script) world exchanges last final)
    (ended : last.ending = some ending) (once : script.count .awaitScan ≤ 1) :
    runner.CarriesOut event script exchanges last := by
  induction size : exchanges.length using Nat.strongRecOn
    generalizing runner event notes script world exchanges with
  | ind size ih =>
    cases script with
    | nil =>
      obtain ⟨rfl, rfl, rfl⟩ := conversation.eq_of_ended rfl
      exact ⟨.nil, rfl, rfl, rfl, fun _ => rfl⟩
    | cons action rest =>
      obtain ⟨call, reply, between, next, more, rfl, waiting, admitted, onward, later⟩ :=
        conversation.next rfl ended
      rw [List.length_cons] at size
      cases one : action.single? with
      | some single =>
        cases (Runner.call?_facing_single one).symm.trans waiting
        cases Runner.admits_single one admitted
        obtain ⟨reported, replied⟩ := Runner.reply_facing_single runner rest event one
        cases replied.symm.trans onward
        rw [List.count_cons_of_ne (Runner.ne_awaitScan_of_single one)] at once
        have carried := ih more.length (by omega) later once rfl
        exact ⟨.single one carried.expands, carried.state, carried.ending, carried.resting,
          fun unscanned => carried.plan fun member =>
            unscanned (List.mem_cons_of_mem _ member)⟩
      | none =>
        cases action with
        | awaitScan =>
          cases waiting
          obtain ⟨token, rfl⟩ := admitted
          cases onward
          rw [Runner.takeToken] at later
          split at later
          next scanned read =>
            -- No other scan lies behind this one, so its plan is the plan at the end.
            rw [List.count_cons_self] at once
            have unscanned : .awaitScan ∉ rest := List.count_eq_zero.mp (by omega)
            have carried := ih more.length (by omega) later (by omega) rfl
            have adopted : last.runner.plan = scanned := carried.plan unscanned
            exact ⟨.accepted (adopted ▸ read) carried.expands, carried.state, carried.ending,
              carried.resting, fun unscanned => absurd List.mem_cons_self unscanned⟩
          next error unread =>
            have again : Conversation ((runner.facing .awaitScan rest event).proceed event
                [.tokenRejected error] (.awaitScan :: rest)) between more last final := later
            have carried := ih more.length (by omega) again once rfl
            exact ⟨.rejected unread carried.expands, carried.state, carried.ending,
              carried.resting, carried.plan⟩
        | align approach =>
          cases waiting
          obtain ⟨x, y, rfl⟩ := admitted
          obtain ⟨nudge, corrected, produced⟩ := bind_eq_ok_iff.mp onward
          have inside := Alignment.correction_eq_ok corrected
          cases nudge with
          | none =>
            cases produced
            have carried := ih more.length (by omega) later once rfl
            exact ⟨.aligned (inside.mp rfl) carried.expands, carried.state, carried.ending,
              carried.resting, fun unscanned => carried.plan fun member =>
                unscanned (List.mem_cons_of_mem _ member)⟩
          | some command =>
            cases produced
            obtain ⟨back, _, rfl, again⟩ := later.backToLook ended
            rw [List.length_cons, List.length_cons] at size
            have carried := ih back.length (by omega) again once rfl
            have outside : ¬runner.config.alignment.Inside x y := fun within => by
              cases inside.mpr within
            exact ⟨.nudged outside corrected carried.expands, carried.state, carried.ending,
              carried.resting, carried.plan⟩
        | _ => cases one

end Conversation

/-- A state that ends well has carried its script out, with or without a time limit. -/
theorem Runner.carriesOut_of_rehearse {runner : Runner} {world : W} {budget : Nat}
    {rehearsal : Rehearsal W} {next : State}
    (rehearsed : runner.rehearse world budget = .ok rehearsal)
    (ended : rehearsal.ending = some (.ok next)) :
    ∃ script exchanges last, runner.state.script runner.plan runner.config.ringOffset = .ok script ∧
      runner.CarriesOut .completed script exchanges last ∧ rehearsal.runner = last.runner ∧
      rehearsal.trace = calls exchanges := by
  obtain ⟨start, entered, rehearsed⟩ := bind_eq_ok_iff.mp rehearsed
  obtain ⟨script, written, produced⟩ := bind_eq_ok_iff.mp entered
  cases produced
  obtain ⟨exchanges, last, concluded⟩ | ⟨_, _, _, _, _, _, expired⟩ :=
    Progress.rehearse_returned rehearsed ended
  · have carried := concluded.conversation.carriesOut (concluded.ending.symm.trans ended)
      (State.count_script_le written)
    exact ⟨script, exchanges, last, written, carried, concluded.runner, concluded.trace⟩
  · cases expired.ending.symm.trans ended

/-- It leads to the successor of the state. -/
theorem Runner.CarriesOut.state_eq_successor {runner : Runner} {script : Script}
    {exchanges : List Exchange} {last : Progress}
    (carried : runner.CarriesOut .completed script exchanges last)
    (written : runner.state.script runner.plan runner.config.ringOffset = .ok script) :
    last.runner.state = runner.state.successor :=
  carried.state.trans (State.transition_event_script written)

end Mecanum.Mission
