import Mecanum.Mission.Rehearsal
import Mecanum.Proofs.Mission.Runner

/-!
# Conversations

While every call ends with a reply, a rehearsal is a conversation: the calls in their order, each
with its reply. A rehearsal whose state ends has been such a conversation, either to the end of the
script or up to the first call whose watchdog ran out; from there on it halts the chassis and does
nothing else.
-/
namespace Mecanum.Mission

/-- A world for one run: it shows a token that is no code before one that is, and two sightings out
of place. -/
def World.oneRun : World :=
  ⟨1, [[49, 50], [51, 50, 49, 43, 49, 50, 51]], [(200, 140), (160, 300)], some (160, 140), none,
    none, none⟩

variable {W : Type}

/-! ### How a wait ends -/

/-- Whether a reply has the form that a call asks for. -/
def Call.Admits : Call → Reply → Prop
  | awaitToken, reply => ∃ token, reply = .token token
  | sight _, reply => ∃ x y, reply = .position x y
  | _, reply => reply = .done

namespace Looks

/-- The delay is over at some poll up to which the wait is not. -/
def Overdue (looks : Looks W Reply) (next : W) : Prop :=
  ∃ before after, looks = before ++ ⟨none, true, next⟩ :: after ∧ ∀ look ∈ before, look.Idle

/-- The wait is over at some poll before which the delay is not. At that very poll it may be. -/
def InTime (looks : Looks W Reply) : Prop :=
  ∃ before reply rung next after, looks = before ++ ⟨some reply, rung, next⟩ :: after ∧
    ∀ look ∈ before, look.Idle

end Looks

namespace Outcome

/-- A reply comes from some look at the wait. -/
theorem look_of_replied {guarded : Bool} {looks : Looks W Reply} {reply : Reply} {next : W}
    (replied : ofLooks guarded looks = .replied reply next) :
    ∃ look ∈ looks, look.answer = some reply ∧ look.world = next := by
  induction looks with
  | nil => cases replied
  | cons look rest ih =>
    rw [ofLooks] at replied
    split at replied
    next answer found =>
      cases replied
      exact ⟨look, List.mem_cons_self, found, rfl⟩
    next =>
      split at replied
      · cases replied
      · obtain ⟨later, member, found⟩ := ih replied
        exact ⟨later, List.mem_cons_of_mem _ member, found⟩

/-- A wait without a watchdog never expires. -/
theorem ofLooks_unguarded (looks : Looks W Reply) (next : W) :
    ofLooks false looks ≠ .expired next := by
  induction looks with
  | nil => nofun
  | cons look rest ih =>
    rw [ofLooks]
    split
    · nofun
    · exact ih

/-- A watchdog can only end a wait earlier. -/
theorem replied_unguarded {guarded : Bool} {looks : Looks W Reply} {reply : Reply} {next : W}
    (replied : ofLooks guarded looks = .replied reply next) :
    ofLooks false looks = .replied reply next := by
  induction looks with
  | nil => cases replied
  | cons look rest ih =>
    rw [ofLooks] at replied ⊢
    split at replied
    next => exact replied
    next =>
      split at replied
      · cases replied
      · exact ih replied

/-- The watchdog runs out exactly if its delay is over at some poll up to which the wait is not. -/
theorem expired_iff {looks : Looks W Reply} {next : W} :
    ofLooks true looks = .expired next ↔ looks.Overdue next := by
  constructor
  · intro expired
    induction looks with
    | nil => cases expired
    | cons look rest ih =>
      obtain ⟨answer, rung, world⟩ := look
      cases answer with
      | some reply => cases expired
      | none =>
        cases rung with
        | true =>
          cases expired
          exact ⟨[], rest, rfl, by simp⟩
        | false =>
          obtain ⟨before, after, rfl, idle⟩ := ih expired
          refine ⟨⟨none, false, world⟩ :: before, after, rfl, ?_⟩
          intro look member
          rcases List.mem_cons.mp member with rfl | member
          · exact ⟨rfl, rfl⟩
          · exact idle look member
  · rintro ⟨before, after, rfl, idle⟩
    induction before with
    | nil => rfl
    | cons look rest ih =>
      obtain ⟨unanswered, unrung⟩ := idle look List.mem_cons_self
      rw [List.cons_append, ofLooks, unanswered, unrung]
      exact ih fun later member => idle later (List.mem_cons_of_mem _ member)

/-- A wait that is over in time is replied to, with a watchdog or without. -/
theorem replied_of_inTime {looks : Looks W Reply} (inTime : looks.InTime) (guarded : Bool) :
    ∃ reply next, ofLooks guarded looks = .replied reply next := by
  obtain ⟨before, reply, rung, next, after, rfl, idle⟩ := inTime
  refine ⟨reply, next, ?_⟩
  induction before with
  | nil => rfl
  | cons look rest ih =>
    obtain ⟨unanswered, unrung⟩ := idle look List.mem_cons_self
    rw [List.cons_append, ofLooks, unanswered, unrung, Bool.and_false]
    exact ih fun later member => idle later (List.mem_cons_of_mem _ member)

/-- A wait on a call is answered in the form that the call asks for. -/
theorem admits [Responder W] {guarded : Bool} {world next : W} {call : Call} {reply : Reply}
    (replied : ofLooks guarded (Responder.looks world call) = .replied reply next) :
    call.Admits reply := by
  obtain ⟨look, member, found, _⟩ := look_of_replied replied
  cases call <;>
    simp only [Responder.looks, Looks.map, Looks.now, List.mem_map, List.mem_singleton] at member
  all_goals
    first
    | (subst member; cases found; rfl)
    | (obtain ⟨inner, _, rfl⟩ := member
       simp only [Look.map, Option.map_eq_some_iff] at found
       obtain ⟨answer, _, rfl⟩ := found
       first | rfl | exact ⟨_, rfl⟩ | exact ⟨_, _, rfl⟩)

end Outcome

/-! ### Conversations -/

/-- A call with the reply to it. -/
structure Exchange where
  call : Call
  reply : Reply
deriving DecidableEq

variable [Responder W]

/-- The runner and the responder get from one place to another by calls that are replied to. -/
inductive Conversation : Progress → W → List Exchange → Progress → W → Prop
  | done {progress : Progress} {world : W} : Conversation progress world [] progress world
  | step {progress next last : Progress} {world between final : W} {call : Call} {reply : Reply}
      {rest : List Exchange} (going : progress.ending = none)
      (waiting : progress.runner.call? = some call)
      (replied : progress.runner.outcome world call = .replied reply between)
      (onward : progress.runner.reply reply = .ok next)
      (later : Conversation next between rest last final) :
      Conversation progress world (⟨call, reply⟩ :: rest) last final

namespace Conversation

variable {progress last : Progress} {world final : W} {exchanges : List Exchange}

theorem append {middle : Progress} {between : W} {more : List Exchange}
    (first : Conversation progress world exchanges middle between)
    (second : Conversation middle between more last final) :
    Conversation progress world (exchanges ++ more) last final := by
  induction first with
  | done => exact second
  | step going waiting replied onward _ ih => exact .step going waiting replied onward (ih second)

/-- A conversation past a place where the state has not ended has a next exchange. -/
theorem next {ending : Ending} (conversation : Conversation progress world exchanges last final)
    (going : progress.ending = none) (ended : last.ending = some ending) :
    ∃ call reply between next rest, exchanges = ⟨call, reply⟩ :: rest ∧
      progress.runner.call? = some call ∧ call.Admits reply ∧
      progress.runner.reply reply = .ok next ∧ Conversation next between rest last final := by
  cases conversation with
  | done =>
    rw [going] at ended
    cases ended
  | step _ waiting replied onward later =>
    exact ⟨_, _, _, _, _, rfl, waiting, Outcome.admits replied, onward, later⟩

/-- A conversation stops where the state has ended. -/
theorem eq_of_ended {ending : Ending}
    (conversation : Conversation progress world exchanges last final)
    (ended : progress.ending = some ending) :
    exchanges = [] ∧ last = progress ∧ final = world := by
  cases conversation with
  | done => exact ⟨rfl, rfl, rfl⟩
  | step going =>
    rw [going] at ended
    cases ended

theorem config (conversation : Conversation progress world exchanges last final) :
    last.runner.config = progress.runner.config := by
  induction conversation with
  | done => rfl
  | step _ _ _ onward _ ih => exact ih.trans (Runner.config_reply onward)

end Conversation

/-! ### Rehearsals of conversations -/

namespace Rehearsal

variable {trace later : List Call} {notes more : List Journal.Note}

omit [Responder W] in
theorem after_after (rehearsal : Rehearsal W) :
    (rehearsal.after later more).after trace notes =
      rehearsal.after (trace ++ later) (notes ++ more) := by
  simp only [after, List.append_assoc]

end Rehearsal

namespace Runner

variable {runner : Runner} {world between : W} {call : Call}

omit [Responder W] in
theorem timeLimit?_of_guard {kind : WaitKind} (waiting : runner.call? = some call)
    (guard : call.guard? = some kind) : runner.timeLimit? = runner.config.timeout := by
  simp only [timeLimit?, waiting, guard, Option.isSome_some, ↓reduceIte]

theorem consult_of_replied {reply : Reply}
    (replied : runner.outcome world call = .replied reply between) :
    runner.consult world call = ([call], some (reply, between)) := by
  rw [consult, replied]

theorem consult_of_hung (hung : runner.outcome world call = .hung) :
    runner.consult world call = ([call], none) := by
  rw [consult, hung]

theorem consult_of_expired {limit : UInt32} (limited : runner.timeLimit? = some limit)
    (expired : runner.outcome world call = .expired between) :
    runner.consult world call = ([call, .pause limit], some (.expired, between)) := by
  rw [consult, expired, limited]
  rfl

/-- Only a guarded call expires. -/
theorem guard_of_expired (waiting : runner.call? = some call)
    (expired : runner.outcome world call = .expired between) :
    ∃ kind limit, call.guard? = some kind ∧ runner.config.timeout = some limit := by
  have limited : runner.timeLimit?.isSome = true := by
    cases guarded : runner.timeLimit?.isSome with
    | true => rfl
    | false =>
      rw [outcome, guarded] at expired
      exact absurd expired (Outcome.ofLooks_unguarded _ _)
  simp only [timeLimit?, waiting] at limited
  split at limited
  next guarded =>
    obtain ⟨kind, guard⟩ := Option.isSome_iff_exists.mp guarded
    obtain ⟨limit, timeout⟩ := Option.isSome_iff_exists.mp limited
    exact ⟨kind, limit, guard, timeout⟩
  next => cases limited

omit [Responder W] in
theorem reply_expired {kind : WaitKind} (waiting : runner.call? = some call)
    (guard : call.guard? = some kind) :
    ∃ event, runner.reply .expired = .ok (runner.turnTo (.abort ⟨kind⟩) [] event []) := by
  obtain ⟨job, rest, event, busy, rfl⟩ := busy_of_call? waiting
  exact ⟨event, by simp only [reply, busy, expire, guard]⟩

end Runner

namespace Progress

variable {progress next : Progress} {world between : W}

theorem rehearse_of_ended {ending : Ending} (ended : progress.ending = some ending) (world : W)
    (budget : Nat) : progress.rehearse world budget =
      .ok ⟨progress.runner, world, [], progress.notes, some ending⟩ := by
  rw [rehearse.eq_def, ended]

theorem rehearse_zero (going : progress.ending = none) (world : W) : progress.rehearse world 0 =
    .ok ⟨progress.runner.abandon, world, [], progress.notes, none⟩ := by
  rw [rehearse.eq_def, going]

theorem rehearse_of_silent (going : progress.ending = none)
    (silent : progress.runner.call? = none) (world : W) (budget : Nat) :
    progress.rehearse world (budget + 1) =
      .ok ⟨progress.runner, world, [], progress.notes, none⟩ := by
  rw [rehearse.eq_def]
  simp only [going, silent]

theorem rehearse_of_hung {call : Call} {trace : List Call} (going : progress.ending = none)
    (waiting : progress.runner.call? = some call)
    (consulted : progress.runner.consult world call = (trace, none)) (budget : Nat) :
    progress.rehearse world (budget + 1) =
      .ok ⟨progress.runner.abandon, world, trace, progress.notes, none⟩ := by
  rw [rehearse.eq_def]
  simp only [going, waiting, consulted]

/-- A rehearsal goes on behind the reply to its first call. -/
theorem rehearse_of_consulted {call : Call} {trace : List Call} {reply : Reply}
    (going : progress.ending = none) (waiting : progress.runner.call? = some call)
    (consulted : progress.runner.consult world call = (trace, some (reply, between)))
    (onward : progress.runner.reply reply = .ok next) (budget : Nat) :
    progress.rehearse world (budget + 1) =
      (next.rehearse between budget).map (.after trace progress.notes) := by
  rw [rehearse.eq_def]
  simp only [going, waiting, consulted, onward]
  change (next.rehearse between budget >>= fun rehearsal =>
    pure (rehearsal.after trace progress.notes)) = _
  cases next.rehearse between budget <;> rfl

/-- A rehearsal behind a reply is the rest of one that began with it. -/
theorem rehearse_behind {call : Call} {trace : List Call} {reply : Reply} {budget : Nat}
    {rehearsal : Rehearsal W} (going : progress.ending = none)
    (waiting : progress.runner.call? = some call)
    (consulted : progress.runner.consult world call = (trace, some (reply, between)))
    (rehearsed : progress.rehearse world (budget + 1) = .ok rehearsal) :
    ∃ next, progress.runner.reply reply = .ok next ∧ ∃ inner,
      next.rehearse between budget = .ok inner ∧ inner.after trace progress.notes = rehearsal := by
  cases onward : progress.runner.reply reply with
  | error fault =>
    rw [rehearse.eq_def] at rehearsed
    simp only [going, waiting, consulted, onward] at rehearsed
    cases rehearsed
  | ok next =>
    rw [rehearse_of_consulted going waiting consulted onward] at rehearsed
    exact ⟨next, rfl, map_eq_ok_iff.mp rehearsed⟩

/-- When a watchdog runs out, the chassis is halted and the mission is back at its beginning. -/
theorem rehearse_of_expired {call : Call} {kind : WaitKind} {limit : UInt32}
    (going : progress.ending = none) (waiting : progress.runner.call? = some call)
    (guard : call.guard? = some kind) (limited : progress.runner.config.timeout = some limit)
    (expired : progress.runner.outcome world call = .expired between) :
    ∃ notes, ∀ budget, progress.rehearse world (budget + 2) =
      .ok ⟨.new progress.runner.config, Responder.halt between, [call, .pause limit, .halt], notes,
        some (.error ⟨kind⟩)⟩ := by
  have timed := (Runner.timeLimit?_of_guard waiting guard).trans limited
  have consulted := Runner.consult_of_expired timed expired
  obtain ⟨event, aborting⟩ := Runner.reply_expired waiting guard
  refine ⟨progress.notes ++ ([] ++ [.missionAborted ⟨kind⟩ progress.runner.state]),
    fun budget => ?_⟩
  have halted : (progress.runner.turnTo (.abort ⟨kind⟩) [] event []).runner.consult between .halt =
      ([.halt], some (.done, Responder.halt between)) := rfl
  rw [rehearse_of_consulted going waiting consulted aborting,
    rehearse_of_consulted rfl rfl halted rfl, rehearse_of_ended rfl]
  rfl

/-- With a budget of one call, a watchdog can run out, but the chassis is not halted any more. -/
theorem rehearse_of_expired_once {call : Call} {kind : WaitKind} {limit : UInt32}
    (going : progress.ending = none) (waiting : progress.runner.call? = some call)
    (guard : call.guard? = some kind) (limited : progress.runner.config.timeout = some limit)
    (expired : progress.runner.outcome world call = .expired between) :
    ∃ rehearsal, progress.rehearse world 1 = .ok rehearsal ∧ rehearsal.ending = none := by
  have timed := (Runner.timeLimit?_of_guard waiting guard).trans limited
  obtain ⟨event, aborting⟩ := Runner.reply_expired waiting guard
  rw [rehearse_of_consulted going waiting (Runner.consult_of_expired timed expired) aborting,
    rehearse_zero rfl]
  exact ⟨_, rfl, rfl⟩

end Progress

def calls (exchanges : List Exchange) : List Call := exchanges.map Exchange.call

namespace Conversation

variable {progress last : Progress} {world final : W} {exchanges : List Exchange}

/-- A rehearsal goes through the whole of a conversation, at the cost of one call an exchange. -/
theorem rehearse (conversation : Conversation progress world exchanges last final) :
    ∃ notes, ∀ budget, progress.rehearse world (exchanges.length + budget) =
      (last.rehearse final budget).map (.after (calls exchanges) notes) := by
  induction conversation with
  | @done progress world =>
    refine ⟨[], fun budget => ?_⟩
    rw [List.length_nil, Nat.zero_add]
    cases progress.rehearse world budget <;> rfl
  | @step progress next last world between final call reply rest going waiting replied onward _
      ih =>
    obtain ⟨notes, same⟩ := ih
    refine ⟨progress.notes ++ notes, fun budget => ?_⟩
    have count : (⟨call, reply⟩ :: rest : List Exchange).length + budget =
        rest.length + budget + 1 := by
      rw [List.length_cons]
      omega
    rw [count, Progress.rehearse_of_consulted going waiting (Runner.consult_of_replied replied)
      onward, same]
    cases last.rehearse final budget with
    | error fault => rfl
    | ok rehearsal => exact congrArg Except.ok (Rehearsal.after_after rehearsal)

/-- A conversation to the end of the state is the whole rehearsal. -/
theorem rehearse_ended {ending : Ending}
    (conversation : Conversation progress world exchanges last final)
    (ended : last.ending = some ending) :
    ∃ notes, ∀ budget, exchanges.length ≤ budget → progress.rehearse world budget =
      .ok ⟨last.runner, final, calls exchanges, notes, some ending⟩ := by
  obtain ⟨notes, same⟩ := conversation.rehearse
  refine ⟨notes ++ last.notes, fun budget enough => ?_⟩
  obtain ⟨spare, rfl⟩ := Nat.exists_eq_add_of_le enough
  rw [same, Progress.rehearse_of_ended ended]
  simp only [Except.map, Rehearsal.after, List.append_nil]

end Conversation

/-- The state of a rehearsal ended with the last reply of a conversation. -/
structure Rehearsal.Concluded (progress : Progress) (world : W) (rehearsal : Rehearsal W)
    (exchanges : List Exchange) (last : Progress) : Prop where
  conversation : Conversation progress world exchanges last rehearsal.world
  ending : rehearsal.ending = last.ending
  runner : rehearsal.runner = last.runner
  trace : rehearsal.trace = calls exchanges

/-- The state of a rehearsal ended because the watchdog of a call ran out. -/
structure Rehearsal.Expired (progress : Progress) (world : W) (rehearsal : Rehearsal W)
    (exchanges : List Exchange) (moment : Progress) (present behind : W) (call : Call)
    (kind : WaitKind) : Prop where
  conversation : Conversation progress world exchanges moment present
  going : moment.ending = none
  waiting : moment.runner.call? = some call
  guard : call.guard? = some kind
  expired : moment.runner.outcome present call = .expired behind
  ending : rehearsal.ending = some (.error ⟨kind⟩)

/-- A rehearsal whose state ends has been a conversation to that end, or to an expiry. -/
theorem Progress.rehearse_returned {progress : Progress} {world : W} {budget : Nat}
    {rehearsal : Rehearsal W} {ending : Ending}
    (rehearsed : progress.rehearse world budget = .ok rehearsal)
    (returned : rehearsal.ending = some ending) :
    (∃ exchanges last, rehearsal.Concluded progress world exchanges last) ∨
      ∃ exchanges moment present behind call kind,
        rehearsal.Expired progress world exchanges moment present behind call kind := by
  induction budget generalizing progress world rehearsal with
  | zero =>
    cases going : progress.ending with
    | some ending =>
      rw [rehearse_of_ended going] at rehearsed
      cases rehearsed
      exact .inl ⟨[], progress, .done, going.symm, rfl, rfl⟩
    | none =>
      rw [rehearse_zero going] at rehearsed
      cases rehearsed
      cases returned
  | succ budget ih =>
    cases going : progress.ending with
    | some ending =>
      rw [rehearse_of_ended going] at rehearsed
      cases rehearsed
      exact .inl ⟨[], progress, .done, going.symm, rfl, rfl⟩
    | none =>
      cases waiting : progress.runner.call? with
      | none =>
        rw [rehearse_of_silent going waiting] at rehearsed
        cases rehearsed
        cases returned
      | some call =>
        cases outcome : progress.runner.outcome world call with
        | hung =>
          rw [rehearse_of_hung going waiting (Runner.consult_of_hung outcome)] at rehearsed
          cases rehearsed
          cases returned
        | replied reply between =>
          obtain ⟨next, onward, inner, behind, rfl⟩ :=
            rehearse_behind going waiting (Runner.consult_of_replied outcome) rehearsed
          obtain ⟨exchanges, last, concluded⟩ | ⟨exchanges, moment, present, after, held, kind,
            expired⟩ := ih behind returned
          · exact .inl ⟨⟨call, reply⟩ :: exchanges, last,
              .step going waiting outcome onward concluded.conversation, concluded.ending,
              concluded.runner, congrArg (call :: ·) concluded.trace⟩
          · exact .inr ⟨⟨call, reply⟩ :: exchanges, moment, present, after, held, kind,
              .step going waiting outcome onward expired.conversation, expired.going,
              expired.waiting, expired.guard, expired.expired, expired.ending⟩
        | expired between =>
          obtain ⟨kind, limit, guard, limited⟩ := Runner.guard_of_expired waiting outcome
          refine .inr ⟨[], progress, world, between, call, kind, .done, going, waiting, guard,
            outcome, ?_⟩
          cases budget with
          | zero =>
            obtain ⟨_, same, unended⟩ :=
              rehearse_of_expired_once going waiting guard limited outcome
            cases same.symm.trans rehearsed
            cases unended.symm.trans returned
          | succ budget =>
            obtain ⟨notes, same⟩ := rehearse_of_expired going waiting guard limited outcome
            cases (same budget).symm.trans rehearsed
            rfl

/-- States are rehearsed one by one, until a call hangs. -/
theorem Runner.rehearseEach_succ {runner : Runner} {world : W} {budget states : Nat}
    {rehearsals : List (Rehearsal W)}
    (rehearsed : runner.rehearseEach world budget (states + 1) = .ok rehearsals) :
    ∃ first, runner.rehearse world budget = .ok first ∧
      (first.ending = none ∧ rehearsals = [first] ∨
        ∃ ending later, first.ending = some ending ∧
          first.runner.rehearseEach first.world budget states = .ok later ∧
          rehearsals = first :: later) := by
  rw [rehearseEach] at rehearsed
  obtain ⟨first, entered, rehearsed⟩ := bind_eq_ok_iff.mp rehearsed
  refine ⟨first, entered, ?_⟩
  cases ended : first.ending with
  | none =>
    simp only [ended] at rehearsed
    cases rehearsed
    exact .inl ⟨rfl, rfl⟩
  | some ending =>
    simp only [ended] at rehearsed
    obtain ⟨later, more, produced⟩ := bind_eq_ok_iff.mp rehearsed
    cases produced
    exact .inr ⟨ending, later, rfl, more, rfl⟩

end Mecanum.Mission
