import Mecanum.Proofs.Mission.Alignment
import Mecanum.Proofs.Mission.Conversation
import Mecanum.Proofs.Mission.Script

/-!
# Watchdogs

A state with a time limit can stop at any wait that a watchdog guards, also in the middle of its
script, of an alignment or of a row of tokens that are no codes. Wherever it stops, the chassis is
halted once, nothing else is called, and the runner is as good as new. If no watchdog runs out, the
chassis is never halted and the state ends well.
-/
namespace Mecanum.Mission

/-- The wait that a job is, if a watchdog guards it. -/
def Job.kind? : Job → Option WaitKind
  | action .awaitScan => some .scan
  | action (.drive _) => some .move
  | action (.arm _) => some .arm
  | action (.awaitTarget _) => some .target
  | action (.align _) => some .sight
  | action .awaitStart | action .rezeroHeading | action (.settle _) => none
  | nudge _ _ => some .move
  | steady _ | abort _ => none

theorem Job.guard?_call (config : Config) (job : Job) :
    (job.call config).guard? = job.kind? := by
  cases job with
  | action present => cases present <;> rfl
  | _ => rfl

/-! ### States that no watchdog has ended -/

/-- The runner is not halting the chassis, and the state has not failed. -/
structure Progress.Orderly (progress : Progress) : Prop where
  unhalted : progress.runner.call? ≠ some .halt
  sound : ∀ timeout, progress.ending ≠ some (.error timeout)

namespace Runner

variable {runner : Runner}

theorem orderly_proceed (runner : Runner) (event : Event) (notes : List Journal.Note)
    (script : Script) : (runner.proceed event notes script).Orderly := by
  cases script with
  | nil => exact ⟨nofun, nofun⟩
  | cons action rest => exact ⟨by cases action <;> nofun, nofun⟩

theorem orderly_enter {progress : Progress} (entered : runner.enter = .ok progress) :
    progress.Orderly := by
  obtain ⟨script, _, produced⟩ := bind_eq_ok_iff.mp entered
  cases produced
  exact orderly_proceed ..

/-- A reply other than an expiry halts nothing and fails nothing. -/
theorem orderly_reply {answer : Reply} {progress : Progress}
    (unhalted : runner.call? ≠ some .halt) (replied : runner.reply answer = .ok progress)
    (present : answer ≠ .expired) : progress.Orderly := by
  unfold reply at replied
  split at replied
  next =>
    cases replied
    exact ⟨unhalted, nofun⟩
  next job rest event activity =>
    split at replied
    next => exact absurd rfl present
    next =>
      cases replied
      unfold takeToken
      split
      · exact orderly_proceed ..
      · exact ⟨nofun, nofun⟩
    next =>
      obtain ⟨correction, _, produced⟩ := bind_eq_ok_iff.mp replied
      split at produced
      · cases produced
        exact orderly_proceed ..
      · cases produced
        exact ⟨nofun, nofun⟩
    next =>
      cases replied
      exact ⟨unhalted, nofun⟩
    next =>
      cases replied
      exact ⟨unhalted, nofun⟩
    next =>
      cases replied
      cases job with
      | action present => cases present <;> exact orderly_proceed ..
      | nudge approach command => exact ⟨nofun, nofun⟩
      | steady approach => exact ⟨nofun, nofun⟩
      | abort timeout =>
        rw [call?, activity] at unhalted
        exact absurd rfl unhalted
    next =>
      cases replied
      exact ⟨unhalted, nofun⟩

end Runner

theorem Call.ne_expired_of_admits {call : Call} {reply : Reply} (admitted : call.Admits reply) :
    reply ≠ .expired := by
  rintro rfl
  cases call <;> simp only [Admits, reduceCtorEq, exists_const] at admitted

variable {W : Type} [Responder W]

/-- While calls are replied to, the chassis is not halted. -/
theorem Conversation.orderly {progress last : Progress} {world final : W}
    {exchanges : List Exchange} (conversation : Conversation progress world exchanges last final)
    (orderly : progress.Orderly) : last.Orderly ∧ .halt ∉ calls exchanges := by
  induction conversation with
  | done => exact ⟨orderly, nofun⟩
  | step going waiting replied onward later ih =>
    have present := Call.ne_expired_of_admits (Outcome.admits replied)
    obtain ⟨last, unhalted⟩ := ih (Runner.orderly_reply orderly.unhalted onward present)
    refine ⟨last, fun member => ?_⟩
    rcases List.mem_cons.mp member with rfl | member
    · exact orderly.unhalted waiting
    · exact unhalted member

/-! ### Moments of a state -/

/-- The present state has got so far: some calls have been replied to, and the runner waits for the
call of a job. -/
structure Runner.Moment (runner : Runner) (world : W) (exchanges : List Exchange)
    (moment : Progress) (present : W) (job : Job) : Prop where
  reached : ∃ progress, runner.enter = .ok progress ∧
    Conversation progress world exchanges moment present
  going : moment.ending = none
  busy : ∃ rest event, moment.runner.activity = .busy job rest event

/-- Every sighting that an alignment of the present state gets lies in the image. -/
def Runner.Framed (runner : Runner) (world : W) : Prop :=
  ∀ exchanges moment present approach,
    runner.Moment world exchanges moment present (.action (.align approach)) →
      ∀ look ∈ Responder.looks present (.sight approach.ring), ∀ x y,
        look.answer = some (.position x y) → Alignment.InFrame x y

/-! ### No faults -/

omit [Responder W] in
/-- No reply to a runner faults while the sightings lie in the image. -/
theorem Runner.exists_reply {runner : Runner} {answer : Reply}
    (near : runner.config.alignment.Near)
    (framed : ∀ approach rest event x y,
      runner.activity = .busy (.action (.align approach)) rest event → answer = .position x y →
        Alignment.InFrame x y) :
    ∃ progress, runner.reply answer = .ok progress := by
  unfold reply
  split
  next => exact ⟨_, rfl⟩
  next job rest event activity =>
    split
    next => exact ⟨_, rfl⟩
    next => exact ⟨_, rfl⟩
    next approach x y =>
      have frame := framed approach rest event x y activity rfl
      have corrected :=
        Alignment.correction_in_frame near frame approach.speed approach.distance
      by_cases inside : runner.config.alignment.Inside x y
      · exact ⟨_, bind_eq_ok_iff.mpr ⟨_, corrected.1 inside, rfl⟩⟩
      · exact ⟨_, bind_eq_ok_iff.mpr ⟨_, corrected.2 inside, rfl⟩⟩
    all_goals exact ⟨_, rfl⟩

namespace Runner

variable {runner : Runner} {world present next : W} {exchanges : List Exchange} {moment : Progress}
  {job : Job} {kind : WaitKind}

theorem Moment.config (reached : runner.Moment world exchanges moment present job) :
    moment.runner.config = runner.config := by
  obtain ⟨start, entered, conversation⟩ := reached.reached
  exact conversation.config.trans (config_enter entered)

theorem Moment.waiting (reached : runner.Moment world exchanges moment present job) :
    moment.runner.call? = some (job.call runner.config) := by
  obtain ⟨rest, event, busy⟩ := reached.busy
  rw [call?, busy, reached.config]

/-- At no moment of a rehearsal does a reply fault. -/
theorem Moment.exists_reply {reply : Reply}
    (reached : runner.Moment world exchanges moment present job)
    (near : runner.config.alignment.Near) (framed : runner.Framed world)
    (replied : moment.runner.outcome present (job.call runner.config) = .replied reply next) :
    ∃ progress, moment.runner.reply reply = .ok progress := by
  refine Runner.exists_reply (reached.config ▸ near) ?_
  rintro approach rest event x y aligning rfl
  obtain ⟨_, _, busy⟩ := reached.busy
  cases busy.symm.trans aligning
  obtain ⟨look, member, found, _⟩ := Outcome.look_of_replied replied
  exact framed exchanges moment present approach reached look member x y found

/-- Nothing that a state does can fail. -/
theorem exists_rehearsal (offset_le : runner.config.ringOffset ≤ 252)
    (near : runner.config.alignment.Near) (framed : runner.Framed world) (budget : Nat) :
    ∃ rehearsal, runner.rehearse world budget = .ok rehearsal := by
  obtain ⟨script, written⟩ := State.exists_script offset_le runner.state runner.plan
  obtain ⟨start, entered⟩ : ∃ start, runner.enter = .ok start :=
    ⟨_, bind_eq_ok_iff.mpr ⟨script, written, rfl⟩⟩
  -- From any place that the state gets to, it goes on without a fault.
  have onward : ∀ exchanges moment present, Conversation start world exchanges moment present →
      ∃ rehearsal, moment.rehearse present budget = .ok rehearsal := by
    induction budget with
    | zero =>
      intro exchanges moment present _
      cases going : moment.ending with
      | some ending => exact ⟨_, Progress.rehearse_of_ended going present 0⟩
      | none => exact ⟨_, Progress.rehearse_zero going present⟩
    | succ budget ih =>
      intro exchanges moment present conversation
      cases going : moment.ending with
      | some ending => exact ⟨_, Progress.rehearse_of_ended going present _⟩
      | none =>
        cases waiting : moment.runner.call? with
        | none => exact ⟨_, Progress.rehearse_of_silent going waiting present budget⟩
        | some call =>
          obtain ⟨job, rest, event, busy, _⟩ := busy_of_call? waiting
          have reached : runner.Moment world exchanges moment present job :=
            ⟨⟨start, entered, conversation⟩, going, rest, event, busy⟩
          cases reached.waiting.symm.trans waiting
          cases outcome : moment.runner.outcome present (job.call runner.config) with
          | hung =>
            exact ⟨_, Progress.rehearse_of_hung going waiting (consult_of_hung outcome) budget⟩
          | expired behind =>
            obtain ⟨kind, limit, guard, limited⟩ := guard_of_expired waiting outcome
            cases budget with
            | zero =>
              obtain ⟨rehearsal, rehearsed, _⟩ :=
                Progress.rehearse_of_expired_once going waiting guard limited outcome
              exact ⟨rehearsal, rehearsed⟩
            | succ budget =>
              obtain ⟨notes, rehearsed⟩ :=
                Progress.rehearse_of_expired going waiting guard limited outcome
              exact ⟨_, rehearsed budget⟩
          | replied reply behind =>
            obtain ⟨next, replied⟩ := reached.exists_reply near framed outcome
            obtain ⟨rehearsal, rehearsed⟩ := ih _ next behind
              (conversation.append (.step going waiting outcome replied .done))
            rw [Progress.rehearse_of_consulted going waiting (consult_of_replied outcome) replied,
              rehearsed]
            exact ⟨_, rfl⟩
  obtain ⟨rehearsal, rehearsed⟩ := onward [] start world .done
  exact ⟨rehearsal, bind_eq_ok_iff.mpr ⟨start, entered, rehearsed⟩⟩

/-! ### Clean ends -/

theorem Moment.timeLimit? (reached : runner.Moment world exchanges moment present job)
    (guard : job.kind? = some kind) : moment.runner.timeLimit? = runner.config.timeout := by
  rw [timeLimit?_of_guard reached.waiting ((job.guard?_call _).trans guard), reached.config]

/-- A guarded call that is overdue ends the state with a timeout of its kind, behind one halt. -/
theorem Moment.expires {limit : UInt32}
    (reached : runner.Moment world exchanges moment present job) (guard : job.kind? = some kind)
    (limited : runner.config.timeout = some limit)
    (overdue : (Responder.looks present (job.call runner.config)).Overdue next) :
    .halt ∉ calls exchanges ∧
      ∃ notes, ∀ budget, exchanges.length + 2 ≤ budget → runner.rehearse world budget =
        .ok ⟨.new runner.config, Responder.halt next,
          calls exchanges ++ [job.call runner.config, .pause limit, .halt], notes,
          some (.error ⟨kind⟩)⟩ := by
  obtain ⟨start, entered, conversation⟩ := reached.reached
  have limitedHere : moment.runner.config.timeout = some limit := by rw [reached.config, limited]
  have expired : moment.runner.outcome present (job.call runner.config) = .expired next := by
    rw [outcome, reached.timeLimit? guard, limited]
    exact Outcome.expired_iff.mpr overdue
  obtain ⟨notes, aborted⟩ := Progress.rehearse_of_expired reached.going reached.waiting
    ((job.guard?_call _).trans guard) limitedHere expired
  obtain ⟨prior, rehearsed⟩ := conversation.rehearse
  refine ⟨(conversation.orderly (orderly_enter entered)).2, prior ++ notes, ?_⟩
  intro budget enough
  obtain ⟨spare, rfl⟩ := Nat.exists_eq_add_of_le enough
  -- Two more calls are left for the expired one and the halt.
  have onward := rehearsed (spare + 2)
  rw [aborted, reached.config, ← Nat.add_assoc, Nat.add_right_comm] at onward
  rw [rehearse, entered]
  exact onward

/-- Without an overdue call nothing is halted, and the state ends with the next one. -/
theorem ends_of_in_time {budget : Nat} {rehearsal : Rehearsal W} {ending : Ending}
    (rehearsed : runner.rehearse world budget = .ok rehearsal)
    (returned : rehearsal.ending = some ending)
    (inTime : ∀ exchanges moment present job kind,
      runner.Moment world exchanges moment present job → job.kind? = some kind →
        (Responder.looks present (job.call runner.config)).InTime) :
    .halt ∉ rehearsal.trace ∧ ∃ next, ending = .ok next := by
  obtain ⟨start, entered, rehearsed⟩ := bind_eq_ok_iff.mp rehearsed
  have begun := orderly_enter entered
  obtain ⟨exchanges, last, concluded⟩ | ⟨exchanges, moment, present, after, call, kind, expired⟩ :=
    Progress.rehearse_returned rehearsed returned
  · obtain ⟨orderly, unhalted⟩ := concluded.conversation.orderly begun
    refine ⟨concluded.trace ▸ unhalted, ?_⟩
    cases ending with
    | ok next => exact ⟨next, rfl⟩
    | error timeout => exact absurd (concluded.ending.symm.trans returned) (orderly.sound timeout)
  · -- An expiry would be at a guarded wait, and each of them is in time.
    obtain ⟨job, rest, event, busy, called⟩ := busy_of_call? expired.waiting
    have reached : runner.Moment world exchanges moment present job :=
      ⟨⟨start, entered, expired.conversation⟩, expired.going, rest, event, busy⟩
    cases Option.some.inj (reached.waiting.symm.trans expired.waiting)
    have guard : job.kind? = some kind := (job.guard?_call _).symm.trans expired.guard
    obtain ⟨reply, next, replied⟩ :=
      Outcome.replied_of_inTime (inTime _ _ _ _ _ reached guard) moment.runner.timeLimit?.isSome
    cases replied.symm.trans expired.expired

end Runner

/-- A watchdog that runs out ends the state cleanly from any moment on: with the kind of the wait at
hand, with one halt of the chassis and no call after it, and with a runner that is as good as new. A
state whose guarded waits are all over in time ends well, if it ends, without a halt. There is no
fault either way. -/
theorem watchdog_clean {runner : Runner} {world : W} {limit : UInt32}
    (limited : runner.config.timeout = some limit) (offset_le : runner.config.ringOffset ≤ 252)
    (near : runner.config.alignment.Near) (framed : runner.Framed world) :
    (∀ budget, ∃ rehearsal, runner.rehearse world budget = .ok rehearsal) ∧
      (∀ exchanges moment present job kind next,
        runner.Moment world exchanges moment present job → job.kind? = some kind →
        (Responder.looks present (job.call runner.config)).Overdue next →
          .halt ∉ calls exchanges ∧
            ∃ notes, ∀ budget, exchanges.length + 2 ≤ budget → runner.rehearse world budget =
              .ok ⟨.new runner.config, Responder.halt next,
                calls exchanges ++ [job.call runner.config, .pause limit, .halt], notes,
                some (.error ⟨kind⟩)⟩) ∧
      ∀ budget rehearsal ending, runner.rehearse world budget = .ok rehearsal →
        rehearsal.ending = some ending →
        (∀ exchanges moment present job kind,
          runner.Moment world exchanges moment present job → job.kind? = some kind →
            (Responder.looks present (job.call runner.config)).InTime) →
          .halt ∉ rehearsal.trace ∧ ∃ next, ending = .ok next := by
  refine ⟨fun budget => Runner.exists_rehearsal offset_le near framed budget, ?_, ?_⟩
  · intro exchanges moment present job kind next reached guard overdue
    exact reached.expires guard limited overdue
  · intro budget rehearsal ending rehearsed returned inTime
    exact Runner.ends_of_in_time rehearsed returned inTime

namespace World

/-- All sightings in store lie in the image. -/
structure Framed (world : World) : Prop where
  sightings : ∀ place ∈ world.sightings, Alignment.InFrame place.1 place.2
  default : ∀ place, world.defaultSighting = some place → Alignment.InFrame place.1 place.2

/-- In a world with all sightings in the image no look finds one outside. -/
theorem Framed.look {world : World} (framed : world.Framed) {call : Call} {look : Look World Reply}
    (member : look ∈ Responder.looks world call) :
    look.world.Framed ∧
      ∀ x y, look.answer = some (.position x y) → Alignment.InFrame x y := by
  obtain ⟨starts, tokens, sightings, default, drives, arms, targets⟩ := world
  cases call with
  | sight id =>
    cases sightings with
    | cons place rest =>
      cases List.mem_singleton.mp member
      obtain ⟨here, later⟩ := List.forall_mem_cons.mp framed.sightings
      refine ⟨⟨later, framed.default⟩, ?_⟩
      rintro x y ⟨⟩
      exact here
    | nil =>
      cases default with
      | some place =>
        cases List.mem_singleton.mp member
        refine ⟨framed, ?_⟩
        rintro x y ⟨⟩
        exact framed.default place rfl
      | none =>
        cases List.mem_singleton.mp member
        exact ⟨framed, nofun⟩
  | awaitStart =>
    cases starts <;> cases List.mem_singleton.mp member <;> exact ⟨⟨framed.1, framed.2⟩, nofun⟩
  | awaitToken =>
    cases tokens <;> cases List.mem_singleton.mp member <;> exact ⟨⟨framed.1, framed.2⟩, nofun⟩
  | drive command =>
    rcases drives with _ | _ | drives <;> cases List.mem_singleton.mp member <;>
      exact ⟨⟨framed.1, framed.2⟩, nofun⟩
  | arm task =>
    rcases arms with _ | _ | arms <;> cases List.mem_singleton.mp member <;>
      exact ⟨⟨framed.1, framed.2⟩, nofun⟩
  | awaitTarget id =>
    rcases targets with _ | _ | targets <;> cases List.mem_singleton.mp member <;>
      exact ⟨⟨framed.1, framed.2⟩, nofun⟩
  | rezero | halt | pause =>
    cases List.mem_singleton.mp member
    exact ⟨⟨framed.1, framed.2⟩, nofun⟩

/-- What comes from sightings in the image stays there. -/
theorem Framed.framed {world : World} (framed : world.Framed) (runner : Runner) :
    runner.Framed world := by
  intro exchanges moment present approach reached look member
  obtain ⟨start, entered, conversation⟩ := reached.reached
  have framedHere : present.Framed := by
    clear reached member entered
    induction conversation with
    | done => exact framed
    | step _ _ replied _ _ ih =>
      obtain ⟨look, found, _, rfl⟩ := Outcome.look_of_replied replied
      exact ih (framed.look found).1
  exact (framedHere.look member).2

/-- A world whose arm carries out one task and then hangs. -/
def stalledArm : World := { World.initial with arms := some 1 }

theorem stalledArm_framed : stalledArm.Framed := ⟨nofun, nofun⟩

end World

/-- The second arm task at the plate does not end. -/
theorem watchdog_clean_stalledArm :
    ∃ notes, ∀ budget, 5 ≤ budget →
      (Runner.mk { timeout := some 5000 } .pickPlate1 .default .resting).rehearse World.stalledArm
          budget =
        .ok ⟨.new { timeout := some 5000 }, { World.initial with arms := some 0 },
          [.arm .ready, .pause 1000, .awaitTarget 1, .arm .pickFromRaw, .pause 5000, .halt], notes,
          some (.error ⟨.arm⟩)⟩ := by
  have near : ({} : Alignment).Near := ⟨by decide, by decide, by decide, by decide⟩
  let runner : Runner := ⟨{ timeout := some 5000 }, .pickPlate1, .default, .resting⟩
  have limited : runner.config.timeout = some 5000 := rfl
  obtain ⟨_, expires, _⟩ :=
    watchdog_clean limited (by decide) near (World.stalledArm_framed.framed runner)
  have reached : runner.Moment World.stalledArm
      [⟨.arm .ready, .done⟩, ⟨.pause 1000, .done⟩, ⟨.awaitTarget 1, .done⟩] _
      { World.initial with arms := some 0 } (.action (.arm .pickFromRaw)) :=
    ⟨⟨_, rfl, .step rfl rfl rfl rfl (.step rfl rfl rfl rfl (.step rfl rfl rfl rfl .done))⟩, rfl,
      _, _, rfl⟩
  exact (expires _ _ _ _ _ _ reached rfl ⟨[], [], rfl, nofun⟩).2

end Mecanum.Mission
