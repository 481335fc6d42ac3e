import Mecanum.Proofs.Arm.Traces
import Mecanum.Proofs.Crew.Arm

/-!
# The arm at work

The arm tells of every call that it makes, and what it tells is what the body and the servos obey.
From the receipt of a request to its performance these are the calls of the moves of the task, from
the first to the last. Otherwise the arm makes no call, save for the safe pose that it takes before
it receives anything.
-/
namespace Mecanum.Robot.Crew

open Arm (Performance Task)
open Motion (WheelDrive)

variable {W : Type}

/-! ### What is told of the work -/

theorem acts_aside {events : List Event} (aside : ∀ event ∈ events, event.isWork = false) :
    acts events = [] := by
  refine List.filterMap_eq_nil_iff.mpr fun event member => ?_
  cases event <;> first | rfl | cases aside _ member

/-- The events behind the latest receipt or performance. -/
def sinceService (history : List Event) : List Event := history.rtakeWhile (!Event.isService ·)

theorem sinceService_aside {events : List Event}
    (aside : ∀ event ∈ events, event.isService = false) (history : List Event) :
    sinceService (history ++ events) = sinceService history ++ events :=
  rtakeWhile_aside aside history

theorem sinceService_concat {event : Event} (service : event.isService = true)
    (history : List Event) : sinceService (history ++ [event]) = [] :=
  rtakeWhile_concat_kind service history

/-- Where no service has begun or ended, everything is behind the latest. -/
theorem sinceService_eq_self {history : List Event}
    (aside : ∀ event ∈ history, event.isService = false) : sinceService history = history := by
  have whole := sinceService_aside aside []
  rwa [List.nil_append] at whole

/-! ### The performance under way -/

/-- The calls told of since the service began have led the performance to where it is. The arm begins
unasked, with a reset. -/
structure Working (config : Arm.Config) (crew : Crew W) (history : List Event) : Prop where
  configured : crew.arm.config = config
  made : ∀ {performance}, crew.arm.performance = some performance →
    (Performance.ofTask config (crew.serving.getD .reset)).Makes config
      (acts (sinceService history)) performance
  unasked : ∀ {performance}, crew.arm.performance = some performance → crew.serving = none →
    ∀ event ∈ history, event.isService = false

theorem working_new [WheelDrive W] (setup : Setup) (wheels : W) :
    Working setup.arm (new setup wheels) [] where
  configured := rfl
  made := by rintro _ ⟨⟩; exact .nothing
  unasked _ _ := List.forall_mem_nil _

section Kept

variable {config : Arm.Config} {crew next : Crew W} {history events : List Event}

/-- Moves of the others leave the arm where it is in its performance. -/
theorem Working.aside (working : Working config crew history) (arm : next.arm = crew.arm)
    (serving : next.serving = crew.serving) (aside : ∀ event ∈ events, event.isWork = false) :
    Working config next (history ++ events) where
  configured := by rw [arm]; exact working.configured
  made busy := by
    have outside := fun event member => Event.isService_of_isWork (aside event member)
    rw [sinceService_aside outside, acts_append, acts_aside aside, List.append_nil, serving]
    exact working.made (arm ▸ busy)
  unasked busy free :=
    List.forall_mem_append.mpr ⟨working.unasked (arm ▸ busy) (serving ▸ free),
      fun event member => Event.isService_of_isWork (aside event member)⟩

/-- A step of the arm makes the next call of the performance, begins another, or ends it. -/
theorem Working.serves (working : Working config crew history)
    (same : next.arm.config = crew.arm.config) (serves : Serves crew next events) :
    Working config next (history ++ events) := by
  have kept : next.arm.config = config := same.trans working.configured
  cases serves with
  | onward serving _ _ _ onward =>
    cases onward with
    | still unchanged =>
      have none : history ++ actsOf none = history := List.append_nil history
      rw [none]
      refine ⟨kept, fun busy => ?_, fun busy free => ?_⟩
      · rw [serving]
        exact working.made (unchanged ▸ busy)
      · exact working.unasked (unchanged ▸ busy) (serving ▸ free)
    | posed _ _ _ free =>
      refine ⟨kept, fun busy => ?_, fun busy => ?_⟩ <;> rw [free] at busy <;> cases busy
    | @acted performance call count before called behind =>
      have outside := isService_actsOf (some ⟨call, count⟩)
      refine ⟨kept, fun busy => ?_, fun busy free => ?_⟩
      · -- One more call has been made, and it was the one to make.
        rw [behind] at busy
        cases busy
        rw [sinceService_aside outside, acts_append, serving]
        exact (working.made before).further (working.configured ▸ called) count
      · exact List.forall_mem_append.mpr ⟨working.unasked before (serving ▸ free), outside⟩
  | received _ serving _ _ _ begun =>
    refine ⟨kept, fun busy => ?_, fun _ free => ?_⟩
    · rw [begun] at busy
      cases busy
      rw [sinceService_concat rfl, serving, working.configured]
      exact .nothing
    · rw [serving] at free
      cases free
  | performed _ _ _ _ _ _ _ rest =>
    refine ⟨kept, fun busy => ?_, fun busy => ?_⟩ <;> rw [rest] at busy <;> cases busy

/-- However the tasks interleave, the arm stays where its calls have led it. -/
theorem Working.kept [WheelDrive W] (ledger : Ledger crew history)
    (working : Working config crew history) (transition : Transition crew next events) :
    Working config next (history ++ events) := by
  rcases transition.apart_or_serves ledger with ⟨arm, serving, aside⟩ | ⟨same, serves⟩
  · exact working.aside arm serving aside
  · exact working.serves same serves

end Kept

section Reached

variable [WheelDrive W] {setup : Setup} {wheels : W} {schedule : List (Move W)}
  {front back : List Event}

theorem working_reached (setup : Setup) (wheels : W) (schedule : List (Move W)) :
    Working setup.arm (reached setup wheels schedule) (history setup wheels schedule) := by
  have joint := run_invariant
    (fun crew history => Ledger crew history ∧ Working setup.arm crew history)
    (fun fits transition => ⟨fits.1.kept transition, fits.2.kept fits.1 transition⟩)
    ⟨ledger_new setup wheels, working_new setup wheels⟩ schedule
  exact joint.2

/-- A call that is told of is the present call of the performance that the arm is at. -/
theorem acted_at {entry : Arm.Entry}
    (split : history setup wheels schedule = front ++ .acted entry :: back) :
    ∃ first performance, front = history setup wheels first ∧
      (reached setup wheels first).arm.performance = some performance ∧
      performance.call? setup.arm = .ok (some entry.call) := by
  obtain ⟨first, next, early, late, transition, rfl⟩ := history_split split
  have serves := transition.serves (ledger_reached setup wheels first)
    List.mem_append_cons_self rfl
  generalize same : early ++ .acted entry :: late = events at serves
  cases serves with
  | onward _ _ _ _ onward =>
    cases onward with
    | still => cases (List.append_ne_nil_of_right_ne_nil _ (List.cons_ne_nil _ _)) same
    | posed => cases (List.append_ne_nil_of_right_ne_nil _ (List.cons_ne_nil _ _)) same
    | @acted performance call count busy called =>
      rcases List.append_eq_singleton_iff.mp same with ⟨rfl, behind⟩ | ⟨_, behind⟩
      · cases behind
        rw [(working_reached setup wheels first).configured] at called
        exact ⟨first, performance, List.append_nil _, busy, called⟩
      · cases behind
  | received =>
    rcases List.append_eq_singleton_iff.mp same with ⟨_, behind⟩ | ⟨_, behind⟩ <;> cases behind
  | performed =>
    rcases List.append_eq_singleton_iff.mp same with ⟨_, behind⟩ | ⟨_, behind⟩ <;> cases behind

/-- The arm performs each request that it receives by the moves of its task, from the first to the
last, and does nothing else but take its safe pose at first. What it tells of, it has done. -/
structure Performs (config : Arm.Config) (crew : Crew W) (history : List Event) : Prop where
  carried : ∀ {front task during other back},
    history = front ++ .received task :: during ++ .performed other :: back →
      performances during = [] → other = task ∧
        (Performance.ofTask config task).Completes config (acts during) ∧
        Arm.Carries config (task.moves config) (acts during)
  idle : ∀ {front task during back}, history = front ++ .performed task :: during ++ back →
    receipts during = [] → acts during = []
  posing : ∀ {front back}, history = front ++ back → receipts front = [] →
    (acts front).map Arm.Entry.call <+: Arm.safePose config
  obeyed : ∀ {now body pulses step entry},
    crew.arm.step now crew.shared body pulses = .ok step → step.entry = some entry →
      ArmTask.Obeyed entry body step.body pulses step.pulses

/-- No service has begun or ended where nothing has been received or performed. -/
private theorem unserved {events : List Event} (received : receipts events = [])
    (performed : performances events = []) : ∀ event ∈ events, event.isService = false := by
  intro event member
  cases event with
  | received task => cases List.filterMap_eq_nil_iff.mp received _ member
  | performed task => cases List.filterMap_eq_nil_iff.mp performed _ member
  | _ => rfl

/-- Between its receipt and its performance a request is carried out by the moves of its task. -/
private theorem carried {task other : Task} {during : List Event}
    (split : history setup wheels schedule =
      front ++ .received task :: during ++ .performed other :: back)
    (unperformed : performances during = []) :
    other = task ∧ (Performance.ofTask setup.arm task).Completes setup.arm (acts during) ∧
      Arm.Carries setup.arm (task.moves setup.arm) (acts during) := by
  obtain ⟨first, performance, same, serving, busy, ended⟩ := performed_at split
  have working := working_reached setup wheels first
  rw [working.configured] at ended
  -- What is performed next was received last.
  have counted := performed_in_turn split
  rw [receipts_append, performances_append, receipts_received_cons, performances_received_cons,
    unperformed, List.append_nil,
    (received_in_turn (split.trans (List.append_assoc ..))).1,
    List.append_cancel_left_eq] at counted
  obtain ⟨rfl, unreceived⟩ := List.cons.inj counted
  have made := working.made busy
  rw [← same, serving, List.append_cons,
    sinceService_aside (unserved unreceived unperformed), sinceService_concat rfl,
    List.nil_append] at made
  have behind : performance.Completes setup.arm [] := ended
  have completes := made.completes behind
  rw [List.append_nil] at completes
  exact ⟨rfl, completes, Arm.carries_of_completes completes⟩

/-- Behind a performance the arm makes no call until it receives the next request. -/
private theorem idle {task : Task} {during : List Event}
    (split : history setup wheels schedule = front ++ .performed task :: during ++ back)
    (unreceived : receipts during = []) : acts during = [] := by
  by_contra acting
  obtain ⟨entry, member⟩ := List.exists_mem_of_ne_nil _ acting
  obtain ⟨event, inside, told⟩ := List.mem_filterMap.mp member
  cases event <;> cases told
  obtain ⟨early, late, rfl⟩ := List.append_of_mem inside
  have acted : history setup wheels schedule =
      (front ++ .performed task :: early) ++ .acted entry :: (late ++ back) := by
    rw [split]; simp
  obtain ⟨first, performance, same, busy, _⟩ := acted_at acted
  -- All that was received had been performed, so the call would be one that nobody asked for.
  have served := (ledger_reached setup wheels first).served
  rw [receipts_append] at unreceived
  rw [← same, receipts_append, performances_append, receipts_performed_cons,
    performances_performed_cons, performed_in_turn (split.trans (List.append_assoc ..)),
    (List.append_eq_nil_iff.mp unreceived).1, List.append_assoc, List.append_nil, List.append_assoc,
    List.append_cancel_left_eq] at served
  have free := (List.append_eq_nil_iff.mp (List.cons.inj served).2.symm).2
  have unserved := (working_reached setup wheels first).unasked busy
    (Option.toList_eq_nil_iff.mp free) (.performed task) (by rw [← same]; simp)
  cases unserved

/-- All that the arm does before the first receipt is to take its safe pose. -/
private theorem posing (split : history setup wheels schedule = front ++ back)
    (unreceived : receipts front = []) :
    (acts front).map Arm.Entry.call <+: Arm.safePose setup.arm := by
  -- On the events so far, from the end; only another call makes a difference.
  induction front using List.reverseRecOn generalizing back with
  | nil => exact ⟨_, rfl⟩
  | append_singleton front event ih =>
    rw [List.append_assoc] at split
    rw [receipts_append] at unreceived
    have before := (List.append_eq_nil_iff.mp unreceived).1
    cases told : event.acted? with
    | none =>
      have quiet : acts [event] = [] :=
        List.filterMap_eq_nil_iff.mpr (List.forall_mem_singleton.mpr told)
      rw [acts_append, quiet, List.append_nil]
      exact ih split before
    | some entry =>
      cases event <;> cases told
      obtain ⟨first, performance, same, busy, called⟩ := acted_at split
      have working := working_reached setup wheels first
      have served := (ledger_reached setup wheels first).served
      rw [← same, before] at served
      have free := Option.toList_eq_nil_iff.mp (List.append_eq_nil_iff.mp served.symm).2
      have made := working.made busy
      rw [free, sinceService_eq_self (working.unasked busy free), ← same] at made
      rw [acts_append]
      exact (made.further called entry.count).of_reset

/-- On every schedule the arm performs what it receives. -/
theorem performs_reached (setup : Setup) (wheels : W) (schedule : List (Move W)) :
    Performs setup.arm (reached setup wheels schedule) (history setup wheels schedule) where
  carried := carried
  idle := idle
  posing := posing
  obeyed := ArmTask.step_obeyed

end Reached

end Mecanum.Robot.Crew
