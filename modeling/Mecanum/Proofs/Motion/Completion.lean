import Mecanum.Proofs.Motion.Calls

/-!
# The end of a command is reported once

A new command can supersede another at any tick, and a command can end on two ways, by its distance
or by its heading. Whatever the calls, the controller carries out the command in force (`Follows`):
an end is reported only of that command and takes it out of force, and with no command in force the
controller stands still and says nothing.
-/
namespace Mecanum.Motion

open Heading (Snapshot)

/-- A command that comes to an end by itself: a turn to a heading, or a move over a distance. -/
def Command.Ends (command : Command) : Prop :=
  command.mode = .turnAbsolute ∨ command.mode.tracksDistance = true ∧ 0 < command.target

namespace Controller

/-- The controller carries out the command in force, or stands still if there is none. -/
inductive Follows (controller : Controller) : Option Command → Prop where
  | idle (stop : controller.mode = .stop) (still : controller.currentSpeed = 0) :
      Follows controller none
  | active {command : Command} (mode : controller.mode = command.mode)
      (moving : command.mode ≠ .stop)
      (bounded : controller.bounded = true →
        command.mode.tracksDistance = true ∧ 0 < command.target) :
      Follows controller (some command)

namespace Follows

theorem accept (controller : Controller) (command : Command) (heading : Snapshot)
    (force : Option Command) :
    Follows (controller.accept command heading) ((Event.applied command).force force) := by
  rcases command.mode.cases_tracksDistance with stop | turning | travelling
  · rw [controller.accept_stop stop, Event.force, if_pos stop]
    exact .idle rfl rfl
  · have moving : command.mode ≠ .stop := by simp [turning]
    rw [controller.accept_turn turning, Event.force, if_neg moving]
    refine .active turning.symm moving ?_
    intro bounded
    cases bounded
  · have moving : command.mode ≠ .stop := by
      intro stop
      simp [stop, Mode.tracksDistance] at travelling
    rw [controller.accept_travel travelling, Event.force, if_neg moving]
    refine .active rfl moving ?_
    intro bounded
    exact ⟨travelling, of_decide_eq_true bounded⟩

theorem tick {controller : Controller} {force : Option Command} {result : Tick}
    (follows : Follows controller force) (ticked : Ticked controller result) :
    Follows result.controller ((Event.ticked result).force force) := by
  cases ticked with
  | idle stop =>
    cases follows with
    | idle => exact .idle stop rfl
    | active mode moving bounded => exact absurd (mode.symm.trans stop) moving
  | ended => exact .idle rfl rfl
  | underWay moving =>
    cases follows with
    | idle stop => exact absurd stop moving
    | active mode moving bounded => exact .active mode moving bounded

/-- A call leaves the controller following the command in force. -/
theorem kept {controller next : Controller} {force : Option Command} {made : Call} {event : Event}
    (follows : Follows controller force) (called : controller.call made = .ok (next, event)) :
    Follows next (event.force force) := by
  cases made with
  | apply command heading =>
    cases called
    exact accept controller command heading force
  | tick travelled heading =>
    obtain ⟨result, ticked, told⟩ := bind_eq_ok_iff.mp called
    cases told
    exact follows.tick (ticked_of_tick ticked)

end Follows

section Runs

variable {config : Config} {calls : List Call} {last : Controller} {history before after : List Event}

/-- Every run leaves the controller following the command in force. -/
theorem follows_run (ran : (new config).run calls = .ok (last, history)) :
    Follows last (inForce history) := by
  have kept {controller next : Controller} {earlier : List Event} {made : Call} {event : Event}
      (follows : Follows controller (inForce earlier))
      (called : controller.call made = .ok (next, event)) :
      Follows next (inForce (earlier ++ [event])) := by
    rw [inForce_concat]
    exact follows.kept called
  have initial : Follows (new config) (inForce []) := .idle rfl rfl
  exact run_invariant (fun controller earlier => Follows controller (inForce earlier)) kept ran
    initial

/-- Every tick of a run is one of a controller that carries out the command in force then. -/
theorem follows_split {tick : Tick}
    (ran : (new config).run calls = .ok (last, before ++ .ticked tick :: after)) :
    ∃ middle, Follows middle (inForce before) ∧ Ticked middle tick := by
  obtain ⟨front, made, middle, next, fronted, called⟩ := run_split ran
  refine ⟨middle, follows_run fronted, ?_⟩
  cases made with
  | apply => cases called
  | tick travelled heading =>
    obtain ⟨result, ticked, told⟩ := bind_eq_ok_iff.mp called
    cases told
    exact ticked_of_tick ticked

/-- An end is reported of the command in force, by a tick that stops all wheels. -/
theorem finished_split {tick : Tick}
    (ran : (new config).run calls = .ok (last, before ++ .ticked tick :: after))
    (finished : tick.outcome.finished = true) :
    tick.outcome.wheels = .zero ∧ ∃ command, inForce before = some command ∧ command.Ends := by
  obtain ⟨middle, follows, ticked⟩ := follows_split ran
  cases ticked with
  | idle => cases finished
  | underWay => cases finished
  | ended moving due =>
    refine ⟨rfl, ?_⟩
    generalize force : inForce before = current at follows
    cases follows with
    | idle stop => exact absurd stop moving
    | @active command mode _ bounded =>
      refine ⟨command, rfl, ?_⟩
      cases due with
      | inl measured => exact .inr (bounded measured)
      | inr turning => exact .inl (mode.symm.trans turning)

/-- Without a command in force, a tick does nothing. -/
theorem silent_split {tick : Tick}
    (ran : (new config).run calls = .ok (last, before ++ .ticked tick :: after))
    (none : inForce before = none) :
    tick.outcome = .idle ∧ tick.controller.mode = .stop ∧ tick.controller.currentSpeed = 0 := by
  obtain ⟨middle, follows, ticked⟩ := follows_split ran
  rw [none] at follows
  cases follows with
  | idle stop still =>
    cases ticked with
    | idle => exact ⟨rfl, stop, rfl⟩
    | ended moving => exact absurd stop moving
    | underWay moving => exact absurd stop moving

end Runs

/-- Ends are reported once for a command that comes to an end, and then there is silence. -/
structure Orderly (history : List Event) : Prop where
  -- Between two reports of an end a command to move has been applied.
  renewed : ∀ {before between after : List Event} {first second : Tick},
    history = before ++ .ticked first :: between ++ .ticked second :: after →
    first.outcome.finished = true → second.outcome.finished = true →
    ∃ command, .applied command ∈ between ∧ command.mode ≠ .stop
  -- An end is reported of the last command applied, and only if that comes to an end.
  due : ∀ {before after : List Event} {tick : Tick}, history = before ++ .ticked tick :: after →
    tick.outcome.finished = true → ∃ command, lastApplied before = some command ∧ command.Ends
  -- The tick that reports an end stops all wheels.
  halts : ∀ {tick : Tick}, .ticked tick ∈ history → tick.outcome.finished = true →
    tick.outcome.wheels = .zero
  -- A settled controller stands still and reports nothing.
  silent : ∀ {before after : List Event} {tick : Tick}, history = before ++ .ticked tick :: after →
    Settled before →
    tick.outcome = .idle ∧ tick.controller.mode = .stop ∧ tick.controller.currentSpeed = 0

/-- With limits that are numbers every run comes to its end, and its ends are in order. -/
theorem run_orderly {config : Config} (wheels : 0 ≤ config.wheelLimit)
    (lock : config.headingLock.limit.isNaN = false) (turn : config.turn.limit.isNaN = false)
    (calls : List Call) :
    ∃ last history, (new config).run calls = .ok (last, history) ∧ Orderly history := by
  obtain ⟨last, history, ran⟩ := (Built.new config).exists_run wheels lock turn calls
  refine ⟨last, history, ran, ?renewed, ?due, ?halts, ?silent⟩
  case renewed =>
    rintro before between after first second rfl ended again
    obtain ⟨-, command, force, -⟩ := finished_split ran again
    -- Without a new command the first end would still leave none in force.
    by_contra unmoved
    have settled : Settled (before ++ .ticked first :: between) := by
      refine ⟨before, _, between, rfl, ended, ?_⟩
      intro command inside
      by_contra moving
      exact unmoved ⟨command, inside, moving⟩
    rw [inForce_of_settled settled] at force
    cases force
  case due =>
    rintro before after tick rfl finished
    obtain ⟨-, command, force, ends⟩ := finished_split ran finished
    exact ⟨command, lastApplied_of_inForce force, ends⟩
  case halts =>
    intro tick inside finished
    obtain ⟨before, after, rfl⟩ := List.append_of_mem inside
    exact (finished_split ran finished).1
  case silent =>
    rintro before after tick rfl settled
    exact silent_split ran (inForce_of_settled settled)

/-- A move that arrives and a turn that is there already, each reported once. -/
theorem run_orderly_moveAndTurn :
    let calls := [.apply (.drive .forward 100 0.05) ⟨0, 0⟩, .tick 0 0, .tick 0 0,
      .apply (.turnAbsolute 90) ⟨0, 0⟩, .tick 0 90, .tick 0 0]
    (new .default).outcomes calls = .ok [.done, .idle, .done, .idle] ∧
      ∃ last history, (new .default).run calls = .ok (last, history) ∧ Orderly history := by
  refine ⟨by decide +kernel, ?_⟩
  exact run_orderly (by decide) (by decide) (by decide) _

end Controller

end Mecanum.Motion
