import Mecanum.Motion.Loop
import Mecanum.Proofs.Motion.Tick

/-!
# Control periods

What one period of the motion loop does to the shared state, and when it leaves the wheels alone: a
controller that stands still and is not told otherwise answers with zero speeds, and the period that
reports the end of a command leaves the controller standing still.
-/
namespace Mecanum.Motion

namespace Controller

theorem tick_stop {controller : Controller} (stop : controller.mode = .stop) (travelled : Int)
    (heading : Float32) :
    controller.tick travelled heading = .ok ⟨{ controller with currentSpeed := 0 }, .idle, []⟩ := by
  rw [tick, if_pos stop]

/-- The period that reports the end of a command leaves the controller standing still. -/
theorem mode_of_finished {controller : Controller} {travelled : Int} {heading : Float32}
    {result : Tick} (ticked : controller.tick travelled heading = .ok result)
    (finished : result.outcome.finished = true) : result.controller.mode = .stop := by
  cases ticked_of_tick ticked with
  | idle => cases finished
  | ended => rfl
  | underWay => cases finished

/-- A period that does not report an end leaves the mode as it is. -/
theorem mode_of_unfinished {controller : Controller} {travelled : Int} {heading : Float32}
    {result : Tick} (ticked : controller.tick travelled heading = .ok result)
    (unfinished : result.outcome.finished = false) : result.controller.mode = controller.mode := by
  cases ticked_of_tick ticked with
  | idle => rfl
  | ended => cases unfinished
  | underWay => rfl

end Controller

namespace Loop

variable {W : Type} [WheelDrive W]

theorem pickUp_none (loop : Loop W) {shared : Shared.State} (none : shared.command.pending = none) :
    (loop.pickUp shared).1 = loop := by
  simp only [pickUp, Shared.State.takeCommand, none]

theorem pickUp_some (loop : Loop W) {shared : Shared.State} {command : Command}
    (some : shared.command.pending = some command) :
    (loop.pickUp shared).1 = (loop.accept command shared.heading.snapshot).1 := by
  simp only [pickUp, Shared.State.takeCommand, some]

theorem pickUp_shared (loop : Loop W) (shared : Shared.State) :
    (loop.pickUp shared).2.1 = { shared with command := .empty } := by
  simp only [pickUp, Shared.State.takeCommand]
  cases shared.command.pending <;> rfl

/-- A period consists of picking up, one tick of the controller, writing the wheels, and the signal
of an end. -/
theorem step_ok {loop : Loop W} {shared : Shared.State} {result : Step W}
    (stepped : loop.step shared = .ok result) :
    ∃ tick, (loop.pickUp shared).1.controller.tick
        (WheelDrive.steps (loop.pickUp shared).1.wheels .frontLeft)
        shared.heading.snapshot.relative = .ok tick ∧
      WheelDrive.apply (loop.pickUp shared).1.wheels tick.outcome.wheels = .ok result.loop.wheels ∧
      result.loop.controller = tick.controller ∧ result.outcome = tick.outcome ∧
      result.shared = if tick.outcome.finished then
        Shared.State.signalMove { shared with command := .empty }
        else { shared with command := .empty } := by
  -- Whatever the loop picks up, it leaves the mailbox empty and nothing else changed.
  have behind := loop.pickUp_shared shared
  unfold step at stepped
  generalize loop.pickUp shared = picked at stepped behind ⊢
  obtain ⟨begun, opened, notes⟩ := picked
  simp only at behind
  subst behind
  obtain ⟨tick, ticked, rest⟩ := bind_eq_ok_iff.mp stepped
  obtain ⟨wheels, applied, rest⟩ := bind_eq_ok_iff.mp rest
  refine ⟨tick, ticked, ?_⟩
  split at rest
  next finished =>
    cases rest
    exact ⟨applied, rfl, rfl, (if_pos finished).symm⟩
  next unfinished =>
    cases rest
    exact ⟨applied, rfl, rfl, (if_neg unfinished).symm⟩

theorem step_command {loop : Loop W} {shared : Shared.State} {result : Step W}
    (stepped : loop.step shared = .ok result) : result.shared.command = .empty := by
  obtain ⟨tick, _, _, _, _, shared_eq⟩ := step_ok stepped
  rw [shared_eq]
  split <;> rfl

/-- The end of a command is signalled exactly in the period that reports it. -/
theorem step_moveFinished {loop : Loop W} {shared : Shared.State} {result : Step W}
    (stepped : loop.step shared = .ok result) :
    result.shared.moveFinished =
      if result.outcome.finished then ⟨some ()⟩ else shared.moveFinished := by
  obtain ⟨tick, _, _, _, outcome_eq, shared_eq⟩ := step_ok stepped
  rw [shared_eq, outcome_eq]
  split <;> rfl

theorem step_armFinished {loop : Loop W} {shared : Shared.State} {result : Step W}
    (stepped : loop.step shared = .ok result) :
    result.shared.armFinished = shared.armFinished := by
  obtain ⟨tick, _, _, _, _, shared_eq⟩ := step_ok stepped
  rw [shared_eq]
  split <;> rfl

theorem step_tasks {loop : Loop W} {shared : Shared.State} {result : Step W}
    (stepped : loop.step shared = .ok result) : result.shared.tasks = shared.tasks := by
  obtain ⟨tick, _, _, _, _, shared_eq⟩ := step_ok stepped
  rw [shared_eq]
  split <;> rfl

theorem mode_of_finished {loop : Loop W} {shared : Shared.State} {result : Step W}
    (stepped : loop.step shared = .ok result) (finished : result.outcome.finished = true) :
    result.loop.controller.mode = .stop := by
  obtain ⟨tick, ticked, _, controller_eq, outcome_eq, _⟩ := step_ok stepped
  rw [controller_eq]
  exact Controller.mode_of_finished ticked (outcome_eq ▸ finished)

/-- Until an end is reported, the controller is in the mode of the command that it has picked up. -/
theorem mode_of_unfinished {loop : Loop W} {shared : Shared.State} {result : Step W}
    (stepped : loop.step shared = .ok result) (unfinished : result.outcome.finished = false) :
    result.loop.controller.mode =
      (shared.command.pending.map Command.mode).getD loop.controller.mode := by
  obtain ⟨tick, ticked, _, controller_eq, outcome_eq, _⟩ := step_ok stepped
  rw [controller_eq, Controller.mode_of_unfinished ticked (outcome_eq ▸ unfinished)]
  cases posted : shared.command.pending with
  | none => rw [pickUp_none loop posted]; rfl
  | some command =>
    rw [pickUp_some loop posted]
    exact Controller.mode_accept ..

/-- The chassis will stand still: it is told to stop, or it stands still and is told nothing. -/
def AtRest (loop : Loop W) (shared : Shared.State) : Prop :=
  match shared.command.pending with
  | none => loop.controller.mode = .stop
  | some command => command.mode = .stop

omit [WheelDrive W] in
theorem atRest_iff {loop : Loop W} {shared : Shared.State} :
    loop.AtRest shared ↔ (shared.command.pending = none ∧ loop.controller.mode = .stop) ∨
      ∃ command, shared.command.pending = some command ∧ command.mode = .stop := by
  unfold AtRest
  cases shared.command.pending <;> simp

/-- At rest, picking up leaves a controller that stands still and the wheels as they are. -/
theorem AtRest.pickUp {loop : Loop W} {shared : Shared.State} (rest : loop.AtRest shared) :
    (loop.pickUp shared).1.controller.mode = .stop ∧ (loop.pickUp shared).1.wheels = loop.wheels := by
  -- A command to stop halts the controller and does not touch the wheels.
  rcases atRest_iff.mp rest with ⟨none, stop⟩ | ⟨command, some, stop⟩
  · rw [loop.pickUp_none none]
    exact ⟨stop, rfl⟩
  · rw [loop.pickUp_some some]
    simp only [accept, Controller.apply, Controller.accept_stop _ stop, stop, Mode.tracksDistance]
    exact ⟨rfl, rfl⟩

/-- At rest, a period writes zero to all wheels, reports nothing, and leaves the chassis at rest. -/
theorem AtRest.step {loop : Loop W} {shared : Shared.State} {result : Step W}
    (rest : loop.AtRest shared) (stepped : loop.step shared = .ok result) :
    result.outcome = .idle ∧ WheelDrive.apply loop.wheels .zero = .ok result.loop.wheels ∧
      result.loop.AtRest result.shared := by
  obtain ⟨stop, wheels_eq⟩ := rest.pickUp
  have command := step_command stepped
  obtain ⟨tick, ticked, applied, controller_eq, outcome_eq, _⟩ := step_ok stepped
  rw [Controller.tick_stop stop] at ticked
  cases ticked
  refine ⟨outcome_eq, wheels_eq ▸ applied, ?_⟩
  rw [AtRest, command, controller_eq]
  exact stop

end Loop

end Mecanum.Motion
