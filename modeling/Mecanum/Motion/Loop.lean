import Mecanum.Motion.Controller
import Mecanum.Motion.Drive
import Mecanum.Shared.State

/-!
# The motion loop

Once per control period the loop picks up the command left for the chassis, if there is one, runs
the controller on the steps of the front left wheel and the latest heading, commands the wheels,
and signals when the command in force has ended.
-/
namespace Mecanum.Motion

open Journal (Note)

/-- The controller and the wheels it drives. -/
structure Loop (W : Type) where
  controller : Controller
  wheels : W

structure Loop.Step (W : Type) where
  loop : Loop W
  shared : Shared.State
  outcome : Outcome
  notes : List Note

namespace Loop

variable {W : Type} [WheelDrive W]

/-- A loop whose wheels stand still and count from zero. -/
def new (config : Config) (wheels : W) : Loop W :=
  ⟨.new config, WheelDrive.resetSteps (WheelDrive.stopAll wheels)⟩

/-- Takes a command on. The wheels count from zero if the command measures its progress by them. -/
def accept (loop : Loop W) (command : Command) (heading : Heading.Snapshot) : Loop W × List Note :=
  let wheels :=
    if command.mode.tracksDistance then WheelDrive.resetSteps loop.wheels else loop.wheels
  let (controller, notes) := loop.controller.apply command heading
  (⟨controller, wheels⟩, notes)

def pickUp (loop : Loop W) (shared : Shared.State) : Loop W × Shared.State × List Note :=
  match shared.takeCommand with
  | (some command, shared) =>
    let (loop, notes) := loop.accept command shared.heading.snapshot
    (loop, shared, notes)
  | (none, shared) => (loop, shared, [])

def step (loop : Loop W) (shared : Shared.State) : Except Fault (Step W) := do
  let (loop, shared, opening) := loop.pickUp shared
  let travelled := WheelDrive.steps loop.wheels .frontLeft
  let tick ← loop.controller.tick travelled shared.heading.snapshot.relative
  let wheels ← WheelDrive.apply loop.wheels tick.outcome.wheels
  let loop := ⟨tick.controller, wheels⟩
  if tick.outcome.finished then
    return ⟨loop, shared.signalMove, tick.outcome,
      opening ++ tick.notes ++ [.motionFinished travelled]⟩
  else
    return ⟨loop, shared, tick.outcome, opening ++ tick.notes⟩

end Loop

end Mecanum.Motion
