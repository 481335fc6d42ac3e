import Mecanum.Motion.Controller
import Mecanum.Proofs.Fault

/-!
# Single calls of the controller

A command halts the controller, begins an absolute turn or begins to travel. What a tick does is
said by one case for each of its branches (`Stepped`). They come down to three things (`Ticked`): a
controller that stands still stays idle, a command that is due ends, and any other command goes on
with a new ramped speed. None of them touches what the configuration has set: the profile and the
gains of the two loops (`Built`).
-/
namespace Mecanum

namespace Pid

/-- What a loop keeps through every call: its gains and its limit. -/
def gains (pid : Pid) : Gains := ⟨pid.kp, pid.ki, pid.kd, pid.limit⟩

theorem gains_positional {pid next : Pid} {measurement : Float32}
    (computed : pid.positional measurement = .ok next) : next.gains = pid.gains := by
  simp only [positional] at computed
  obtain ⟨integral, -, computed⟩ := bind_eq_ok_iff.mp computed
  obtain ⟨output, -, computed⟩ := bind_eq_ok_iff.mp computed
  cases computed
  rfl

/-- Nothing but the gains outlasts a reset. -/
theorem reset_congr {pid other : Pid} (same : pid.gains = other.gains) (target : Float32) :
    pid.reset.setTarget target = other.reset.setTarget target := by
  cases pid
  cases other
  simp only [gains, Gains.mk.injEq] at same
  obtain ⟨rfl, rfl, rfl, rfl⟩ := same
  rfl

end Pid

namespace Motion

open Heading (Snapshot)

theorem Mode.cases_tracksDistance (mode : Mode) :
    mode = .stop ∨ mode = .turnAbsolute ∨ mode.tracksDistance = true := by
  cases mode <;> simp [tracksDistance]

namespace Controller

variable {controller : Controller}

section Accepting

variable (controller) {command : Command} {heading : Snapshot}

theorem accept_stop (stop : command.mode = .stop) :
    controller.accept command heading = controller.halt := by
  simp only [accept, stop]

theorem accept_turn (turning : command.mode = .turnAbsolute) :
    controller.accept command heading = controller.beginTurn command.target := by
  simp only [accept, turning]

theorem accept_travel (travelling : command.mode.tracksDistance = true) :
    controller.accept command heading = controller.beginTravel command heading := by
  unfold accept
  split
  next stop => simp [stop, Mode.tracksDistance] at travelling
  next turning => simp [turning, Mode.tracksDistance] at travelling
  next => rfl

theorem mode_accept (command : Command) (heading : Snapshot) :
    (controller.accept command heading).mode = command.mode := by
  rcases command.mode.cases_tracksDistance with stop | turning | travelling
  · rw [controller.accept_stop stop, stop]
    rfl
  · rw [controller.accept_turn turning, turning]
    rfl
  · rw [controller.accept_travel travelling]
    rfl

end Accepting

/-- What a tick does, branch by branch. -/
inductive Stepped (controller : Controller) (travelled : Int) (heading : Float32) :
    Tick → Prop where
  | idle (stop : controller.mode = .stop) :
      Stepped controller travelled heading ⟨{ controller with currentSpeed := 0 }, .idle, []⟩
  | arrived (moving : controller.mode ≠ .stop)
      (arrived : controller.hasArrived (controller.remaining travelled)
        (controller.rampedSpeed (controller.remaining travelled)) = true) :
      Stepped controller travelled heading
        ⟨controller.halt, .done, [.motionArrived controller.mode]⟩
  | reached (turning : controller.mode = .turnAbsolute)
      (near : (Heading.shortestError controller.targetHeading heading).abs <
        controller.config.turnThreshold) :
      Stepped controller travelled heading
        ⟨controller.halt, .done, [.headingReached controller.targetHeading]⟩
  | turns (turning : controller.mode = .turnAbsolute) {turnPid : Pid} {wheels : WheelSpeeds}
      (computed : controller.turnPid.positional
        (-Heading.shortestError controller.targetHeading heading) = .ok turnPid)
      (mixed : WheelSpeeds.mix controller.mode 0 turnPid.output controller.config.wheelLimit =
        .ok wheels) :
      Stepped controller travelled heading
        ⟨{ controller with
            currentSpeed := controller.rampedSpeed (controller.remaining travelled)
            turnPid := turnPid },
          ⟨wheels, false⟩, []⟩
  | holds (moving : controller.mode ≠ .stop) (holds : holdsHeading controller.mode = true)
      {headingPid : Pid} {wheels : WheelSpeeds}
      (computed : controller.headingPid.positional heading = .ok headingPid)
      (mixed : WheelSpeeds.mix controller.mode
        (controller.rampedSpeed (controller.remaining travelled) * controller.config.speedScale)
        headingPid.output controller.config.wheelLimit = .ok wheels) :
      Stepped controller travelled heading
        ⟨{ controller with
            currentSpeed := controller.rampedSpeed (controller.remaining travelled)
            headingPid := headingPid },
          ⟨wheels, false⟩, []⟩
  | travels (moving : controller.mode ≠ .stop) (free : holdsHeading controller.mode = false)
      {wheels : WheelSpeeds}
      (mixed : WheelSpeeds.mix controller.mode
        (controller.rampedSpeed (controller.remaining travelled) * controller.config.speedScale) 0
        controller.config.wheelLimit = .ok wheels) :
      Stepped controller travelled heading
        ⟨{ controller with
            currentSpeed := controller.rampedSpeed (controller.remaining travelled) },
          ⟨wheels, false⟩, []⟩

/-- A tick that comes out is idle, ends the motion, or drives the wheels on. -/
theorem stepped_of_tick {travelled : Int} {heading : Float32} {result : Tick}
    (ticked : controller.tick travelled heading = .ok result) :
    Stepped controller travelled heading result := by
  simp only [tick] at ticked
  split at ticked
  next stop =>
    cases ticked
    exact .idle stop
  next moving =>
    split at ticked
    next arrived =>
      cases ticked
      exact .arrived moving arrived
    next =>
      split at ticked
      next turning =>
        simp only [turnTick] at ticked
        split at ticked
        next near =>
          cases ticked
          exact .reached turning near
        next =>
          obtain ⟨turnPid, computed, ticked⟩ := bind_eq_ok_iff.mp ticked
          obtain ⟨wheels, mixed, ticked⟩ := bind_eq_ok_iff.mp ticked
          cases ticked
          exact .turns turning computed mixed
      next =>
        simp only [travelTick] at ticked
        split at ticked
        next holds =>
          obtain ⟨headingPid, computed, ticked⟩ := bind_eq_ok_iff.mp ticked
          obtain ⟨wheels, mixed, ticked⟩ := bind_eq_ok_iff.mp ticked
          cases ticked
          exact .holds moving holds computed mixed
        next free =>
          obtain ⟨wheels, mixed, ticked⟩ := bind_eq_ok_iff.mp ticked
          cases ticked
          exact .travels moving (Bool.eq_false_iff.mpr free) mixed

/-- What a tick does to the command in force. -/
inductive Ticked (controller : Controller) : Tick → Prop where
  | idle (stop : controller.mode = .stop) :
      Ticked controller ⟨{ controller with currentSpeed := 0 }, .idle, []⟩
  | ended (moving : controller.mode ≠ .stop)
      (due : controller.bounded = true ∨ controller.mode = .turnAbsolute)
      (notes : List Journal.Note) : Ticked controller ⟨controller.halt, .done, notes⟩
  | underWay (moving : controller.mode ≠ .stop) {speed : Float32} {headingPid turnPid : Pid}
      (heading : headingPid.gains = controller.headingPid.gains)
      (turn : turnPid.gains = controller.turnPid.gains) (wheels : WheelSpeeds) :
      Ticked controller
        ⟨{ controller with currentSpeed := speed, headingPid := headingPid, turnPid := turnPid },
          ⟨wheels, false⟩, []⟩

/-- A tick that comes out is idle, ends the motion, or leaves it under way with the gains unchanged.
-/
theorem ticked_of_tick {travelled : Int} {heading : Float32} {result : Tick}
    (ticked : controller.tick travelled heading = .ok result) : Ticked controller result := by
  have turns (turning : controller.mode = .turnAbsolute) : controller.mode ≠ .stop := by
    rw [turning]
    decide
  cases stepped_of_tick ticked with
  | idle stop => exact .idle stop
  | arrived moving arrived =>
    simp only [hasArrived, Bool.and_eq_true] at arrived
    exact .ended moving (.inl arrived.1.1) _
  | reached turning => exact .ended (turns turning) (.inr turning) _
  | turns turning computed => exact .underWay (turns turning) rfl (Pid.gains_positional computed) _
  | holds moving _ computed => exact .underWay moving (Pid.gains_positional computed) rfl _
  | travels moving => exact .underWay moving rfl rfl _

/-- The controller carries what its configuration has set. -/
structure Built (config : Config) (controller : Controller) : Prop where
  configured : controller.config = config
  profiled : controller.profile = .ofConfig config
  heading : controller.headingPid.gains = (Pid.ofGains config.headingLock).gains
  turn : controller.turnPid.gains = (Pid.ofGains config.turn).gains

namespace Built

variable {config : Config}

theorem new (config : Config) : Built config (.new config) := ⟨rfl, rfl, rfl, rfl⟩

theorem halt (built : Built config controller) : Built config controller.halt :=
  ⟨built.configured, built.profiled, built.heading, built.turn⟩

theorem accept (built : Built config controller) (command : Command) (heading : Snapshot) :
    Built config (controller.accept command heading) := by
  rcases command.mode.cases_tracksDistance with stop | turning | travelling
  · rw [controller.accept_stop stop]
    exact built.halt
  · rw [controller.accept_turn turning]
    exact ⟨built.configured, built.profiled, built.heading, built.turn⟩
  · rw [controller.accept_travel travelling]
    refine ⟨built.configured, built.profiled, ?_, built.turn⟩
    simp only [beginTravel]
    split
    · exact built.heading
    · exact built.heading

theorem tick (built : Built config controller) {result : Tick} (ticked : Ticked controller result) :
    Built config result.controller := by
  cases ticked with
  | idle => exact ⟨built.configured, built.profiled, built.heading, built.turn⟩
  | ended => exact built.halt
  | underWay moving heading turn =>
    exact ⟨built.configured, built.profiled, heading.trans built.heading, turn.trans built.turn⟩

end Built

end Controller

end Motion

end Mecanum
