import Mecanum.Proofs.Binary32.Zero
import Mecanum.Proofs.Motion.Completion

/-!
# Only the speed outlasts a command

What an earlier command leaves behind sits in fields that the mode in force does not read: the loop
that holds the heading, the loop of an absolute turn and its heading. A command that brings a mode
which reads them sets them first. So two controllers of one configuration that move at the same
speed go on alike once they have accepted the same command, whatever they did before.
-/
namespace Mecanum.Motion

open Binary32 (Same)
open Heading (Snapshot)

/-! ## The sign of a zero is lost on the wheels -/

namespace WheelSpeeds

theorem command_congr {speed other : Float32} (same : Same speed other) (limit : Int) :
    command limit speed = command limit other := by
  simp only [command, Binary32.clampSymmetric, Binary32.clamp]
  split
  · exact congrArg Except.ok (same.cutOff _ _).toWord
  · rfl

/-- The wheels do not depend on the sign of a zero speed. -/
theorem mix_congr {speed other : Float32} (same : Same speed other) (mode : Mode)
    (correction : Float32) (limit : Int) :
    mix mode speed correction limit = mix mode other correction limit := by
  have straight {x y : Float32} (same : Same x y) :
      straight x correction limit = straight y correction limit := by
    simp only [WheelSpeeds.straight, clamped, command_congr (same.sub_right correction),
      command_congr (same.add_right correction)]
  have slide {x y : Float32} (same : Same x y) : slide x limit = slide y limit := by
    simp only [WheelSpeeds.slide, clamped, command_congr same, command_congr same.neg]
  have spin {x y : Float32} (same : Same x y) : spin x limit = spin y limit := by
    simp only [WheelSpeeds.spin, clamped, command_congr same, command_congr same.neg]
  cases mode with
  | stop => rfl
  | forward => exact straight same
  | backward => exact straight same.neg
  | slideLeft => exact slide same.neg
  | slideRight => exact slide same
  | turnLeft => exact spin same
  | turnRight => exact spin same.neg
  | turnAbsolute => rfl

end WheelSpeeds

theorem Profile.ramp_congr {current other : Float32} (same : Same current other)
    (profile : Profile) (target : Float32) :
    Same (profile.ramp current target) (profile.ramp other target) := by
  simp only [ramp, stepTowards, same.lt_left target, same.lt_right target]
  split
  · exact (same.add_right _).lesser target
  · split
    · exact (same.sub_right _).greater target
    · exact same

namespace Controller

/-! ## Controllers that go on alike -/

/-- Two controllers of one configuration that move at the same speed. -/
structure Level (first second : Controller) : Prop where
  config : first.config = second.config
  profile : first.profile = second.profile
  speed : Same first.currentSpeed second.currentSpeed
  headingGains : first.headingPid.gains = second.headingPid.gains
  turnGains : first.turnPid.gains = second.turnPid.gains

/-- Two controllers that differ at most in what their mode does not read. -/
structure Alike (first second : Controller) : Prop extends Level first second where
  mode : first.mode = second.mode
  targetSpeed : first.targetSpeed = second.targetSpeed
  targetPulses : first.targetPulses = second.targetPulses
  bounded : first.bounded = second.bounded
  lock : holdsHeading first.mode = true → first.headingPid = second.headingPid
  turn : first.mode = .turnAbsolute →
    first.targetHeading = second.targetHeading ∧ first.turnPid = second.turnPid

/-- Two ticks with the same outcome that leave controllers alike. -/
structure AlikeTicks (first second : Tick) : Prop where
  controller : Alike first.controller second.controller
  outcome : first.outcome = second.outcome

theorem Built.level {config : Config} {first second : Controller} (built : Built config first)
    (other : Built config second) (speed : Same first.currentSpeed second.currentSpeed) :
    Level first second where
  config := built.configured.trans other.configured.symm
  profile := built.profiled.trans other.profiled.symm
  speed := speed
  headingGains := built.heading.trans other.heading.symm
  turnGains := built.turn.trans other.turn.symm

variable {first second : Controller}

/-- Halted, two controllers of equal speed are alike. -/
theorem Level.halt (level : Level first second) : Alike first.halt second.halt where
  toLevel := { level with speed := .refl 0 }
  mode := rfl
  targetSpeed := rfl
  targetPulses := rfl
  bounded := rfl
  lock := nofun
  turn := nofun

/-- A turn begun from equal speeds finds the controllers alike. -/
theorem Level.beginTurn (level : Level first second) (angle : Float32) :
    Alike (first.beginTurn angle) (second.beginTurn angle) where
  toLevel := { level with turnGains := level.turnGains }
  mode := rfl
  targetSpeed := rfl
  targetPulses := rfl
  bounded := rfl
  lock := nofun
  turn _ := ⟨rfl, Pid.reset_congr level.turnGains 0⟩

/-- A travel begun from equal speeds finds the controllers alike. -/
theorem Level.beginTravel (level : Level first second) {command : Command}
    (travelling : command.mode.tracksDistance = true) (heading : Snapshot) :
    Alike (first.beginTravel command heading) (second.beginTravel command heading) where
  toLevel := by
    refine { level with headingGains := ?_ }
    simp only [Controller.beginTravel]
    split
    · exact level.headingGains
    · exact level.headingGains
  mode := rfl
  targetSpeed := rfl
  targetPulses := by simp only [Controller.beginTravel, level.config]
  bounded := rfl
  lock holds := by
    have locks : holdsHeading command.mode = true := holds
    simp only [Controller.beginTravel, if_pos locks]
    exact Pid.reset_congr level.headingGains heading.relative
  turn turning := by
    have turns : command.mode = .turnAbsolute := turning
    simp [turns, Mode.tracksDistance] at travelling

/-- A command sets all that its mode reads. -/
theorem Level.accept (level : Level first second) (command : Command) (heading : Snapshot) :
    Alike (first.accept command heading) (second.accept command heading) := by
  rcases command.mode.cases_tracksDistance with stop | turning | travelling
  · rw [accept_stop _ stop, accept_stop _ stop]
    exact level.halt
  · rw [accept_turn _ turning, accept_turn _ turning]
    exact level.beginTurn command.target
  · rw [accept_travel _ travelling, accept_travel _ travelling]
    exact level.beginTravel travelling heading

namespace Alike

theorem remaining (alike : Alike first second) (travelled : Int) :
    first.remaining travelled = second.remaining travelled := by
  simp only [Controller.remaining, alike.bounded, alike.targetPulses, alike.config]

theorem rampedSpeed (alike : Alike first second) (remaining : Float32) :
    Same (first.rampedSpeed remaining) (second.rampedSpeed remaining) := by
  simp only [Controller.rampedSpeed, alike.profile, alike.targetSpeed]
  exact Profile.ramp_congr alike.speed _ _

theorem hasArrived (alike : Alike first second) (remaining : Float32) {speed other : Float32}
    (same : Same speed other) :
    first.hasArrived remaining speed = second.hasArrived remaining other := by
  simp only [Controller.hasArrived, alike.bounded, alike.config, same.le_left]

/-- In a turn, alike controllers agree on the tick. -/
theorem turnTick (alike : Alike first second) (turning : first.mode = .turnAbsolute)
    (heading : Float32) : Agree AlikeTicks (first.turnTick heading) (second.turnTick heading) := by
  obtain ⟨goal, loop⟩ := alike.turn turning
  simp only [Controller.turnTick]
  apply Agree.ite (by rw [goal, alike.config])
  · intro reached
    exact .result ⟨alike.halt, rfl⟩
  · intro unreached
    have computed :
        first.turnPid.positional (-Heading.shortestError first.targetHeading heading) =
          second.turnPid.positional (-Heading.shortestError second.targetHeading heading) := by
      rw [goal, loop]
    rw [computed]
    apply Agree.bind_same
    intro turnPid
    have mixed : WheelSpeeds.mix first.mode 0 turnPid.output first.config.wheelLimit =
        WheelSpeeds.mix second.mode 0 turnPid.output second.config.wheelLimit := by
      rw [alike.mode, alike.config]
    rw [mixed]
    apply Agree.bind_same
    intro wheels
    exact .result ⟨{ alike with turnGains := rfl, turn := fun _ => ⟨goal, rfl⟩ }, rfl⟩

/-- In a travel, alike controllers agree on the tick. -/
theorem travelTick (alike : Alike first second) (heading : Float32) :
    Agree AlikeTicks (first.travelTick heading) (second.travelTick heading) := by
  have mixed (correction : Float32) :
      WheelSpeeds.mix first.mode (first.currentSpeed * first.config.speedScale) correction
          first.config.wheelLimit =
        WheelSpeeds.mix second.mode (second.currentSpeed * second.config.speedScale) correction
          second.config.wheelLimit := by
    rw [alike.mode, alike.config]
    exact WheelSpeeds.mix_congr (alike.speed.mul_right _) ..
  simp only [Controller.travelTick, mixed]
  apply Agree.ite (by rw [alike.mode])
  · intro holds
    rw [alike.lock holds]
    apply Agree.bind_same
    intro headingPid
    apply Agree.bind_same
    intro wheels
    exact .result ⟨{ alike with headingGains := rfl, lock := fun _ => rfl }, rfl⟩
  · intro free
    apply Agree.bind_same
    intro wheels
    exact .result ⟨alike, rfl⟩

theorem tick (alike : Alike first second) (travelled : Int) (heading : Float32) :
    Agree AlikeTicks (first.tick travelled heading) (second.tick travelled heading) := by
  have left := alike.remaining travelled
  have same := alike.rampedSpeed (second.remaining travelled)
  have ramped : Alike { first with currentSpeed := first.rampedSpeed (second.remaining travelled) }
      { second with currentSpeed := second.rampedSpeed (second.remaining travelled) } :=
    { alike with speed := same }
  simp only [Controller.tick, left]
  apply Agree.ite (by rw [alike.mode])
  · intro stop
    exact .result ⟨{ alike with speed := .refl 0 }, rfl⟩
  · intro moving
    apply Agree.ite (by rw [alike.hasArrived _ same])
    · intro arrived
      exact .result ⟨ramped.halt, rfl⟩
    · intro going
      apply Agree.ite (by rw [alike.mode])
      · intro turning
        exact ramped.turnTick turning heading
      · intro straight
        exact ramped.travelTick heading

/-- Alike controllers agree on every call. -/
theorem call (alike : Alike first second) (made : Call) :
    Agree (fun x y => Alike x.1 y.1 ∧ x.2.outcome? = y.2.outcome?)
      (first.call made) (second.call made) := by
  cases made with
  | apply command heading => exact .result ⟨alike.accept command heading, rfl⟩
  | tick travelled heading =>
    apply (alike.tick travelled heading).bind
    intro x y ticks
    exact .result ⟨ticks.controller, congrArg some ticks.outcome⟩

/-- Alike controllers tell the same outcomes over every run. -/
theorem run (alike : Alike first second) (calls : List Call) :
    Agree (fun x y => x.2.filterMap Event.outcome? = y.2.filterMap Event.outcome?)
      (first.run calls) (second.run calls) := by
  induction calls generalizing first second with
  | nil => exact .result rfl
  | cons made calls step =>
    apply (alike.call made).bind
    rintro ⟨_, event⟩ ⟨_, other⟩ ⟨later, told⟩
    apply (step later).bind
    rintro ⟨_, events⟩ ⟨_, others⟩ rest
    exact .result (by simp only [List.filterMap_cons, told, rest])

theorem outcomes (alike : Alike first second) (calls : List Call) :
    first.outcomes calls = second.outcomes calls :=
  (alike.run calls).map_eq fun _ _ same => same

end Alike

/-! ## Commands one after another -/

theorem currentSpeed_of_settled {config : Config} {calls : List Call} {last : Controller}
    {history : List Event} (ran : (new config).run calls = .ok (last, history))
    (settled : Settled history) : last.currentSpeed = 0 := by
  have follows := follows_run ran
  rw [inForce_of_settled settled] at follows
  cases follows with
  | idle stop still => exact still

/-- Behind a new command only the speed tells two controllers of one configuration apart, and a
settled controller answers like a new one. -/
theorem outcomes_apply {config : Config} {past other : List Call} {first second : Controller}
    {history otherHistory : List Event} (ran : (new config).run past = .ok (first, history))
    (otherRan : (new config).run other = .ok (second, otherHistory)) (command : Command)
    (heading : Snapshot) (calls : List Call) :
    (first.currentSpeed = second.currentSpeed ∨
        (first.currentSpeed == second.currentSpeed) = true →
      (first.apply command heading).1.outcomes calls =
        (second.apply command heading).1.outcomes calls) ∧
    (Settled history →
      (first.apply command heading).1.outcomes calls =
        ((new config).apply command heading).1.outcomes calls) := by
  have built : Built config first := (Built.new config).run ran
  have otherBuilt : Built config second := (Built.new config).run otherRan
  constructor
  · intro equal
    have same : Same first.currentSpeed second.currentSpeed := by
      cases equal with
      | inl equal => exact .inl equal
      | inr equal => exact .of_beq equal
    exact ((built.level otherBuilt same).accept command heading).outcomes calls
  · intro settled
    have same : Same first.currentSpeed (new config).currentSpeed :=
      .inl (currentSpeed_of_settled ran settled)
    exact ((built.level (Built.new config) same).accept command heading).outcomes calls

/-- A move after one that has ended, and after a turn that has lost its heading. -/
theorem outcomes_apply_afterLostTurn :
    let move : Command := .drive .forward 100 0.05
    let past : List Call := [.apply move ⟨90, 90⟩, .tick 0 90]
    let first : Controller :=
      { new .default with headingPid := (Pid.ofGains Config.default.headingLock).setTarget 90 }
    let history : List Event := [.applied move, .ticked ⟨first, .done, [.motionArrived .forward]⟩]
    let other : List Call := [.apply (.turnAbsolute 90) ⟨0, 0⟩, .tick 0 Binary32.nan]
    let second : Controller :=
      { new .default with
        mode := .turnAbsolute
        targetHeading := 90
        turnPid :=
          { Pid.ofGains Config.default.turn with
            integral := Binary32.nan, lastError := Binary32.nan, output := Binary32.nan } }
    let otherHistory : List Event :=
      [.applied (.turnAbsolute 90), .ticked ⟨second, .idle, []⟩]
    let command : Command := .drive .backward 300 0
    let calls : List Call := [.tick 0 25, .apply (.turnAbsolute (-30)) ⟨25, 25⟩, .tick 9 25]
    (new .default).run past = .ok (first, history) ∧
      (new .default).run other = .ok (second, otherHistory) ∧
      first.currentSpeed = second.currentSpeed ∧ Settled history ∧
      (first.apply command ⟨20, 20⟩).1.outcomes calls =
        (second.apply command ⟨20, 20⟩).1.outcomes calls ∧
      (first.apply command ⟨20, 20⟩).1.outcomes calls =
        ((new .default).apply command ⟨20, 20⟩).1.outcomes calls := by
  intro move past first history other second otherHistory command calls
  have ran : (new .default).run past = .ok (first, history) := by decide +kernel
  have otherRan : (new .default).run other = .ok (second, otherHistory) := by decide +kernel
  have settled : Settled history := ⟨[.applied move], _, [], rfl, rfl, nofun⟩
  obtain ⟨level, fresh⟩ := outcomes_apply ran otherRan command ⟨20, 20⟩ calls
  exact ⟨ran, otherRan, rfl, settled, level (.inl rfl), fresh settled⟩

end Controller

end Mecanum.Motion
