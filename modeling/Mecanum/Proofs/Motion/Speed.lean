import Mecanum.Proofs.Binary32.Exact
import Mecanum.Proofs.Binary32.Root
import Mecanum.Proofs.Motion.Completion
import Mecanum.Proofs.Motion.Mixing

/-!
# The ramped speed stays within what was asked

The target of the ramp changes with every tick, and a new command takes over the speed at which the
last one was superseded. But one step of the ramp stays between the speed there is and its target,
also where the step, the sum or the braking boundary is infinite or not a number. The target is not
negative and not above the speed asked for. So after any calls the speed lies between zero and the
greatest one that was commanded (`speed_within_commanded`), and the wheels of a mode without
a heading correction never turn against the direction of the mode.
-/
namespace Mecanum.Motion

open Binary32
open Heading (Snapshot)

/-! ## One step of the ramp -/

namespace Profile

section Step

variable {current target step bound : Float32}
  (forward : step.isNaN = true ∨ 0 ≤ step)

include forward

/-- A step stays above what bounds both its ends from below. -/
theorem le_stepTowards (first : bound ≤ current) (second : bound ≤ target) :
    bound ≤ stepTowards current target step := by
  have number := (numbers_of_le first).2
  have goal := (numbers_of_le second).2
  rw [stepTowards]
  split
  next =>
    apply le_lesser _ (.inr second) (.inr goal)
    rcases Binary32.le_add number forward with none | above
    · exact .inl none
    · exact .inr (Binary32.le_trans first above)
  next =>
    split
    next => exact Binary32.le_trans second (right_le_greater goal)
    next => exact first

/-- A step stays below what bounds both its ends from above. -/
theorem stepTowards_le (first : current ≤ bound) (second : target ≤ bound) :
    stepTowards current target step ≤ bound := by
  have number := (numbers_of_le first).1
  have goal := (numbers_of_le second).1
  rw [stepTowards]
  split
  next => exact Binary32.le_trans (lesser_le_right goal) second
  next =>
    split
    next =>
      apply greater_le _ second
      rcases Binary32.sub_le number forward with none | below
      · exact .inl none
      · exact .inr (Binary32.le_trans below first)
    next => exact first

end Step

/-- The boundary is not negative, if it is a number. -/
theorem boundary_natural {profile : Profile} (floor : 0 ≤ profile.floorSpeed)
    (remaining : Float32) :
    (profile.boundary remaining).isNaN = true ∨ 0 ≤ profile.boundary remaining := by
  rw [boundary]
  split
  next => exact .inr floor
  next =>
    by_cases natural : 0 ≤ 2 * profile.accel * remaining
    · exact .inr (rootEstimate_natural natural)
    · rw [rootEstimate, if_neg natural]
      exact .inl rfl

theorem tickSeconds_natural (config : Config) : 0 ≤ config.tickSeconds := by
  have period := nearest_toFloat32 config.tickMs
  have natural : 0 ≤ value config.tickMs.toFloat32 :=
    period.lower representable_zero (by exact_mod_cast Int.natCast_nonneg config.tickMs.toNat)
  have thousand : value 1000 = 1000 := by
    show (16384000 * 2 ^ (-14 : Int) : ℚ) = 1000
    norm_num
  have nonzero : value 1000 ≠ 0 := by
    rw [thousand]
    norm_num
  have rounds := rounds_div (canonical_unpack period.isFinite)
    (canonical_unpack (rfl : (1000 : Float32).isFinite = true)) nonzero
  apply rounds.le_pack rfl
  exact div_nonneg natural (thousand.ge.trans' (by norm_num))

theorem step_natural {config : Config} (accel : 0 ≤ config.accel) :
    (ofConfig config).step.isNaN = true ∨ 0 ≤ (ofConfig config).step :=
  mul_natural accel (tickSeconds_natural config)

end Profile

/-! ## Wheels along the direction of a mode -/

/-- The direction of each wheel in a mode that moves without a heading correction. -/
def Mode.direction? : Mode → Option WheelSpeeds
  | .slideLeft => some ⟨-1, 1, 1, -1⟩
  | .slideRight => some ⟨1, -1, -1, 1⟩
  | .turnLeft => some ⟨-1, 1, -1, 1⟩
  | .turnRight => some ⟨1, -1, 1, -1⟩
  | _ => none

namespace WheelSpeeds

/-- No wheel turns against its direction. -/
def Along (direction wheels : WheelSpeeds) : Prop :=
  ∀ wheel, 0 ≤ direction.get wheel * wheels.get wheel

variable {limit word : Int} {speed : Float32} (bound : 0 ≤ limit)
  (natural : speed.isNaN = true ∨ 0 ≤ speed)

include bound natural

theorem command_natural (cut : command limit speed = .ok word) : 0 ≤ word := by
  rw [command_eq bound] at cut
  cases cut
  exact word_leans bound (leans_positive_iff.mpr natural)

theorem command_neg_nonpos (cut : command limit (-speed) = .ok word) : word ≤ 0 := by
  rw [command_eq bound] at cut
  cases cut
  have opposite : Leans .negative (-speed) := leans_neg_iff.mpr (leans_positive_iff.mpr natural)
  exact neg_nonneg.mp (word_leans bound opposite)

/-- With a natural speed the wheels turn along the direction of the mode. -/
theorem along_mix {mode : Mode} {direction wheels : WheelSpeeds} {correction : Float32}
    (directed : mode.direction? = some direction)
    (mixed : mix mode speed correction limit = .ok wheels) : Along direction wheels := by
  have ahead {word : Int} (cut : command limit speed = .ok word) : 0 ≤ 1 * word := by
    rw [one_mul]
    exact command_natural bound natural cut
  have behind {word : Int} (cut : command limit (-speed) = .ok word) : 0 ≤ -1 * word := by
    rw [neg_one_mul]
    exact neg_nonneg.mpr (command_neg_nonpos bound natural cut)
  have turned {word : Int} (cut : command limit (- -speed) = .ok word) : 0 ≤ 1 * word := by
    rw [Binary32.neg_neg] at cut
    exact ahead cut
  cases mode with
  | slideLeft =>
    cases directed
    obtain ⟨a, b, c, d⟩ := clamped_eq_ok_iff.mp mixed
    rintro (_ | _ | _ | _)
    exacts [behind a, turned b, turned c, behind d]
  | slideRight =>
    cases directed
    obtain ⟨a, b, c, d⟩ := clamped_eq_ok_iff.mp mixed
    rintro (_ | _ | _ | _)
    exacts [ahead a, behind b, behind c, ahead d]
  | turnLeft =>
    cases directed
    obtain ⟨a, b, c, d⟩ := clamped_eq_ok_iff.mp mixed
    rintro (_ | _ | _ | _)
    exacts [behind a, ahead b, behind c, ahead d]
  | turnRight =>
    cases directed
    obtain ⟨a, b, c, d⟩ := clamped_eq_ok_iff.mp mixed
    rintro (_ | _ | _ | _)
    exacts [turned a, behind b, turned c, behind d]
  | _ => cases directed

end WheelSpeeds

/-! ## Histories -/

/-- The commands that are built of numbers. -/
inductive Command.Made : Command → Prop
  | stop : Made .stop
  | turnAbsolute (angle : Float32) : Made (.turnAbsolute angle)
  | drive (mode : Mode) {speed : Float32} (number : speed.isNaN = false) (distance : Float32) :
      Made (.drive mode speed distance)

theorem Command.Made.speed_natural {command : Command} (made : command.Made) :
    0 ≤ command.speed := by
  cases made with
  | stop => exact zero_natural
  | turnAbsolute angle => exact zero_natural
  | drive mode number distance => exact (Magnitude.abs number).natural

namespace Controller

/-- The greatest speed commanded so far, zero before any command. -/
def topSpeed (history : List Event) : Float32 :=
  ((history.filterMap Event.command?).map Command.speed).foldl greater 0

theorem topSpeed_applied (history : List Event) (command : Command) :
    topSpeed (history ++ [.applied command]) = greater (topSpeed history) command.speed := by
  simp [topSpeed, Event.command?]

theorem topSpeed_ticked (history : List Event) (tick : Tick) :
    topSpeed (history ++ [.ticked tick]) = topSpeed history := by
  have none : [Event.ticked tick].filterMap Event.command? = [] := rfl
  rw [topSpeed, List.filterMap_append, none, List.append_nil, topSpeed]

/-- Only commands that were called for are applied. -/
theorem apply_mem_of_run {controller last : Controller} {calls : List Call} {history : List Event}
    (ran : controller.run calls = .ok (last, history)) {command : Command}
    (applied : .applied command ∈ history) : ∃ heading, .apply command heading ∈ calls := by
  induction calls generalizing controller history with
  | nil =>
    cases ran
    cases applied
  | cons made calls step =>
    obtain ⟨next, event, events, called, rest, rfl⟩ := run_cons_ok.mp ran
    rcases List.mem_cons.mp applied with rfl | later
    · cases made with
      | apply command heading =>
        cases called
        exact ⟨heading, List.mem_cons_self⟩
      | tick travelled heading =>
        obtain ⟨result, -, told⟩ := bind_eq_ok_iff.mp called
        cases told
    · obtain ⟨heading, inside⟩ := step rest later
      exact ⟨heading, List.mem_cons_of_mem _ inside⟩

/-- The ramp moves within zero and a bound, and so does its target. -/
structure Paced (controller : Controller) (top : Float32) : Prop where
  current : 0 ≤ controller.currentSpeed
  target : 0 ≤ controller.targetSpeed
  currentTop : controller.currentSpeed ≤ top
  targetTop : controller.targetSpeed ≤ top

namespace Paced

variable {controller : Controller} {top : Float32}

theorem number (paced : Paced controller top) : top.isNaN = false :=
  (numbers_of_le paced.currentTop).2

theorem natural (paced : Paced controller top) : 0 ≤ top :=
  Binary32.le_trans paced.current paced.currentTop

theorem mono {higher : Float32} (paced : Paced controller top) (order : top ≤ higher) :
    Paced controller higher :=
  ⟨paced.current, paced.target, Binary32.le_trans paced.currentTop order,
    Binary32.le_trans paced.targetTop order⟩

theorem halt (paced : Paced controller top) : Paced controller.halt top := by
  exact ⟨zero_natural, zero_natural, paced.natural, paced.natural⟩

theorem accept (paced : Paced controller top) {command : Command} (ahead : 0 ≤ command.speed)
    (within : command.speed ≤ top) (heading : Snapshot) :
    Paced (controller.accept command heading) top := by
  rcases command.mode.cases_tracksDistance with stop | turning | travelling
  · rw [controller.accept_stop stop]
    exact paced.halt
  · rw [controller.accept_turn turning]
    exact ⟨paced.current, zero_natural, paced.currentTop, paced.natural⟩
  · rw [controller.accept_travel travelling]
    exact ⟨paced.current, ahead, paced.currentTop, within⟩

variable {config : Config}

theorem ramped (paced : Paced controller top) (built : Built config controller)
    (accel : 0 ≤ config.accel) (floor : 0 ≤ config.floorSpeed) (remaining : Float32) :
    0 ≤ controller.rampedSpeed remaining ∧ controller.rampedSpeed remaining ≤ top := by
  have boundary : (controller.profile.boundary remaining).isNaN = true ∨
      0 ≤ controller.profile.boundary remaining :=
    Profile.boundary_natural (by rw [built.profiled]; exact floor) remaining
  have forward : controller.profile.step.isNaN = true ∨ 0 ≤ controller.profile.step := by
    rw [built.profiled]
    exact Profile.step_natural accel
  have number := (numbers_of_le paced.target).2
  have goal := le_lesser (.inr paced.target) boundary (.inl number)
  have below : lesser controller.targetSpeed (controller.profile.boundary remaining) ≤ top :=
    Binary32.le_trans (lesser_le_left number) paced.targetTop
  exact ⟨Profile.le_stepTowards forward paced.current goal,
    Profile.stepTowards_le forward paced.currentTop below⟩

theorem tick (paced : Paced controller top) (built : Built config controller)
    (accel : 0 ≤ config.accel) (floor : 0 ≤ config.floorSpeed) {travelled : Int}
    {heading : Float32} {result : Tick} (stepped : Stepped controller travelled heading result) :
    Paced result.controller top := by
  obtain ⟨above, below⟩ := paced.ramped built accel floor (controller.remaining travelled)
  cases stepped with
  | idle => exact ⟨zero_natural, paced.target, paced.natural, paced.targetTop⟩
  | arrived => exact paced.halt
  | reached => exact paced.halt
  | turns => exact ⟨above, paced.target, below, paced.targetTop⟩
  | holds => exact ⟨above, paced.target, below, paced.targetTop⟩
  | travels => exact ⟨above, paced.target, below, paced.targetTop⟩

end Paced

section Runs

variable {config : Config} (accel : 0 ≤ config.accel) (floor : 0 ≤ config.floorSpeed)

include accel floor

/-- A call keeps the controller within the top speed commanded. -/
theorem Paced.call {controller next : Controller} {earlier : List Event} {made : Call}
    {event : Event} (paced : Paced controller (topSpeed earlier)) (built : Built config controller)
    (called : controller.call made = .ok (next, event))
    (sound : ∀ command, event = .applied command → command.Made) :
    Paced next (topSpeed (earlier ++ [event])) := by
  cases made with
  | apply command heading =>
    cases called
    have ahead := (sound command rfl).speed_natural
    rw [topSpeed_applied]
    exact (paced.mono (left_le_greater paced.number)).accept ahead
      (right_le_greater (numbers_of_le ahead).2) heading
  | tick travelled heading =>
    obtain ⟨result, ticked, told⟩ := bind_eq_ok_iff.mp called
    cases told
    rw [topSpeed_ticked]
    exact paced.tick built accel floor (stepped_of_tick ticked)

/-- Over every run of sound commands the controller is within the top speed commanded. -/
theorem paced_run {calls : List Call} {last : Controller} {history : List Event}
    (ran : (new config).run calls = .ok (last, history))
    (sound : ∀ command, .applied command ∈ history → command.Made) :
    Built config last ∧ Paced last (topSpeed history) := by
  have kept {controller next : Controller} {earlier : List Event} {made : Call} {event : Event}
      (within : (∀ command, .applied command ∈ earlier → command.Made) →
        Built config controller ∧ Paced controller (topSpeed earlier))
      (called : controller.call made = .ok (next, event))
      (sound : ∀ command, .applied command ∈ earlier ++ [event] → command.Made) :
      Built config next ∧ Paced next (topSpeed (earlier ++ [event])) := by
    obtain ⟨built, paced⟩ := within fun command applied =>
      sound command (List.mem_append_left _ applied)
    refine ⟨built.call called, paced.call accel floor built called ?_⟩
    rintro command rfl
    exact sound command (by simp)
  have initial : Built config (new config) ∧ Paced (new config) (topSpeed []) :=
    ⟨.new config, ⟨zero_natural, zero_natural, zero_natural, zero_natural⟩⟩
  exact run_invariant
    (fun controller earlier => (∀ command, .applied command ∈ earlier → command.Made) →
      Built config controller ∧ Paced controller (topSpeed earlier))
    kept ran (fun _ => initial) (by simpa using sound)

/-- In a mode with a direction the wheels turn along it. -/
theorem Paced.along {controller : Controller} {top : Float32} (paced : Paced controller top)
    (built : Built config controller) (scale : 0 ≤ config.speedScale)
    (wheels : 0 ≤ config.wheelLimit) {travelled : Int} {heading : Float32} {result : Tick}
    (stepped : Stepped controller travelled heading result) {direction : WheelSpeeds}
    (directed : controller.mode.direction? = some direction) :
    direction.Along result.outcome.wheels := by
  have still : direction.Along .zero := by
    rintro (_ | _ | _ | _) <;> exact (mul_zero _).ge
  have onward := (paced.ramped built accel floor (controller.remaining travelled)).1
  cases stepped with
  | idle => exact still
  | arrived => exact still
  | reached => exact still
  | turns turning =>
    rw [turning] at directed
    cases directed
  | holds _ _ _ mixed =>
    exact WheelSpeeds.along_mix (by rw [built.configured]; exact wheels)
      (mul_natural onward (by rw [built.configured]; exact scale)) directed mixed
  | travels _ _ mixed =>
    exact WheelSpeeds.along_mix (by rw [built.configured]; exact wheels)
      (mul_natural onward (by rw [built.configured]; exact scale)) directed mixed

/--
After any calls the speed lies between zero and the greatest one commanded, and in no tick has
a mode with a direction turned a wheel against it.
-/
theorem speed_within_commanded (scale : 0 ≤ config.speedScale) (wheels : 0 ≤ config.wheelLimit)
    (lock : config.headingLock.limit.isNaN = false) (turn : config.turn.limit.isNaN = false)
    (calls : List Call) (made : ∀ command heading, .apply command heading ∈ calls → command.Made) :
    ∃ last history, (new config).run calls = .ok (last, history) ∧
      last.currentSpeed.isNaN = false ∧ 0 ≤ last.currentSpeed ∧
      last.currentSpeed ≤ topSpeed history ∧
      ∀ before tick after command direction, history = before ++ .ticked tick :: after →
        inForce before = some command → command.mode.direction? = some direction →
        direction.Along tick.outcome.wheels := by
  obtain ⟨last, history, ran⟩ := (Built.new config).exists_run wheels lock turn calls
  have sound (command : Command) (applied : .applied command ∈ history) : command.Made := by
    obtain ⟨heading, inside⟩ := apply_mem_of_run ran applied
    exact made command heading inside
  obtain ⟨-, paced⟩ := paced_run accel floor ran sound
  refine ⟨last, history, ran, (numbers_of_le paced.current).2, paced.current, paced.currentTop, ?_⟩
  rintro before tick after command direction rfl force directed
  obtain ⟨front, call, middle, next, fronted, called⟩ := run_split ran
  obtain ⟨built, paced⟩ := paced_run accel floor fronted fun command applied =>
    sound command (List.mem_append_left _ applied)
  have follows := follows_run fronted
  rw [force] at follows
  cases follows with
  | active mode =>
    cases call with
    | apply => cases called
    | tick travelled heading =>
      obtain ⟨result, ticked, told⟩ := bind_eq_ok_iff.mp called
      cases told
      exact paced.along accel floor built scale wheels (stepped_of_tick ticked) (mode ▸ directed)

end Runs

/-- A slide that is superseded by a turn after its first tick. -/
theorem speed_within_commanded_slideLeft :
    let slide : Command := .drive .slideLeft (-300) 132
    let turn : Command := .turnAbsolute 90
    let calls : List Call := [.apply slide ⟨0, 0⟩, .tick 0 0, .apply turn ⟨0, 0⟩]
    let middle : Controller := { (new .default).accept slide ⟨0, 0⟩ with currentSpeed := 8 }
    let tick : Tick := ⟨middle, ⟨⟨-40, 40, 40, -40⟩, false⟩, []⟩
    let last : Controller := middle.accept turn ⟨0, 0⟩
    let history : List Event := [.applied slide, .ticked tick, .applied turn]
    0 ≤ Config.default.accel ∧ 0 ≤ Config.default.floorSpeed ∧ 0 ≤ Config.default.speedScale ∧
      0 ≤ Config.default.wheelLimit ∧ Config.default.headingLock.limit.isNaN = false ∧
      Config.default.turn.limit.isNaN = false ∧
      (∀ command heading, .apply command heading ∈ calls → command.Made) ∧
      (new .default).run calls = .ok (last, history) ∧
      0 ≤ last.currentSpeed ∧ last.currentSpeed ≤ topSpeed history ∧ topSpeed history = 300 ∧
      WheelSpeeds.Along ⟨-1, 1, 1, -1⟩ tick.outcome.wheels := by
  intro slide turn calls middle tick last history
  have accel : 0 ≤ Config.default.accel := by decide +kernel
  have floor : 0 ≤ Config.default.floorSpeed := by decide +kernel
  have scale : 0 ≤ Config.default.speedScale := by decide +kernel
  have wheels : 0 ≤ Config.default.wheelLimit := by decide
  have lock : Config.default.headingLock.limit.isNaN = false := by decide +kernel
  have limit : Config.default.turn.limit.isNaN = false := by decide +kernel
  have made (command : Command) (heading : Snapshot) (inside : .apply command heading ∈ calls) :
      command.Made := by
    simp only [calls, List.mem_cons, Call.apply.injEq, reduceCtorEq, List.not_mem_nil, or_false,
      false_or] at inside
    rcases inside with ⟨rfl, -⟩ | ⟨rfl, -⟩
    · exact .drive .slideLeft (by decide +kernel) 132
    · exact .turnAbsolute 90
  have ran : (new .default).run calls = .ok (last, history) := by decide +kernel
  have top : topSpeed history = 300 := by decide +kernel
  obtain ⟨ended, events, same, -, natural, within, along⟩ :=
    speed_within_commanded accel floor scale wheels lock limit calls made
  cases ran.symm.trans same
  exact ⟨accel, floor, scale, wheels, lock, limit, made, ran, natural, within, top,
    along [.applied slide] tick [.applied turn] slide _ rfl rfl rfl⟩

end Controller

end Mecanum.Motion
