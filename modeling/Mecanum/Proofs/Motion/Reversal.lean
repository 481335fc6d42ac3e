import Mecanum.Proofs.Binary32.Closest
import Mecanum.Proofs.Motion.Lock
import Mecanum.Proofs.Motion.Speed

/-!
# Reversals

The ramp limits the speed of a move, which has no sign; the direction is that of the mode. From one
tick to the next the wheel commands of straight travel change by at most one step of the ramp, as
long as the mode stays (`abs_cruise_sub_le`). A command that turns the direction around keeps the
speed and gives it the other sign. So the velocity stays within the limit only if the two commands
together do (`velocity_limited_iff`).
-/
namespace Mecanum.Motion

open Binary32
open Heading (Snapshot)

/-! ## One step of the robot's ramp -/

namespace Profile

/--
One step of eight, and what rounding adds below 4096. Above that the sums are rounded to coarser
units, but no step leads down to 4000.
-/
theorem stepTowards_near {current target : Float32} (finite : current.isFinite = true)
    (goal : target.isFinite = true) (natural : 0 ≤ value current)
    (bounded : value current ≤ 2 ^ 65) :
    (value current ≤ 4096 →
      |value (stepTowards current target 8) - value current| ≤ 8 + 1 / 2 ^ 11) ∧
    (4096 < value current → 4000 ≤ value (stepTowards current target 8)) := by
  have eight : value 8 = 8 := by
    show (8388608 * 2 ^ (-20 : Int) : ℚ) = 8
    norm_num
  have itself := representable_exactly (canonical_unpack finite)
  have unit : (1 / 2 ^ 11 : ℚ) = 2 ^ (-11 : Int) := by norm_num
  rw [stepTowards]
  split
  next up =>
    have order := (lt_iff_value finite goal).mp up
    have sum : Nearest (value current + 8) (current + 8) := by
      rw [← eight]
      apply nearest_add finite rfl
      rw [eight, abs_of_nonneg (by linarith)]
      exact (add_le_add_left bounded 8).trans (by norm_num)
    have above : value current ≤ value (current + 8) := sum.lower itself (by linarith)
    rw [value_lesser sum.isFinite goal]
    constructor
    · intro slow
      have near := sum.abs_sub_le (by decide : (-149 : Int) ≤ -11)
        (by rw [abs_of_nonneg (by linarith)]; norm_num; linarith)
      have near : value (current + 8) - (value current + 8) ≤ 2 ^ (-11 : Int) := (abs_le.mp near).2
      have next := min_le_left (value (current + 8)) (value target)
      have least := le_min above order.le
      rw [abs_of_nonneg (sub_nonneg.mpr least), unit]
      linarith
    · intro fast
      exact le_min (by linarith) (by linarith)
  next =>
    split
    next down =>
      have order := (lt_iff_value goal finite).mp down
      have difference : Nearest (value current - 8) (current - 8) := by
        rw [← eight]
        apply nearest_sub finite rfl
        rw [eight, abs_le]
        norm_num at bounded ⊢
        constructor <;> linarith
      have below : value (current - 8) ≤ value current := difference.upper itself (by linarith)
      rw [value_greater difference.isFinite goal]
      constructor
      · intro slow
        have near := difference.abs_sub_le (by decide : (-149 : Int) ≤ -11)
          (by rw [abs_le]; norm_num; constructor <;> linarith)
        have near : -2 ^ (-11 : Int) ≤ value (current - 8) - (value current - 8) :=
          (abs_le.mp near).1
        have next := le_max_left (value (current - 8)) (value target)
        have most := max_le below order.le
        rw [abs_sub_comm, abs_of_nonneg (sub_nonneg.mpr most), unit]
        linarith
      · intro fast
        have whole : ((4000 : Int) : ℚ) ≤ value (current - 8) :=
          difference.lower (representable_int (by decide)) (by push_cast; linarith)
        exact le_max_of_le_left (by exact_mod_cast whole)
    next =>
      constructor
      · intro
        rw [sub_self, abs_zero]
        norm_num
      · intro fast
        linarith

end Profile

/-! ## Wheel commands of straight travel -/

/-- Rounding down adds less than one to a difference. -/
theorem abs_floor_sub_floor_le {a b : ℚ} {n : Int} (near : |a - b| < n) : |⌊a⌋ - ⌊b⌋| ≤ n := by
  obtain ⟨low, high⟩ := abs_lt.mp near
  have first := Int.floor_le a
  have second := Int.floor_le b
  have third := Int.lt_floor_add_one a
  have fourth := Int.lt_floor_add_one b
  have below : (⌊b⌋ : ℚ) < (⌊a⌋ + n + 1 : Int) := by
    push_cast
    linarith
  have above : (⌊a⌋ : ℚ) < (⌊b⌋ + n + 1 : Int) := by
    push_cast
    linarith
  have below : ⌊b⌋ < ⌊a⌋ + n + 1 := by exact_mod_cast below
  have above : ⌊a⌋ < ⌊b⌋ + n + 1 := by exact_mod_cast above
  rw [abs_le]
  omega

/-- The wheel command of straight travel at a speed. -/
def cruise (speed : Float32) : Int := ⌊min (value (speed * 5)) 10000⌋

section Cruise

variable {speed : Float32} (finite : speed.isFinite = true) (natural : 0 ≤ value speed)
  (bounded : value speed ≤ 2 ^ 65)

include finite natural bounded

/-- The scaled speed is the rounding of five times the speed. -/
theorem nearest_scaled : Nearest (5 * value speed) (speed * 5) := by
  have five : value 5 = 5 := by
    show (10485760 * 2 ^ (-21 : Int) : ℚ) = 5
    norm_num
  rw [mul_comm, ← five]
  apply nearest_mul finite rfl
  rw [five, abs_of_nonneg (by linarith)]
  norm_num at bounded ⊢
  linarith

theorem value_scaled_natural : 0 ≤ value (speed * 5) :=
  (nearest_scaled finite natural bounded).lower representable_zero (by linarith)

theorem value_scaled_le : value (speed * 5) ≤ 2 ^ (127 : Int) := by
  refine (nearest_scaled finite natural bounded).upper (representable_two_pow (by decide)) ?_
  norm_num at bounded ⊢
  linarith

/-- The robot's wheel commands, ahead and behind. -/
theorem command_eq_cruise : WheelSpeeds.command 10000 (speed * 5) = .ok (cruise speed) ∧
    WheelSpeeds.command 10000 (-(speed * 5)) = .ok (-cruise speed) :=
  WheelSpeeds.command_eq_floor (by decide) (by decide)
    (nearest_scaled finite natural bounded).isFinite (value_scaled_natural finite natural bounded)

theorem cruise_natural : 0 ≤ cruise speed :=
  Int.floor_nonneg.mpr (le_min (value_scaled_natural finite natural bounded) (by norm_num))

/-- Fast wheels turn at the limit. -/
theorem cruise_of_fast (fast : 4000 ≤ value speed) : cruise speed = 10000 := by
  have whole : ((10000 : Int) : ℚ) ≤ value (speed * 5) :=
    (nearest_scaled finite natural bounded).lower (representable_int (by decide))
      (by push_cast; linarith)
  have limit : min (value (speed * 5)) 10000 = ((10000 : Int) : ℚ) :=
    min_eq_right (by exact_mod_cast whole)
  rw [cruise, limit, Int.floor_intCast]

/-- At such speeds the rounding of the scaled speed is below a five-hundredth. -/
theorem abs_scaled_sub_le (slow : value speed ≤ 6000) :
    |value (speed * 5) - 5 * value speed| ≤ 1 / 2 ^ 9 := by
  have unit : (1 / 2 ^ 9 : ℚ) = 2 ^ (-9 : Int) := by norm_num
  rw [unit]
  apply (nearest_scaled finite natural bounded).abs_sub_le (by decide)
  rw [abs_of_nonneg (by linarith)]
  norm_num
  linarith

/-- One step of the ramp changes the wheel command by forty units, and one for the fractions. -/
theorem abs_cruise_sub_le {next : Float32} (finite' : next.isFinite = true)
    (natural' : 0 ≤ value next) (bounded' : value next ≤ 2 ^ 65)
    (near : value speed ≤ 4096 → |value next - value speed| ≤ 8 + 1 / 2 ^ 11)
    (fast : 4096 < value speed → 4000 ≤ value next) : |cruise next - cruise speed| ≤ 41 := by
  rcases le_or_gt (value speed) 4096 with slow | quick
  · have step := near slow
    obtain ⟨low, high⟩ := abs_le.mp step
    have first := abs_scaled_sub_le finite natural bounded (by linarith)
    have second := abs_scaled_sub_le finite' natural' bounded' (by norm_num at high; linarith)
    have scaled : |value (next * 5) - value (speed * 5)| < 41 := by
      rw [abs_le] at first second
      rw [abs_lt]
      norm_num at *
      constructor <;> linarith
    have cut : |min (value (next * 5)) 10000 - min (value (speed * 5)) 10000| < (41 : Int) := by
      refine (abs_min_sub_min_le_max ..).trans_lt (max_lt scaled ?_)
      rw [sub_self, abs_zero]
      norm_num
    exact abs_floor_sub_floor_le cut
  · rw [cruise_of_fast finite natural bounded (by linarith),
      cruise_of_fast finite' natural' bounded' (fast quick), sub_self]
    decide

end Cruise

/-! ## Straight courses -/

/-- A command to travel forward or backward. -/
inductive Command.Straight : Command → Prop
  | forward (speed distance : Float32) : Straight (.drive .forward speed distance)
  | backward (speed distance : Float32) : Straight (.drive .backward speed distance)

namespace Controller

/--
Commands to travel forward or backward, and ticks at the heading locked by the last one, if there is
one already.
-/
def Straight : Option Float32 → List Call → Prop
  | _, [] => True
  | _, .apply command heading :: calls =>
    command.Straight ∧ Straight (some heading.relative) calls
  | lock, .tick _ heading :: calls =>
    (∀ locked, lock = some locked → Same locked heading) ∧ Straight lock calls

/-- A tick measures the heading it is locked to. -/
theorem same_locked (heading locked : Float32) (lock : some heading = some locked) :
    Same locked heading := by
  cases lock
  exact .refl heading

/-- The greatest speed that the robot's ramp can reach. -/
def topRamp : Float32 := 36893488147419103232

theorem zero_le_topRamp : 0 ≤ topRamp := by decide +kernel

/-- What the robot's controller keeps on a straight course with a heading locked. -/
structure OnCourse (lock : Option Float32) (controller : Controller) : Prop where
  built : Built .default controller
  natural : 0 ≤ controller.currentSpeed
  bounded : controller.currentSpeed ≤ topRamp
  target : controller.targetSpeed.isNaN = true ∨ 0 ≤ controller.targetSpeed
  straight : controller.mode = .stop ∨ controller.mode = .forward ∨ controller.mode = .backward
  locked : controller.mode ≠ .stop → lock = some controller.lockedHeading
  quiet : controller.mode ≠ .stop → controller.lockedHeading.isFinite = true →
    controller.headingPid.Quiet

/-- The sign of the wheel commands in a mode of straight travel. -/
def heads : Mode → Int
  | .forward => 1
  | .backward => -1
  | _ => 0

/-- The wheel commands on a straight course at a heading. -/
def courseWheels (mode : Mode) (heading speed : Float32) : WheelSpeeds :=
  .level (heads mode * if heading.isFinite then cruise speed else 0)

namespace OnCourse

variable {lock : Option Float32} {controller : Controller}

theorem new : OnCourse none (new .default) where
  built := .new .default
  natural := zero_natural
  bounded := zero_le_topRamp
  target := .inr zero_natural
  straight := .inl rfl
  locked moving := absurd rfl moving
  quiet moving := absurd rfl moving

/-- A speed on course has a value. -/
theorem value_of_within {speed : Float32} (natural : 0 ≤ speed) (bounded : speed ≤ topRamp) :
    speed.isFinite = true ∧ 0 ≤ value speed ∧ value speed ≤ 2 ^ 65 := by
  have top : value topRamp = 2 ^ 65 := by
    show (8388608 * 2 ^ (42 : Int) : ℚ) = 2 ^ 65
    norm_num
  rcases natural_cases natural with ⟨finite, above⟩ | infinite
  · rw [le_iff_value finite rfl, top] at bounded
    exact ⟨finite, above, bounded⟩
  · rw [← pack_unpack speed, infinite] at bounded
    exact absurd bounded (by decide +kernel)

theorem accept (course : OnCourse lock controller) {command : Command}
    (straight : command.Straight) (heading : Snapshot) :
    OnCourse (some heading.relative) (controller.accept command heading) ∧
      (controller.accept command heading).currentSpeed = controller.currentSpeed := by
  have built := course.built.accept command heading
  cases straight with
  | forward speed distance =>
    exact ⟨⟨built, course.natural, course.bounded, abs_natural speed, .inr (.inl rfl), fun _ => rfl,
      fun _ _ => Pid.quiet_reset ..⟩, rfl⟩
  | backward speed distance =>
    exact ⟨⟨built, course.natural, course.bounded, abs_natural speed, .inr (.inr rfl), fun _ => rfl,
      fun _ _ => Pid.quiet_reset ..⟩, rfl⟩

theorem remaining_natural (course : OnCourse lock controller) (travelled : Int) :
    0 ≤ controller.remaining travelled := by
  rw [remaining, course.built.configured]
  split
  next => exact right_le_greater rfl
  next => decide +kernel

/-- The robot's boundary is a number for every distance left. -/
theorem boundary_robot {remaining : Float32} (natural : 0 ≤ remaining) :
    0 ≤ (Profile.ofConfig .default).boundary remaining ∧
      (Profile.ofConfig .default).boundary remaining ≤ topRamp := by
  have product : 0 ≤ 2 * (Profile.ofConfig .default).accel * remaining := by
    rcases natural_cases natural with ⟨finite, above⟩ | infinite
    · have factor : (2 * (Profile.ofConfig .default).accel).isFinite = true := by decide +kernel
      have ahead : 0 ≤ value (2 * (Profile.ofConfig .default).accel) := by
        rw [← value_zero, ← le_iff_value rfl factor]
        decide +kernel
      exact (rounds_mul (canonical_unpack factor) (canonical_unpack finite)).le_pack rfl
        (mul_nonneg ahead above)
    · rw [← pack_unpack remaining, infinite]
      decide +kernel
  rw [Profile.boundary]
  split
  next => decide +kernel
  next => exact ⟨rootEstimate_natural product, rootEstimate_le_top product⟩

theorem ramped (course : OnCourse lock controller) (travelled : Int) :
    0 ≤ controller.rampedSpeed (controller.remaining travelled) ∧
      controller.rampedSpeed (controller.remaining travelled) ≤ topRamp ∧
      |cruise (controller.rampedSpeed (controller.remaining travelled)) -
        cruise controller.currentSpeed| ≤ 41 := by
  obtain ⟨least, most⟩ := boundary_robot (course.remaining_natural travelled)
  rw [rampedSpeed, Profile.ramp, course.built.profiled]
  generalize (Profile.ofConfig .default).boundary (controller.remaining travelled) = boundary at *
  have step : (Profile.ofConfig .default).step = 8 := by decide +kernel
  have forward : (8 : Float32).isNaN = true ∨ 0 ≤ (8 : Float32) := .inr (by decide +kernel)
  have number := (numbers_of_le least).2
  have goal := le_lesser course.target (.inr least) (.inr number)
  have below := Binary32.le_trans (lesser_le_right (x := controller.targetSpeed) number) most
  have natural := Profile.le_stepTowards forward course.natural goal
  have bounded := Profile.stepTowards_le forward course.bounded below
  obtain ⟨finite, above, within⟩ := value_of_within course.natural course.bounded
  obtain ⟨finite', above', within'⟩ := value_of_within natural bounded
  obtain ⟨near, fast⟩ := Profile.stepTowards_near finite (value_of_within goal below).1 above within
  rw [step]
  exact ⟨natural, bounded, abs_cruise_sub_le finite above within finite' above' within' near fast⟩

/-- On the course the wheels are given by the heading and the speed alone. -/
theorem mix_eq_courseWheels {mode : Mode} (straight : mode = .forward ∨ mode = .backward)
    {heading speed correction : Float32} (natural : 0 ≤ speed) (bounded : speed ≤ topRamp)
    {wheels : WheelSpeeds} (mixed : WheelSpeeds.mix mode (speed * 5) correction 10000 = .ok wheels)
    (quiet : heading.isFinite = true → IsZero correction)
    (lost : heading.isFinite = false → correction.isNaN = true) :
    wheels = courseWheels mode heading speed := by
  obtain ⟨finite, above, within⟩ := value_of_within natural bounded
  obtain ⟨ahead, behind⟩ := command_eq_cruise finite above within
  have scaled := (nearest_scaled finite above within).isFinite
  have magnitude : |value (speed * 5)| ≤ 2 ^ (127 : Int) := by
    rw [abs_of_nonneg (value_scaled_natural finite above within)]
    exact value_scaled_le finite above within
  rw [courseWheels]
  cases known : heading.isFinite with
  | false =>
    rw [if_neg Bool.false_ne_true, mul_zero]
    rcases straight with rfl | rfl
    · exact WheelSpeeds.straight_none mixed (lost known)
    · exact WheelSpeeds.straight_none mixed (lost known)
  | true =>
    rw [if_pos rfl]
    rcases straight with rfl | rfl
    · rw [heads, one_mul]
      exact WheelSpeeds.straight_quiet mixed scaled magnitude (quiet known) ahead
    · rw [heads, neg_one_mul]
      exact WheelSpeeds.straight_quiet mixed ((isFinite_neg _).trans scaled)
        (by rwa [value_neg, abs_neg]) (quiet known) behind

/-- What a tick does on course, unless it ends the move. -/
theorem tick (course : OnCourse lock controller) {travelled : Int} {heading : Float32}
    {result : Tick} (stepped : Stepped controller travelled heading result)
    (same : ∀ locked, lock = some locked → Same locked heading) :
    OnCourse lock result.controller ∧
      (result.outcome.finished = false → result.controller.mode = controller.mode ∧
        result.outcome.wheels =
          courseWheels controller.mode heading result.controller.currentSpeed ∧
        (controller.mode ≠ .stop →
          |cruise result.controller.currentSpeed - cruise controller.currentSpeed| ≤ 41)) := by
  obtain ⟨natural, bounded, near⟩ := course.ramped travelled
  cases stepped with
  | idle stop =>
    have built := course.built.tick (.idle stop)
    refine ⟨{ course with built := built, natural := zero_natural, bounded := zero_le_topRamp }, ?_⟩
    intro
    have still : heads .stop = 0 := rfl
    refine ⟨rfl, ?_, fun moving => absurd stop moving⟩
    rw [stop, courseWheels, still, zero_mul]
    rfl
  | arrived =>
    exact ⟨⟨course.built.halt, zero_natural, zero_le_topRamp, .inr zero_natural, .inl rfl,
      fun moving => absurd rfl moving, fun moving => absurd rfl moving⟩, nofun⟩
  | reached turning =>
    rcases course.straight with other | other | other <;> cases turning.symm.trans other
  | turns turning =>
    rcases course.straight with other | other | other <;> cases turning.symm.trans other
  | travels moving free =>
    rcases course.straight with other | other | other
    · exact absurd other moving
    all_goals
      rw [other] at free
      cases free
  | @holds moving _ headingPid wheels computed mixed =>
    have locked := same _ (course.locked moving)
    have kp : controller.headingPid.kp = 8 := congrArg Pid.Gains.kp course.built.heading
    have ki : controller.headingPid.ki = 0 := congrArg Pid.Gains.ki course.built.heading
    have kd : controller.headingPid.kd = 2 := congrArg Pid.Gains.kd course.built.heading
    have settled (finite : controller.lockedHeading.isFinite = true) :
        headingPid.Quiet ∧ IsZero headingPid.output :=
      Pid.Quiet.positional computed locked (course.quiet moving finite) (by rw [kp]; rfl)
        (by rw [ki]; rfl) (by rw [kd]; rfl) finite
    have target := Pid.target_positional computed
    rw [course.built.configured] at mixed
    refine ⟨?_, fun _ => ⟨rfl, ?_, fun _ => near⟩⟩
    · exact
        { built := course.built.tick (.underWay moving (Pid.gains_positional computed) rfl wheels)
          natural := natural
          bounded := bounded
          target := course.target
          straight := course.straight
          locked := fun _ => (course.locked moving).trans (congrArg some target.symm)
          quiet := fun _ finite => (settled (congrArg Float32.isFinite target ▸ finite)).1 }
    · apply mix_eq_courseWheels (course.straight.resolve_left moving) natural bounded mixed
      · intro finite
        exact (settled (locked.finite.trans finite)).2
      · intro infinite
        exact Pid.isNaN_output computed locked (locked.finite.trans infinite)

/-- A straight run stays on its course. -/
theorem run (course : OnCourse lock controller) {calls rest : List Call}
    (straight : Straight lock (calls ++ rest)) {last : Controller} {history : List Event}
    (ran : controller.run calls = .ok (last, history)) :
    ∃ lock, OnCourse lock last ∧ Straight lock rest := by
  induction calls generalizing lock controller history with
  | nil =>
    cases ran
    exact ⟨lock, course, straight⟩
  | cons made calls step =>
    obtain ⟨next, event, events, called, further, rfl⟩ := run_cons_ok.mp ran
    cases made with
    | apply command heading =>
      cases called
      exact step (course.accept straight.1 heading).1 straight.2 further
    | tick travelled heading =>
      obtain ⟨result, ticked, told⟩ := bind_eq_ok_iff.mp called
      cases told
      exact step (course.tick (stepped_of_tick ticked) straight.1).1 straight.2 further

end OnCourse

/-! ## From one tick to the next -/

def applies (commands : List (Command × Snapshot)) : List Call :=
  commands.map fun (command, heading) => .apply command heading

/-- Applying commands keeps the speed. -/
theorem OnCourse.speed_applies {lock : Option Float32} {controller last : Controller}
    (course : OnCourse lock controller) {commands : List (Command × Snapshot)} {rest : List Call}
    (straight : Straight lock (applies commands ++ rest)) {history : List Event}
    (ran : controller.run (applies commands) = .ok (last, history)) :
    last.currentSpeed = controller.currentSpeed := by
  induction commands generalizing lock controller history with
  | nil =>
    cases ran
    rfl
  | cons first commands step =>
    obtain ⟨next, event, events, called, further, rfl⟩ := run_cons_ok.mp ran
    cases called
    obtain ⟨accepted, speed⟩ := course.accept straight.1 first.2
    exact (step accepted straight.2 further).trans speed

theorem abs_sub_of_opposite {x y : ℚ} (opposite : x * y ≤ 0) : |y - x| = |x| + |y| := by
  rw [sub_eq_neg_add, ← abs_neg x, abs_add_eq_add_abs_iff]
  rcases mul_nonpos_iff.mp opposite with ⟨left, right⟩ | ⟨left, right⟩
  · exact .inr ⟨neg_nonpos.mpr left, right⟩
  · exact .inl ⟨neg_nonneg.mpr left, right⟩

section Velocities

variable {mode other : Mode} (straight : mode = .stop ∨ mode = .forward ∨ mode = .backward)
  (straight' : other = .stop ∨ other = .forward ∨ other = .backward)
  {speed next : Float32} (natural : 0 ≤ cruise speed) (natural' : 0 ≤ cruise next)

include straight straight' natural natural'

/-- Velocities along the same direction differ by the speeds, all others by their sum. -/
theorem velocity_limited_of_courses
    (near : other ≠ .stop → |cruise next - cruise speed| ≤ 41) (heading heading' : Float32) :
    |(courseWheels other heading' next).velocity - (courseWheels mode heading speed).velocity| ≤
        41 ↔
      mode = other ∧ heading.isFinite = heading'.isFinite ∨
        |(courseWheels mode heading speed).velocity| +
          |(courseWheels other heading' next).velocity| ≤ 41 := by
  simp only [courseWheels, WheelSpeeds.velocity_level]
  have first : 0 ≤ if heading.isFinite then cruise speed else 0 := by split <;> omega
  have second : 0 ≤ if heading'.isFinite then cruise next else 0 := by split <;> omega
  have along (same : mode = other ∧ heading.isFinite = heading'.isFinite) :
      |(heads other * if heading'.isFinite then cruise next else 0) -
        heads mode * if heading.isFinite then cruise speed else 0| ≤ 41 := by
    obtain ⟨rfl, known⟩ := same
    rw [known, ← mul_sub]
    cases heading'.isFinite with
    | false => simp
    | true =>
      rw [if_pos rfl, if_pos rfl, abs_mul]
      rcases straight with rfl | rfl | rfl
      · simp [heads]
      · exact (one_mul _).trans_le (near (by decide))
      · exact (one_mul _).trans_le (near (by decide))
  have apart (different : ¬(mode = other ∧ heading.isFinite = heading'.isFinite)) :
      (heads mode * if heading.isFinite then cruise speed else 0) *
        (heads other * if heading'.isFinite then cruise next else 0) ≤ 0 := by
    have product := mul_nonneg first second
    rw [mul_mul_mul_comm]
    by_cases same : mode = other
    · have lost : heading.isFinite = false ∨ heading'.isFinite = false := by
        cases known : heading.isFinite <;> cases known' : heading'.isFinite <;> simp_all
      rcases lost with lost | lost <;> simp [lost]
    · apply mul_nonpos_of_nonpos_of_nonneg _ product
      rcases straight with rfl | rfl | rfl <;> rcases straight' with rfl | rfl | rfl <;>
        first | decide | exact absurd rfl same
  generalize (heads mode * if heading.isFinite then cruise speed else 0) = v at *
  generalize (heads other * if heading'.isFinite then cruise next else 0) = w at *
  constructor
  · intro limited
    by_cases same : mode = other ∧ heading.isFinite = heading'.isFinite
    · exact .inl same
    · rw [abs_sub_of_opposite (by exact_mod_cast apart same)] at limited
      exact .inr limited
  · rintro (same | small)
    · exact_mod_cast along same
    · rw [add_comm] at small
      exact (abs_sub _ _).trans small

end Velocities

/--
On a straight course, between two ticks that do not end a move, the velocity changes by one step of
the ramp at most exactly if it keeps its direction, at headings that are both finite or both not, or
the two velocities make up no more than a step together.
-/
theorem velocity_limited_iff (before : List Call) (travelled : Int) (heading : Float32)
    (commands : List (Command × Snapshot)) (travelled' : Int) (heading' : Float32)
    (straight : Straight none
      (before ++ .tick travelled heading :: (applies commands ++ [.tick travelled' heading']))) :
    ∃ controller history first later events second,
      (new .default).run before = .ok (controller, history) ∧
      controller.tick travelled heading = .ok first ∧
      first.controller.run (applies commands) = .ok (later, events) ∧
      later.tick travelled' heading' = .ok second ∧
      (first.outcome.finished = false → second.outcome.finished = false →
        (|second.outcome.wheels.velocity - first.outcome.wheels.velocity| ≤ 41 ↔
          controller.mode = later.mode ∧ heading.isFinite = heading'.isFinite ∨
            |first.outcome.wheels.velocity| + |second.outcome.wheels.velocity| ≤ 41)) := by
  have limit : 0 ≤ Config.default.wheelLimit := by decide
  have lock : Config.default.headingLock.limit.isNaN = false := by decide +kernel
  have turn : Config.default.turn.limit.isNaN = false := by decide +kernel
  -- The course up to the first tick, through the commands and at the second tick.
  obtain ⟨controller, history, ran⟩ := (Built.new .default).exists_run limit lock turn before
  obtain ⟨_, course, same, straight⟩ := OnCourse.new.run straight ran
  obtain ⟨first, ticked⟩ := course.built.exists_tick limit lock turn travelled heading
  obtain ⟨onward, answered⟩ := course.tick (stepped_of_tick ticked) same
  obtain ⟨later, events, applied⟩ := onward.built.exists_run limit lock turn (applies commands)
  have speed := onward.speed_applies straight applied
  obtain ⟨_, course', same', -⟩ := onward.run straight applied
  obtain ⟨second, ticked'⟩ := course'.built.exists_tick limit lock turn travelled' heading'
  obtain ⟨ended, answered'⟩ := course'.tick (stepped_of_tick ticked') same'
  refine ⟨controller, history, first, later, events, second, ran, ticked, applied, ticked', ?_⟩
  intro going going'
  obtain ⟨-, wheels, -⟩ := answered going
  obtain ⟨-, wheels', near⟩ := answered' going'
  rw [speed] at near
  have natural {lock : Option Float32} {controller : Controller}
      (course : OnCourse lock controller) : 0 ≤ cruise controller.currentSpeed := by
    obtain ⟨finite, above, within⟩ := OnCourse.value_of_within course.natural course.bounded
    exact cruise_natural finite above within
  rw [wheels, wheels']
  exact velocity_limited_of_courses course.straight course'.straight (natural onward)
    (natural ended) near heading heading'

/-- A move that is superseded by one in the same direction. -/
theorem velocity_limited_iff_onward :
    let moving := (new .default).accept (.drive .forward 300 0) ⟨0, 0⟩
    let first : Tick := ⟨{ moving with currentSpeed := 8 }, ⟨.level 40, false⟩, []⟩
    let onward : List (Command × Snapshot) := [(.drive .forward 500 0, ⟨10, 10⟩)]
    let later := first.controller.accept (.drive .forward 500 0) ⟨10, 10⟩
    let second : Tick := ⟨{ later with currentSpeed := 16 }, ⟨.level 80, false⟩, []⟩
    Straight none
        ([.apply (.drive .forward 300 0) ⟨0, 0⟩] ++ .tick 0 0 :: (applies onward ++ [.tick 0 10])) ∧
      moving.tick 0 0 = .ok first ∧ later.tick 0 10 = .ok second ∧
      |second.outcome.wheels.velocity - first.outcome.wheels.velocity| ≤ 41 := by
  intro moving first onward later second
  have straight : Straight none
      ([.apply (.drive .forward 300 0) ⟨0, 0⟩] ++
        .tick 0 0 :: (applies onward ++ [.tick 0 10])) :=
    ⟨.forward 300 0, same_locked 0, .forward 500 0, same_locked 10, trivial⟩
  have ticked : moving.tick 0 0 = .ok first := by decide +kernel
  have ticked' : later.tick 0 10 = .ok second := by decide +kernel
  obtain ⟨_, _, _, _, _, _, ran, answer, applied, answer', limited⟩ :=
    velocity_limited_iff _ _ _ _ _ _ straight
  cases ran
  cases ticked.symm.trans answer
  cases applied
  cases ticked'.symm.trans answer'
  exact ⟨straight, ticked, ticked', (limited rfl rfl).mpr (.inl ⟨rfl, rfl⟩)⟩

/-- A move that is superseded by one in the opposite direction jumps from 40 to -80. -/
theorem velocity_reversed :
    let moving := (new .default).accept (.drive .forward 300 0) ⟨0, 0⟩
    let first : Tick := ⟨{ moving with currentSpeed := 8 }, ⟨.level 40, false⟩, []⟩
    let later := first.controller.accept (.drive .backward 300 0) ⟨0, 0⟩
    let second : Tick := ⟨{ later with currentSpeed := 16 }, ⟨.level (-80), false⟩, []⟩
    Straight none [.apply (.drive .forward 300 0) ⟨0, 0⟩, .tick 0 0,
        .apply (.drive .backward 300 0) ⟨0, 0⟩, .tick 0 0] ∧
      moving.tick 0 0 = .ok first ∧ later.tick 0 0 = .ok second ∧
      ¬|second.outcome.wheels.velocity - first.outcome.wheels.velocity| ≤ 41 := by
  intro moving first later second
  refine ⟨⟨.forward 300 0, same_locked 0, .backward 300 0, same_locked 0, trivial⟩,
    by decide +kernel, by decide +kernel, ?_⟩
  rw [WheelSpeeds.velocity_level, WheelSpeeds.velocity_level]
  norm_num

end Controller

end Mecanum.Motion
