import Mathlib.Data.List.Infix
import Mecanum.Proofs.Arm.Traces

/-!
# Servos and lift

No servo is commanded while the lift runs, and every task leaves the lift stopped. A pick or a place
takes the lift down and up again by the same depth, and works the claw once in between. All of this
holds whatever the lift shows, over any number of tasks in a row (`interlocked`).
-/
namespace Mecanum.Arm

/-- What the arm is asked to do: a task, or the safe pose at power-up. -/
inductive Job where
  | perform (task : Task)
  | reset

def Job.moves (config : Config) : Job → List Move
  | perform task => task.moves config
  | reset => Task.resetMoves config

/-- A job that has come to its end, with the trace that it has left. -/
structure Deed (config : Config) where
  job : Job
  trace : List Entry
  completed : (Performance.ofMoves (job.moves config)).Completes config trace

def calls {config : Config} (session : List (Deed config)) : List Entry :=
  session.flatMap Deed.trace

def Call.speed (speed : Int) : Call → Int
  | .lift next => next
  | _ => speed

/-- The last speed commanded to the lift, which stands still at first. -/
def lastSpeed (trace : List Entry) : Int :=
  trace.foldl (fun speed entry => entry.call.speed speed) 0

def Call.isLift : Call → Bool
  | .lift _ | .zero | .look => true
  | .servo .. | .pause _ => false

/-- For a pick or a place, how deep it lowers the lift and where it puts the claw there. -/
def Task.grip? (config : Config) : Task → Option (Int × Float32)
  | ready | stow | reset => none
  | pickFromRaw => some (config.depthPlate, config.clawClosed)
  | placeToCar _ => some (config.depthCar, config.clawOpen)
  | pickFromCar _ => some (config.depthCar, config.clawClosed)
  | placeToFloor => some (config.depthFloor, config.clawOpen)
  | pickFromFloor => some (config.depthFloor, config.clawClosed)
  | placeToStack => some (config.depthStack, config.clawOpen)

/-! ### Standing still -/

/-- Servos are commanded only while the lift stands still, and it stands still in the end. -/
structure Guarded (trace : List Entry) : Prop where
  servos : ∀ {before after : List Entry} {servo : Servo} {angle : Float32} {count : Int},
    trace = before ++ ⟨.servo servo angle, count⟩ :: after → lastSpeed before = 0
  rests : lastSpeed trace = 0

section Speed

variable {front back : List Entry}

theorem lastSpeed_append (rests : lastSpeed front = 0) :
    lastSpeed (front ++ back) = lastSpeed back := by
  simp only [lastSpeed, List.foldl_append] at rests ⊢
  rw [rests]

namespace Guarded

theorem nil : Guarded [] := ⟨by simp, rfl⟩

theorem append (left : Guarded front) (right : Guarded back) : Guarded (front ++ back) := by
  refine ⟨?_, (lastSpeed_append left.rests).trans right.rests⟩
  intro before after servo angle count split
  rcases List.append_eq_append_iff.mp split with ⟨middle, rfl, rest⟩ | ⟨middle, rest, same⟩
  · rw [lastSpeed_append left.rests]
    exact right.servos rest
  · cases middle with
    | nil =>
      rw [List.append_nil] at rest
      exact rest ▸ left.rests
    | cons first middle =>
      cases same
      exact left.servos rest

theorem of_notServo {trace : List Entry} (rests : lastSpeed trace = 0)
    (none : ∀ entry ∈ trace, ∀ servo angle, entry.call ≠ .servo servo angle) : Guarded trace := by
  refine ⟨?_, rests⟩
  rintro before after servo angle count rfl
  exact absurd rfl (none ⟨.servo servo angle, count⟩ (by simp) servo angle)

end Guarded

end Speed

section Moves

variable {config : Config} {moves : List Move} {trace : List Entry}

theorem Polling.notServo {depth : Int} (polling : Polling config depth trace) :
    ∀ entry ∈ trace, ∀ servo angle, entry.call ≠ .servo servo angle := by
  induction polling with
  | done => simp
  | short _ _ _ step => simpa using step

/-- A travel of the lift moves no servo. -/
theorem Travels.guarded {speed depth : Int} (travels : Travels config speed depth trace) :
    Guarded trace := by
  cases travels with
  | @reached polls count polling =>
    have others := polling.notServo
    apply Guarded.of_notServo
    · simp [lastSpeed, Call.speed]
    · simpa [or_imp, forall_and] using others

/-- Each move keeps the servos still while the lift runs. -/
theorem Move.Carried.guarded {move : Move} (carried : move.Carried config trace) :
    Guarded trace := by
  cases carried with
  | servo servo angle count =>
    refine ⟨?_, rfl⟩
    intro before after _ _ _ split
    cases before with
    | nil => rfl
    | cons first before => simp at split
  | pause => exact .of_notServo rfl (by simp)
  | travel _ travels => exact travels.guarded
  | stopLift => exact .of_notServo rfl (by simp)

theorem Carries.guarded (carries : Carries config moves trace) : Guarded trace := by
  induction carries with
  | nil => exact .nil
  | cons first _ step => exact first.guarded.append step

end Moves

theorem guarded_calls {config : Config} (session : List (Deed config)) :
    Guarded (calls session) := by
  induction session with
  | nil => exact .nil
  | cons deed session step => exact (carries_of_completes deed.completed).guarded.append step

/-! ### Picks and places -/

/-- A move that leaves the lift alone. -/
def Move.isStill : Move → Bool
  | .servo .. | .pause _ => true
  | .travel .. | .stopLift => false

/-- The approach, the way down, the work of the claw with its pauses, and the way up. -/
theorem moves_of_grip {config : Config} {task : Task} {depth : Int} {angle : Float32}
    (grip : task.grip? config = some (depth, angle)) :
    ∃ approach settle, (∀ move ∈ approach, move.isStill = true) ∧
      task.moves config = approach ++ (Task.travel .down depth ++
        [.pause 200, .servo .claw angle, .pause settle] ++ Task.travel .up depth) := by
  cases task with
  | ready => cases grip
  | stow => cases grip
  | reset => cases grip
  | _ =>
    cases grip
    exact ⟨_, _, by simp [Move.isStill], rfl⟩

section Grips

variable {config : Config} {trace : List Entry}

/-- Moves that keep the lift still make no call to it. -/
theorem Carries.isLift {moves : List Move} (carries : Carries config moves trace)
    (still : ∀ move ∈ moves, move.isStill = true) :
    ∀ entry ∈ trace, entry.call.isLift = false := by
  induction carries with
  | nil => simp
  | cons first _ step =>
    simp only [List.forall_mem_cons] at still
    simp only [List.forall_mem_append]
    refine ⟨?_, step still.2⟩
    cases first with
    | servo => simp [Call.isLift]
    | pause => simp [Call.isLift]
    | travel => cases still.1
    | stopLift => cases still.1

theorem carries_single {move : Move} (carries : Carries config [move] trace) :
    move.Carried config trace := by
  cases carries with
  | cons first rest =>
    cases rest
    simpa using first

/-- A travel over a positive depth runs at the speed of the lift, down or up. -/
theorem travels_of_carries {direction : Direction} {depth : Int} (deep : 0 < depth)
    (carries : Carries config (Task.travel direction depth) trace) :
    Travels config (match direction with | .down => config.liftSpeed | .up => -config.liftSpeed)
      depth trace := by
  rw [Task.travel, if_neg (by omega)] at carries
  cases carries_single carries with
  | travel launched travels =>
    cases direction with
    | down =>
      cases launched
      exact travels
    | up =>
      obtain ⟨-, rfl⟩ := Checked.fit_eq_ok.mp launched
      exact travels

/-- The calls that work the claw. -/
theorem calls_of_claw {angle : Float32} {settle : UInt32}
    (carries : Carries config [.pause 200, .servo .claw angle, .pause settle] trace) :
    trace.map Entry.call = [.pause 200, .servo .claw angle, .pause settle] := by
  cases carries with
  | cons first rest =>
    cases first
    cases rest with
    | cons second rest =>
      cases second
      cases carries_single rest
      rfl

end Grips

/--
The trace of a pick or a place: an approach without the lift, a travel down, one command to the
claw, and a travel up.
-/
inductive Grips (config : Config) (depth : Int) (angle : Float32) : List Entry → Prop
  | complete {approach down between up : List Entry} {settle : UInt32}
      (approaches : ∀ entry ∈ approach, entry.call.isLift = false)
      (lowers : Travels config config.liftSpeed depth down)
      (works : between.map Entry.call = [.pause 200, .servo .claw angle, .pause settle])
      (raises : Travels config (-config.liftSpeed) depth up) :
      Grips config depth angle (approach ++ (down ++ between ++ up))

/-- A gripping task, carried out, lowers the lift, works the claw and raises the lift again. -/
theorem Deed.grips {config : Config} (deed : Deed config) {task : Task} {depth : Int}
    {angle : Float32} (job : deed.job = .perform task)
    (grip : task.grip? config = some (depth, angle)) (deep : 0 < depth) :
    Grips config depth angle deed.trace := by
  have carries := carries_of_completes deed.completed
  obtain ⟨approach, settle, still, moves⟩ := moves_of_grip grip
  rw [job, Job.moves, moves] at carries
  obtain ⟨first, rest, same, approached, carries⟩ := carries_append_iff.mp carries
  obtain ⟨front, up, rfl, carries, raised⟩ := carries_append_iff.mp carries
  obtain ⟨down, between, rfl, lowered, worked⟩ := carries_append_iff.mp carries
  rw [same]
  exact .complete (approached.isLift still) (travels_of_carries deep lowered)
    (calls_of_claw worked) (travels_of_carries deep raised)

/-- Servos and lift do not get in each other's way. -/
structure Interlocked {config : Config} (session : List (Deed config)) : Prop where
  -- Every servo is commanded while the last speed commanded to the lift is zero.
  servos : ∀ {before after : List Entry} {servo : Servo} {angle : Float32} {count : Int},
    calls session = before ++ ⟨.servo servo angle, count⟩ :: after → lastSpeed before = 0
  -- Every job leaves the lift stopped.
  rests : ∀ {deeds : List (Deed config)}, deeds <+: session → lastSpeed (calls deeds) = 0
  -- Every pick and every place goes down, works the claw once and comes up again.
  grips : ∀ {deed : Deed config}, deed ∈ session → ∀ {task : Task} {depth : Int} {angle : Float32},
    deed.job = .perform task → task.grip? config = some (depth, angle) → 0 < depth →
    Grips config depth angle deed.trace

/-- Servos and lift are interlocked over every session, whatever the lift shows. -/
theorem interlocked {config : Config} (session : List (Deed config)) : Interlocked session where
  servos := (guarded_calls session).servos
  rests := fun {deeds} _ => (guarded_calls deeds).rests
  grips := fun {deed} _ _ _ _ job grip deep => deed.grips job grip deep

end Mecanum.Arm
