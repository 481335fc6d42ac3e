import Mathlib.Control.Monad.Basic
import Mathlib.Tactic.IntervalCases
import Mecanum.Arm.Bench
import Mecanum.Proofs.Fault

/-!
# Traces of the arm

Whoever performs a task makes its calls one after the other and answers every look with a step
count. A trace is the calls with these counts. Whatever the lift shows and however long the pauses
take, a trace that comes to its end has one part for each move (`carries_of_completes`), and the
part of a travel ends with the first look that shows its depth (`Travels`).
-/
namespace Mecanum.Arm

/-- The calls of a performance up to its end, with the counts that its looks have shown. -/
def Performance.Completes (config : Config) : Performance → List Entry → Prop
  | performance, [] => performance.call? config = .ok none
  | performance, entry :: rest =>
    performance.call? config = .ok (some entry.call) ∧
      Completes config (performance.advance entry.count).1 rest

instance Performance.decidableCompletes (config : Config) :
    ∀ performance trace, Decidable (Performance.Completes config performance trace)
  | performance, [] => inferInstanceAs (Decidable (performance.call? config = .ok none))
  | performance, entry :: rest =>
    have := decidableCompletes config (performance.advance entry.count).1 rest
    inferInstanceAs (Decidable (performance.call? config = .ok (some entry.call) ∧
      Completes config (performance.advance entry.count).1 rest))

/-- The calls that lead a performance from its beginning to where it stands. -/
inductive Performance.Makes (config : Config) (first : Performance) :
    List Entry → Performance → Prop
  | nothing : Makes config first [] first
  | further {trace : List Entry} {present : Performance} {call : Call}
      (made : Makes config first trace present)
      (called : present.call? config = .ok (some call)) (count : Int) :
      Makes config first (trace ++ [⟨call, count⟩]) (present.advance count).1

/-- What has been made and what is still to come make the whole performance. -/
theorem Performance.Makes.completes {config : Config} {first present : Performance}
    {trace rest : List Entry} (made : first.Makes config trace present)
    (behind : present.Completes config rest) : first.Completes config (trace ++ rest) := by
  induction made generalizing rest with
  | nothing => exact behind
  | further made called count step =>
    rw [List.append_assoc]
    exact step ⟨called, behind⟩

def safePose (config : Config) : List Call :=
  [.servo .claw config.clawOpen, .servo .base config.baseFront,
    .servo .turntable (config.turntableAngle 1), .lift 0]

/-- A reset makes the calls of the safe pose one after the other. -/
theorem Performance.Makes.of_reset {config : Config} {present : Performance} {trace : List Entry}
    (made : (Performance.ofTask config .reset).Makes config trace present) :
    trace.map Entry.call <+: safePose config := by
  -- With so many calls made, so many moves are done.
  have position : ∃ count ≤ 4, trace.map Entry.call = (safePose config).take count ∧
      present = .ofMoves ((Task.resetMoves config).drop count) := by
    induction made with
    | nothing => exact ⟨0, by omega, rfl, rfl⟩
    | further made called count step =>
      obtain ⟨done, within, calls, rfl⟩ := step
      rw [List.map_append, calls]
      interval_cases done
      · cases called; exact ⟨1, by omega, rfl, rfl⟩
      · cases called; exact ⟨2, by omega, rfl, rfl⟩
      · cases called; exact ⟨3, by omega, rfl, rfl⟩
      · cases called; exact ⟨4, by omega, rfl, rfl⟩
      · cases called
  obtain ⟨count, _, calls, _⟩ := position
  rw [calls]
  exact ⟨_, List.take_append_drop count _⟩

/-- A performance that finishes on the bench leaves such a trace. -/
theorem completes_of_runCalls {lift : BenchLift} {config : Config} {performance : Performance}
    {pauses budget : Nat} {run : BenchRun}
    (ran : lift.runCalls config performance pauses budget = .ok run)
    (finished : run.finished = true) : performance.Completes config run.trace := by
  induction budget generalizing lift performance pauses run with
  | zero =>
    cases ran
    cases finished
  | succ budget step =>
    simp only [BenchLift.runCalls] at ran
    obtain ⟨call?, present, ran⟩ := bind_eq_ok_iff.mp ran
    cases call? with
    | none =>
      cases ran
      exact present
    | some call =>
      simp only at ran
      split at ran
      · cases ran
        cases finished
      · obtain ⟨rest, further, ran⟩ := bind_eq_ok_iff.mp ran
        cases ran
        exact ⟨present, step further finished⟩

/-- Looks that do not show the depth yet, each with a pause behind it. -/
inductive Polling (config : Config) (depth : Int) : List Entry → Prop
  | done : Polling config depth []
  | short {count : Int} {polls : List Entry} (short : count.natAbs < depth.natAbs) (other : Int)
      (rest : Polling config depth polls) :
      Polling config depth (⟨.look, count⟩ :: ⟨.pause config.liftPollMs, other⟩ :: polls)

/--
A travel of the lift. The counter is zero when the lift starts, and the lift stops at the first look
that shows the depth.
-/
inductive Travels (config : Config) (speed depth : Int) : List Entry → Prop
  | reached {polls : List Entry} {count : Int} (polling : Polling config depth polls)
      (reached : depth.natAbs ≤ count.natAbs) (zeroed started stopped : Int) :
      Travels config speed depth (⟨.zero, zeroed⟩ :: ⟨.lift speed, started⟩ ::
        (polls ++ [⟨.look, count⟩, ⟨.lift 0, stopped⟩]))

/-- The calls of one move. -/
inductive Move.Carried (config : Config) : Move → List Entry → Prop
  | servo (servo : Servo) (angle : Float32) (count : Int) :
      Carried config (.servo servo angle) [⟨.servo servo angle, count⟩]
  | pause (ms : UInt32) (count : Int) : Carried config (.pause ms) [⟨.pause ms, count⟩]
  | travel {direction : Direction} {depth speed : Int} {trace : List Entry}
      (launched : Performance.launchSpeed config direction = .ok speed)
      (travels : Travels config speed depth trace) : Carried config (.travel direction depth) trace
  | stopLift (count : Int) : Carried config .stopLift [⟨.lift 0, count⟩]

inductive Carries (config : Config) : List Move → List Entry → Prop
  | nil : Carries config [] []
  | cons {move : Move} {moves : List Move} {block trace : List Entry}
      (first : move.Carried config block) (rest : Carries config moves trace) :
      Carries config (move :: moves) (block ++ trace)

section Moves

variable {config : Config} {moves others : List Move} {trace : List Entry}

/-- Moves one after the other carry the trace of the first followed by the trace of the second. -/
theorem carries_append_iff :
    Carries config (moves ++ others) trace ↔
      ∃ front back, trace = front ++ back ∧ Carries config moves front ∧
        Carries config others back := by
  induction moves generalizing trace with
  | nil =>
    constructor
    · intro carries
      exact ⟨[], trace, rfl, .nil, carries⟩
    · rintro ⟨front, back, rfl, none, carries⟩
      cases none
      exact carries
  | cons move moves step =>
    constructor
    · intro carries
      cases carries with
      | cons first rest =>
        obtain ⟨front, back, rfl, left, right⟩ := step.mp rest
        exact ⟨_, back, (List.append_assoc ..).symm, .cons first left, right⟩
    · rintro ⟨front, back, rfl, left, right⟩
      cases left with
      | cons first rest =>
        rw [List.append_assoc]
        exact .cons first (step.mpr ⟨_, back, rfl, rest, right⟩)

/-- From a look on, the lift is looked at until it has reached its depth, and is stopped. -/
theorem polls_of_completes {depth : Int} :
    ∀ {trace : List Entry}, Performance.Completes config ⟨.look depth, moves⟩ trace →
      ∃ polls count stopped rest, Polling config depth polls ∧ depth.natAbs ≤ count.natAbs ∧
        trace = polls ++ ⟨.look, count⟩ :: ⟨.lift 0, stopped⟩ :: rest ∧
        (Performance.ofMoves moves).Completes config rest
  | [], ended => by cases ended
  | [⟨call, count⟩], ⟨looked, ended⟩ => by
    simp only [Performance.advance] at ended
    split at ended
    · cases ended
    · cases ended
  | ⟨call, count⟩ :: ⟨next, other⟩ :: rest, ⟨looked, follows, further⟩ => by
    cases looked
    simp only [Performance.advance] at follows further
    by_cases short : count.natAbs < depth.natAbs
    · simp only [if_pos short] at follows further
      cases follows
      obtain ⟨polls, last, stopped, rest, polling, reached, rfl, behind⟩ :=
        polls_of_completes further
      exact ⟨_, last, stopped, rest, .short short other polling, reached, rfl, behind⟩
    · simp only [if_neg short] at follows further
      cases follows
      exact ⟨[], count, other, rest, .done, Nat.not_lt.mp short, rfl, further⟩

/-- The calls of a completed performance are those of its moves, one after the other. -/
theorem carries_of_completes (completes : (Performance.ofMoves moves).Completes config trace) :
    Carries config moves trace := by
  induction moves generalizing trace with
  | nil =>
    cases trace with
    | nil => exact .nil
    | cons => cases completes.1
  | cons move moves step =>
    cases trace with
    | nil => cases move <;> cases completes
    | cons entry trace =>
      obtain ⟨call, count⟩ := entry
      obtain ⟨called, rest⟩ := completes
      cases move with
      | servo servo angle =>
        cases called
        exact .cons (.servo servo angle count) (step rest)
      | pause ms =>
        cases called
        exact .cons (.pause ms count) (step rest)
      | stopLift =>
        cases called
        exact .cons (.stopLift count) (step rest)
      | travel direction depth =>
        cases called
        cases trace with
        | nil =>
          obtain ⟨speed, -, same⟩ := map_eq_ok_iff.mp rest
          cases same
        | cons entry trace =>
          obtain ⟨call, started⟩ := entry
          obtain ⟨present, rest⟩ := rest
          obtain ⟨speed, launched, same⟩ := map_eq_ok_iff.mp present
          cases same
          obtain ⟨polls, last, stopped, rest, polling, reached, rfl, behind⟩ :=
            polls_of_completes rest
          have travels : Travels config speed depth _ :=
            .reached polling reached count started stopped
          have carries := Carries.cons (.travel launched travels) (step behind)
          simpa using carries

end Moves

end Mecanum.Arm
