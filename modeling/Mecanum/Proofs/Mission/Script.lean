import Mecanum.Mission.Script
import Mecanum.Proofs.Fault

/-!
# The scripts of the states

Only the first two states wait for something that decides where a run goes on: the start and a task
code. Every other script leads on when it is over, so each state leads to its successor. A script
reads the plan and the ring offset; only an offset that takes a ring number above 255 makes it fail.
-/
namespace Mecanum.Mission

/-- The event that the end of a script means behind an action. -/
def Action.leave (event : Event) : Action → Event
  | awaitStart => .start
  | awaitScan => .scanned
  | _ => event

def Script.event (event : Event) (script : Script) : Event := script.foldl Action.leave event

/-- Whether an action leaves the event of its script alone. -/
def Action.isPlain : Action → Bool
  | awaitStart | awaitScan => false
  | _ => true

/-- A script of plain actions ends with the event it began with. -/
theorem Script.event_of_plain {script : Script} (plain : ∀ action ∈ script, action.isPlain = true)
    (event : Event) : script.event event = event := by
  induction script with
  | nil => rfl
  | cons action rest ih =>
    have first : action.leave event = event := by
      have alone := plain action List.mem_cons_self
      cases action <;> first | rfl | cases alone
    rw [Script.event, List.foldl_cons, first]
    exact ih fun later member => plain later (List.mem_cons_of_mem _ member)

theorem Script.not_mem_of_plain {script : Script}
    (plain : ∀ action ∈ script, action.isPlain = true) : .awaitScan ∉ script :=
  fun member => nomatch plain _ member

namespace State

variable {state : State} {plan : Plan} {offset : UInt8} {script : Script}

/-- Only the first two states wait for something that decides where to go on. -/
theorem plain_of_script (written : state.script plan offset = .ok script)
    (started : state ≠ .idle) (scanned : state ≠ .scanCode) :
    ∀ action ∈ script, action.isPlain = true := by
  suffices script.all Action.isPlain = true from List.all_eq_true.mp this
  cases state with
  | idle => exact absurd rfl started
  | scanCode => exact absurd rfl scanned
  | unloadFloor1 | unloadFloorEnd1 | unloadFloor2 | stackFloorEnd2 =>
    obtain ⟨rings, _, made⟩ := bind_eq_ok_iff.mp written
    cases made
    rfl
  | _ =>
    cases written
    rfl

/-- The script of a state leads to its successor. -/
theorem transition_event_script (written : state.script plan offset = .ok script) :
    state.transition (script.event .completed) = state.successor := by
  by_cases started : state = .idle
  · subst started
    cases written
    rfl
  · by_cases scanned : state = .scanCode
    · subst scanned
      cases written
      rfl
    · rw [Script.event_of_plain (plain_of_script written started scanned)]
      cases state <;> first | rfl | contradiction

theorem not_mem_script (written : state.script plan offset = .ok script)
    (scanned : state ≠ .scanCode) : .awaitScan ∉ script := by
  by_cases started : state = .idle
  · subst started
    cases written
    decide
  · exact Script.not_mem_of_plain (plain_of_script written started scanned)

theorem count_script_le (written : state.script plan offset = .ok script) :
    script.count .awaitScan ≤ 1 := by
  by_cases scanned : state = .scanCode
  · subst scanned
    cases written
    exact Nat.le_refl 1
  · rw [List.count_eq_zero.mpr (not_mem_script written scanned)]
    exact Nat.zero_le 1

/-- The first two scripts are the same for all plans. -/
theorem script_unread (unread : state = .idle ∨ state = .scanCode) (plan other : Plan) :
    state.script plan offset = state.script other offset := by
  rcases unread with rfl | rfl <;> rfl

/-- Ring numbers stay below 256 if the offset is at most 252, and nothing else can fail. -/
theorem exists_script (offset_le : offset ≤ 252) (state : State) (plan : Plan) :
    ∃ script, state.script plan offset = .ok script := by
  have ring (color : Color) : ∃ ring, color.ringId offset = .ok ring := by
    refine ⟨color.id + offset, if_pos ?_⟩
    have bound : offset.toNat ≤ 252 := offset_le
    have small : color.id.toNat ≤ 3 := by cases color <;> decide
    omega
  have rings (batch : Batch) : ∃ trio, Script.rings plan batch offset = .ok trio := by
    obtain ⟨first, firstMade⟩ := ring (plan.batch batch).first
    obtain ⟨second, secondMade⟩ := ring (plan.batch batch).second
    obtain ⟨third, thirdMade⟩ := ring (plan.batch batch).third
    refine ⟨⟨first, second, third⟩, ?_⟩
    simp only [Script.rings, Trio.mapM, firstMade, secondMade, thirdMade]
    rfl
  obtain ⟨firstRings, first⟩ := rings .first
  obtain ⟨secondRings, second⟩ := rings .second
  cases state with
  | unloadFloor1 | unloadFloorEnd1 | stackFloorEnd2 =>
    exact ⟨_, bind_eq_ok_iff.mpr ⟨firstRings, first, rfl⟩⟩
  | unloadFloor2 => exact ⟨_, bind_eq_ok_iff.mpr ⟨secondRings, second, rfl⟩⟩
  | _ => exact ⟨_, rfl⟩

end State

end Mecanum.Mission
