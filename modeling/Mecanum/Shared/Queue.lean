/-!
# Bounded queues

A queue hands its items out in the order they came in and never holds more than its capacity. An
item that finds it full is refused.
-/
namespace Mecanum.Shared

/-- A first-in first-out queue of at most `capacity` items. -/
structure Queue (α : Type) (capacity : Nat) where
  toList : List α
  bounded : toList.length ≤ capacity := by simp
deriving DecidableEq

namespace Queue

variable {α : Type} {capacity : Nat}

def empty : Queue α capacity := ⟨[], Nat.zero_le _⟩

def size (queue : Queue α capacity) : Nat := queue.toList.length

/-- Puts an item behind the others, if there is room. -/
def push? (queue : Queue α capacity) (item : α) : Option (Queue α capacity) :=
  if room : queue.toList.length < capacity then
    some ⟨queue.toList ++ [item], by rw [List.length_append]; exact room⟩
  else none

/-- Takes the oldest item out, if there is one. -/
def pop? (queue : Queue α capacity) : Option (α × Queue α capacity) :=
  match held : queue.toList with
  | [] => none
  | item :: rest => some (item, ⟨rest, by
      have bound := queue.bounded
      rw [held] at bound
      exact Nat.le_of_succ_le bound⟩)

def pushAll (queue : Queue α capacity) : List α → Queue α capacity × Nat
  | [] => (queue, 0)
  | item :: rest =>
    match queue.push? item with
    | some queue => queue.pushAll rest
    | none =>
      let (queue, refused) := queue.pushAll rest
      (queue, refused + 1)

theorem toList_push? {queue pushed : Queue α capacity} {item : α}
    (accepted : queue.push? item = some pushed) : pushed.toList = queue.toList ++ [item] := by
  unfold push? at accepted
  split at accepted
  · simp only [Option.some.injEq] at accepted
    rw [← accepted]
  · simp at accepted

theorem push?_eq_none_iff {queue : Queue α capacity} {item : α} :
    queue.push? item = none ↔ queue.toList.length = capacity := by
  have bound := queue.bounded
  unfold push?
  split <;> simp <;> omega

theorem pop?_eq_none_iff {queue : Queue α capacity} : queue.pop? = none ↔ queue.toList = [] := by
  unfold pop?
  split <;> simp_all

theorem toList_pop? {queue rest : Queue α capacity} {item : α}
    (taken : queue.pop? = some (item, rest)) : queue.toList = item :: rest.toList := by
  unfold pop? at taken
  split at taken
  · simp at taken
  · rename_i first others held
    simp only [Option.some.injEq, Prod.mk.injEq] at taken
    rw [held, ← taken.1, ← taken.2]

end Queue

end Mecanum.Shared
