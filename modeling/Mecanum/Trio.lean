/-!
# Trios

Items come in threes: the colours of a batch, the rings that belong to them, the slots of the
carrier.
-/
namespace Mecanum

/-- Three values in order. -/
structure Trio (α : Type) where
  first : α
  second : α
  third : α
deriving DecidableEq, Repr

namespace Trio

variable {α β : Type}

def toList (trio : Trio α) : List α := [trio.first, trio.second, trio.third]

def map (f : α → β) (trio : Trio α) : Trio β := ⟨f trio.first, f trio.second, f trio.third⟩

/-- Applies `f` in order and fails with the first failure. -/
def mapM {ε : Type} (f : α → Except ε β) (trio : Trio α) : Except ε (Trio β) := do
  return ⟨← f trio.first, ← f trio.second, ← f trio.third⟩

end Trio

end Mecanum
