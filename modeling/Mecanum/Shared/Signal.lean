/-!
# Signals

A signal is a single slot. A new value replaces one that nobody has taken, and whoever looks first
takes it.
-/
namespace Mecanum.Shared

/-- A slot for the newest value. -/
structure Signal (α : Type) where
  pending : Option α
deriving DecidableEq, Repr

namespace Signal

variable {α : Type}

def empty : Signal α := ⟨none⟩

/-- Puts a value into the slot. -/
def raise (_ : Signal α) (value : α) : Signal α := ⟨some value⟩

/-- Takes the value out of the slot, if there is one. -/
def take (signal : Signal α) : Option α × Signal α := (signal.pending, empty)

def isRaised (signal : Signal α) : Bool := signal.pending.isSome

end Signal

end Mecanum.Shared
