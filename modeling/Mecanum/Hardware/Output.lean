/-!
# Recorded output pins

An output pin that keeps count of its rising edges, so that what a driver did to it can be read
off afterwards.
-/
namespace Mecanum.Hardware

structure Output where
  high : Bool
  -- The number of changes from low to high.
  rises : Nat
deriving DecidableEq, Repr

namespace Output

/-- A pin at a level, before any change. -/
def new (high : Bool) : Output := ⟨high, 0⟩

def set (pin : Output) (high : Bool) : Output :=
  ⟨high, if high && !pin.high then pin.rises + 1 else pin.rises⟩

@[simp]
theorem high_set (pin : Output) (high : Bool) : (pin.set high).high = high := rfl

@[simp]
theorem rises_set_false (pin : Output) : (pin.set false).rises = pin.rises := rfl

theorem rises_set_true {pin : Output} (low : pin.high = false) :
    (pin.set true).rises = pin.rises + 1 := by
  simp [set, low]

end Output

end Mecanum.Hardware
