import Mecanum.Fault

/-!
# Checked integers

An operation on `bits`-wide signed integers is carried out on `Int` and then checked against the
range of that width. The result is the exact one or the operation's fault.
-/
namespace Mecanum.Checked

/-- The least signed integer of a width. -/
def least (bits : Nat) : Int := -(Nat.pow 2 (bits - 1) : Nat)

/-- The greatest signed integer of a width. -/
def greatest (bits : Nat) : Int := (Nat.pow 2 (bits - 1) : Nat) - 1

/-- The exact result if it fits the width. -/
def fit (bits : Nat) (fault : Fault) (exact : Int) : Except Fault Int :=
  if least bits ≤ exact ∧ exact ≤ greatest bits then .ok exact else .error fault

def add (bits : Nat) (x y : Int) : Except Fault Int := fit bits .addOverflow (x + y)

def sub (bits : Nat) (x y : Int) : Except Fault Int := fit bits .subtractOverflow (x - y)

def neg (bits : Nat) (x : Int) : Except Fault Int := fit bits .negateOverflow (-x)

/-- The magnitude of a number. The least number of a width has none. -/
def abs (bits : Nat) (x : Int) : Except Fault Int :=
  if x < 0 then neg bits x else .ok x

/-- A fitting result is exact. -/
theorem fit_eq_ok {bits : Nat} {fault : Fault} {exact value : Int} :
    fit bits fault exact = .ok value ↔
      (least bits ≤ exact ∧ exact ≤ greatest bits) ∧ exact = value := by
  unfold fit
  split
  case isTrue within => simp [within]
  case isFalse outside => simp [outside]

end Mecanum.Checked
