import Mecanum.Binary32.Basic

/-!
# Shortest decimals

A number is written with the fewest decimal digits that read back as the same number, and of
those decimals as the one nearest to it.

The numbers that read back as `m * 2^e` are those of an interval around it: half a unit to each
side, or a quarter below where the next smaller number has half the unit. Its ends belong to it
when `m` is even. Decimals of one length are the points of a grid `10^k`. If any point of a grid
lies in the interval, one of the two neighbours of the number on that grid does, so it is enough to
try those, from the coarsest grid to the finest.
-/
namespace Mecanum.Binary32

open Float.Model (Format UnpackedFloat)

/-- The decimal number `digits * 10^exponent`. -/
structure Decimal where
  digits : Nat
  exponent : Int
deriving DecidableEq, Repr

/-- The interval of numbers that are nearest to `mantissa * 2^exponent`, in quarters of its unit. -/
structure Neighbourhood where
  mantissa : Nat
  exponent : Int
  below : Nat
  closed : Bool

/-- The neighbourhood of a positive number in its rounded form. -/
def Neighbourhood.of (mantissa : Nat) (exponent : Int) : Neighbourhood where
  mantissa := mantissa
  exponent := exponent
  -- The number below a power of two, whose mantissa is 2^23, is at half the distance.
  below := if mantissa = 8388608 ∧ Format.minExponent .binary32 < exponent then 1 else 2
  closed := mantissa % 2 = 0

/--
The point of the grid `10^k` nearest to the number, if one lies in its neighbourhood. A number
halfway between two points goes to the upper one.
-/
def Neighbourhood.nearest? (n : Neighbourhood) (k : Int) : Option Decimal :=
  let unit := Nat.pow 2 (n.exponent - 2).toNat * Nat.pow 10 (-k).toNat
  let step := Nat.pow 2 (2 - n.exponent).toNat * Nat.pow 10 k.toNat
  let value := 4 * n.mantissa * unit
  let low := (4 * n.mantissa - n.below) * unit
  let high := (4 * n.mantissa + 2) * unit
  let floor := value / step
  let lower := floor * step
  let upper := (floor + 1) * step
  let lowerIn := if n.closed then low ≤ lower else low < lower
  let upperIn := if n.closed then upper ≤ high else upper < high
  if upperIn ∧ (¬ lowerIn ∨ upper - value ≤ value - lower) then some ⟨floor + 1, k⟩
  else if lowerIn then some ⟨floor, k⟩
  else none

/-- The exponents of the grids from the coarsest that can matter to the finest. -/
def gridExponents : List Int := (List.range 100).map fun (n : Nat) => 39 - (n : Int)

/-- The shortest decimal that reads back as `mantissa * 2^exponent`. -/
def shortest (mantissa : Nat) (exponent : Int) : Decimal :=
  (gridExponents.findSome? (Neighbourhood.of mantissa exponent).nearest?).getD ⟨0, 0⟩

/-- The decimal in positional notation, with a point only where there is a fraction. -/
def Decimal.text (d : Decimal) : String :=
  let digits := (Nat.toDigits 10 d.digits)
  let places := (-d.exponent).toNat
  if places = 0 then
    String.ofList (digits ++ List.replicate d.exponent.toNat '0')
  else
    let padded := List.replicate (places + 1 - digits.length) '0' ++ digits
    let whole := padded.length - places
    String.ofList (padded.take whole ++ '.' :: padded.drop whole)

/-- A minus sign in front of negative numbers, negative zero included. -/
def signText : UnpackedFloat.Sign → String
  | .negative => "-"
  | .positive => ""

def text (x : Float32) : String :=
  match unpack x with
  | .notANumber => "NaN"
  | .infinity sign => signText sign ++ "inf"
  | .zero sign => signText sign ++ "0"
  | .finite sign mantissa exponent _ => signText sign ++ (shortest mantissa exponent).text

end Mecanum.Binary32
