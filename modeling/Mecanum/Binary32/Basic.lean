import Mecanum.Fault

/-!
# Operations on binary32 numbers

All measurements and speeds are IEEE binary32 numbers. Beside the core operations the control code
needs conversions from and to integers, the lesser and the greater of two numbers, clamping, the
remainder of a division and a cheap square root. Each is defined through the unpacked form of a
number (its sign, mantissa and exponent), so its value is exact mathematics followed by at most
one rounding.
-/
namespace Mecanum.Binary32

open Float.Model (Format UnpackedFloat)

/-- The sign, mantissa and exponent of a number. -/
def unpack (x : Float32) : UnpackedFloat := x.toModel.unpack

/-- The number with an unpacked form that is already rounded. -/
def pack (u : UnpackedFloat) : Float32 := .ofModel (.pack u)

def nan : Float32 := .ofBits 0x7fc00000

/-- The number nearest to an integer, of two the one with the even mantissa. -/
def ofInt (n : Int) : Float32 := pack (.ofInt .binary32 n)

/--
The integer part of a number, cut off at the ends of the range `lo` to `hi`. Infinities go to the
ends, and what is not a number goes to zero.
-/
def truncate (lo hi : Int) (x : Float32) : Int :=
  max lo (min hi ((unpack x).toInt lo hi))

/-- The integer part as a signed word of 32 bits. -/
def toWord (x : Float32) : Int := truncate (-2147483648) 2147483647 x

/-- The lesser of two numbers; what is not a number loses against anything. -/
def lesser (x y : Float32) : Float32 :=
  if x.isNaN then y else if y < x then y else x

/-- The greater of two numbers; what is not a number loses against anything. -/
def greater (x y : Float32) : Float32 :=
  if x.isNaN then y else if x < y then y else x

/-- Cuts a number off at two bounds; what is not a number stays as it is. -/
def cutOff (lo hi x : Float32) : Float32 :=
  if x < lo then lo else if hi < x then hi else x

/-- Cuts a number off at two bounds, which have to be in order. -/
def clamp (lo hi x : Float32) : Except Fault Float32 :=
  if lo ≤ hi then .ok (cutOff lo hi x) else .error .clampBounds

/-- Cuts a number off at `limit` on both sides of zero. -/
def clampSymmetric (limit x : Float32) : Except Fault Float32 := clamp (-limit) limit x

/--
The remainder of a division whose quotient is rounded toward zero. Both operands are integer
multiples of the smaller of their two units, and so is the remainder, which is therefore exact. It
has the sign of the dividend.
-/
def remainderUnpacked : UnpackedFloat → UnpackedFloat → UnpackedFloat
  | .notANumber, _ => .notANumber
  | _, .notANumber => .notANumber
  | .infinity _, _ => .notANumber
  | _, .zero _ => .notANumber
  | .zero sign, _ => .zero sign
  | .finite sign m e pos, .infinity _ => .finite sign m e pos
  | .finite sign m e _, .finite _ n f _ =>
    let unit := min e f
    .round .binary32 sign ((m <<< (e - unit).toNat) % (n <<< (f - unit).toNat)) unit

/-- The remainder of `x` divided by `y`, with the sign of `x`. -/
def remainder (x y : Float32) : Float32 :=
  pack (remainderUnpacked (unpack x) (unpack y))

/--
A square root estimate: halving the bit pattern halves the exponent, and adding the pattern of one
first puts the exponent's bias right again. For a normal number it is the mean of two numbers whose
product is that number, cut off to the next binary32 number below. So it is at most some six percent
above the root, and below it only by what was cut off.
-/
def rootEstimate (x : Float32) : Float32 :=
  if 0 ≤ x then .ofBits ((x.toBits + 0x3f800000) >>> 1) else nan

end Mecanum.Binary32
