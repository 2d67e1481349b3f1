import EntityScript.Number.Dyadic

/-!
Operations on numbers that are exact, or rounded once from the exact result:
whole-number rounding, remainder, the length of a hypotenuse, and choices among
numbers that say what happens to a value that is not a number.
-/

namespace EntityScript.Number

open Float.Model
open Float.Model.UnpackedFloat (Sign)

/-- Which whole number stands for one that has a fractional part. -/
inductive Rounding where
  | down
  | up
  /-- The nearest, a half going away from zero. -/
  | nearest
  deriving DecidableEq, Repr

/-- Whether the magnitude is taken to the next whole magnitude when `rest / unit` of
it lies beyond the last one. -/
def Rounding.carries : Rounding → Sign → Nat → Nat → Bool
  | .down, .positive, _, _ => false
  | .down, .negative, rest, _ => rest != 0
  | .up, .positive, rest, _ => rest != 0
  | .up, .negative, _, _ => false
  | .nearest, _, rest, unit => unit ≤ 2 * rest

/-- The whole magnitude that stands for `m · 2^e`. -/
def wholeMagnitude (mode : Rounding) (sign : Sign) (m : Nat) : Int → Nat
  | .ofNat k => m <<< k
  | .negSucc k =>
      let unit := 1 <<< (k + 1)
      m / unit + if mode.carries sign (m % unit) unit then 1 else 0

/-- Round to a whole number.  The sign stays, also that of a zero; a value that has
no fractional part is unchanged. -/
def toWhole (mode : Rounding) (x : Float) : Float :=
  match parts x with
  | .finite sign m (.negSucc k) _ =>
      ofDyadic (sign.apply (wholeMagnitude mode sign m (.negSucc k))) 0 sign
  | _ => x

def floor : Float → Float := toWhole .down

def ceil : Float → Float := toWhole .up

def round : Float → Float := toWhole .nearest

/-- The nearest whole number in `0 … 255`; what is not a number counts as zero. -/
def toByte (x : Float) : UInt8 :=
  match parts x with
  | .finite .positive m e _ => UInt8.ofNat (min 255 (wholeMagnitude .nearest .positive m e))
  | .infinity .positive => 255
  | _ => 0

/-- What is left of `x` after whole multiples of `y` are taken away, with the sign
of `x`.  The result is exact. -/
def remainder (x y : Float) : Float :=
  match parts x, parts y with
  | .notANumber, _ => nan
  | _, .notANumber => nan
  | .infinity _, _ => nan
  | _, .zero _ => nan
  | .zero _, _ => x
  | .finite .., .infinity _ => x
  | .finite sign m e _, .finite _ n f _ =>
      let (a, b, low) := align m e n f
      ofDyadic (sign.apply ((a % b : Nat) : Int)) low sign

/-- The length of the hypotenuse over two sides: the root of the exact sum of
squares, so neither overflow nor underflow happens on the way.  An infinite side
wins over one that is not a number. -/
def hypotenuse (x y : Float) : Float :=
  match parts x, parts y with
  | .infinity _, _ => infinity .positive
  | _, .infinity _ => infinity .positive
  | .notANumber, _ => nan
  | _, .notANumber => nan
  | .zero _, _ => y.abs
  | .finite .., .zero _ => x.abs
  | .finite _ m e _, .finite _ n f _ =>
      let (a, b, low) := align m e n f
      let squares := a * a + b * b
      if positive : 0 < squares then
        ofParts (UnpackedFloat.sqrt .binary64 (.finite .positive squares (2 * low) positive))
      else 0

/-- The smaller number, of two equal ones the second; a value that is not a number gives
way to one that is. -/
def least (x y : Float) : Float :=
  if x < y || y.isNaN then x else y

/-- The greater number, of two equal ones the second; a value that is not a number gives
way to one that is. -/
def greatest (x y : Float) : Float :=
  if y < x || y.isNaN then x else y

/-- The number raised to `low`, then lowered to `high`: `high` wins when the bounds
cross, and a bound that is not a number does not bind. -/
def clamp (x low high : Float) : Float := least (greatest x low) high

/-- The number kept in `low … high`; what is not a number stays so. -/
def confine (x low high : Float) : Float :=
  if x < low then low else if high < x then high else x

def pi : Float := Float.ofBits 0x400921fb54442d18

end EntityScript.Number
