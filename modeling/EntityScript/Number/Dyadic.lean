/-!
Numbers are binary floating point values.  This module goes between a value and
the exact `±m · 2^e` behind it; every rounding back is to the nearest value, a tie
going to the even mantissa.
-/

namespace EntityScript.Number

open Float.Model
open Float.Model.UnpackedFloat (Sign)

/-- The sign, mantissa and exponent of a finite value, or which other value it is. -/
def parts (x : Float) : UnpackedFloat := x.toModel.unpack

/-- The value with the given parts. -/
def ofParts (u : UnpackedFloat) : Float := Float.ofModel (pack u)

def nan : Float := ofParts .notANumber

def infinity (sign : Sign) : Float := ofParts (.infinity sign)

/-- The value nearest to `m · 2^e`; zero takes the given sign. -/
def ofDyadic (m e : Int) (zeroSign : Sign) : Float :=
  ofParts (UnpackedFloat.normalize .binary64 m e zeroSign)

def ofNat (n : Nat) : Float := ofDyadic n 0 .positive

/-- The value nearest to `m · 10^e`. -/
def ofDecimal (m : Nat) (e : Int) : Float :=
  match e with
  | .ofNat k => Float.ofScientific m false k
  | .negSucc k => Float.ofScientific m true (k + 1)

/-- Two mantissas brought to the smaller of their exponents. -/
def align (m : Nat) (e : Int) (n : Nat) (f : Int) : Nat × Nat × Int :=
  let low := min e f
  (m <<< (e - low).toNat, n <<< (f - low).toNat, low)

end EntityScript.Number
