import EntityScript.Number.Shortest

/-!
How numbers are written.  All notations show the fewest digits that read back and
differ only in what a `Notation` records: where the decimal point may stand before an
exponent is used, whether a whole number keeps its `.0`, whether a positive exponent has
a sign, and which of two equally near decimals is shown.
-/

namespace EntityScript.Number

open Float.Model

/-- The decisions of one way of writing numbers. -/
structure Notation where
  /-- Least place of the decimal point that is written without an exponent. -/
  leastPoint : Option Int
  /-- Greatest place of the decimal point that is written without an exponent. -/
  greatestPoint : Option Int
  /-- What follows a whole number that has no exponent. -/
  wholeSuffix : String
  /-- What stands before a positive exponent. -/
  plus : String
  ties : TieRule

namespace Notation

/-- What scripts see: never an exponent, and a whole number has no point. -/
def plain : Notation := ⟨none, none, "", "", .upper⟩

/-- What diagnostics show: always a point, and an exponent from `10^16` on and for
numbers below `10^-4`. -/
def diagnostic : Notation := ⟨some (-3), some 16, ".0", "", .upper⟩

/-- What a data file holds: always a point, and an exponent from `10^16` on and for
numbers below `10^-5`.  An exponent always has a sign, and of two equally near decimals
the one with an even last digit is shown. -/
def data : Notation := ⟨some (-4), some 16, ".0", "+", .even⟩

/-- Whether a decimal with its point at this place is written without an exponent. -/
def positional (style : Notation) (point : Int) : Bool :=
  style.leastPoint.all (· ≤ point) && style.greatestPoint.all (point ≤ ·)

/-- The digits with a point among, before or behind them. -/
def place (style : Notation) (digits : List Char) : Int → List Char
  | .ofNat 0 => '0' :: '.' :: digits
  | .ofNat k =>
      if k < digits.length then digits.take k ++ '.' :: digits.drop k
      else digits ++ List.replicate (k - digits.length) '0' ++ style.wholeSuffix.toList
  | .negSucc k => '0' :: '.' :: List.replicate (k + 1) '0' ++ digits

/-- The digits with a point after the first and a power of ten. -/
def raise (style : Notation) (digits : List Char) (point : Int) : List Char :=
  let mantissa := match digits with
    | [] => ['0']
    | [d] => [d]
    | d :: more => d :: '.' :: more
  let sign := if 0 < point - 1 then style.plus.toList else []
  mantissa ++ 'e' :: sign ++ (toString (point - 1)).toList

def decimal (style : Notation) (d : Decimal) : List Char :=
  if style.positional d.point then style.place d.digits d.point else style.raise d.digits d.point

def write (style : Notation) (x : Float) : String :=
  let signed (sign : UnpackedFloat.Sign) (body : List Char) : String :=
    String.ofList (match sign with | .negative => '-' :: body | .positive => body)
  match parts x with
  | .notANumber => "NaN"
  | .infinity sign => signed sign "inf".toList
  | .zero sign => signed sign ('0' :: style.wholeSuffix.toList)
  | .finite sign m e _ => signed sign (style.decimal (shortest style.ties m e))

end Notation

def text (x : Float) : String := Notation.plain.write x

end EntityScript.Number
