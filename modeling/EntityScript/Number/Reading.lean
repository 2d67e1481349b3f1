import EntityScript.Number.Dyadic

/-!
Numbers from decimal text.  A text with any number of digits is read as the value
nearest to the decimal it spells.
-/

namespace EntityScript.Number

open Float.Model.UnpackedFloat (Sign)

/-- The natural number that decimal digits spell, most significant first. -/
def natOfDigits (digits : List Char) : Nat :=
  digits.foldl (fun n d => 10 * n + (d.toNat - '0'.toNat)) 0

/-- The value of `whole.fraction · 10^exponent`. -/
def ofDigits (whole fraction : List Char) (exponent : Int) : Float :=
  ofDecimal (natOfDigits (whole ++ fraction)) (exponent - fraction.length)

/-- Digits from the front of a text, and what follows them. -/
def takeDigits (cs : List Char) : List Char × List Char := cs.span Char.isDigit

/-- An exponent mark with an optionally signed whole number; no text at all is the
exponent zero. -/
def exponent? : List Char → Option Int
  | [] => some 0
  | e :: cs =>
      if e = 'e' ∨ e = 'E' then
        let (negative, digits) := match cs with
          | '-' :: more => (true, more)
          | '+' :: more => (false, more)
          | more => (false, more)
        if digits ≠ [] ∧ digits.all Char.isDigit then
          let n : Int := natOfDigits digits
          some (if negative then -n else n)
        else none
      else none

/-- An unsigned decimal: digits with at most one point, at least one digit, and
possibly an exponent. -/
def magnitude? (cs : List Char) : Option Float :=
  let (whole, afterWhole) := takeDigits cs
  let (fraction, afterFraction) := match afterWhole with
    | '.' :: more => takeDigits more
    | more => ([], more)
  if whole = [] ∧ fraction = [] then none
  else (exponent? afterFraction).map (ofDigits whole fraction)

/-- Read a number: an optional sign, then a decimal, an infinity or a value that is
not a number, the latter two in letters of either case. -/
def ofText? (text : String) : Option Float :=
  let (sign, body) := match text.toList with
    | '-' :: more => (Sign.negative, more)
    | '+' :: more => (Sign.positive, more)
    | more => (Sign.positive, more)
  let magnitude :=
    match String.ofList (body.map Char.toLower) with
    | "inf" => some (infinity .positive)
    | "infinity" => some (infinity .positive)
    | "nan" => some nan
    | _ => magnitude? body
  magnitude.map fun x => match sign with
    | .negative => -x
    | .positive => x

end EntityScript.Number
