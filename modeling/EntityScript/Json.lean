import EntityScript.Number.Reading

/-!
Values of the JSON data format as they are spelled.  Numbers keep their digits, because
what they stand for depends on what they are read as, and a text remembers whether its
escapes spell characters at all.
-/

namespace EntityScript

/-- The exponent of a number as it is spelled. -/
structure JsonExponent where
  negative : Bool
  digits : List Char
  deriving DecidableEq, Repr

/-- A number as it is spelled. -/
structure JsonNumber where
  negative : Bool
  whole : List Char
  /-- The digits behind the point; there are none when there is no point. -/
  fraction : List Char
  exponent : Option JsonExponent
  deriving DecidableEq, Repr

inductive Json where
  | null
  | bool (value : Bool)
  | number (literal : JsonNumber)
  /-- No content when an escape spells half of a surrogate pair. -/
  | text (content : Option String)
  | array (items : List Json)
  | object (members : List (Option String × Json))
  deriving Repr

namespace JsonNumber

def isIntegral (literal : JsonNumber) : Bool :=
  literal.fraction.isEmpty && literal.exponent.isNone

/-- The natural number that is spelled without sign, point and exponent. -/
def toNat? (literal : JsonNumber) : Option Nat :=
  if literal.isIntegral && !literal.negative then some (Number.natOfDigits literal.whole)
  else none

/-- The greatest leading part of a number that is kept exactly. -/
def maxSignificand : Nat := UInt64.size - 1

/-- Add digits to a significand while it stays in range; the second result counts those
added, the third those left over. -/
def accumulate (significand : Nat) : List Char → Nat × Nat × Nat
  | [] => (significand, 0, 0)
  | d :: rest =>
      let next := 10 * significand + (d.toNat - '0'.toNat)
      if maxSignificand < next then (significand, 0, rest.length + 1)
      else
        let (final, added, left) := accumulate next rest
        (final, added + 1, left)

def power (k : Nat) : Float := Number.ofDecimal 1 k

/-- A significand times a power of ten, computed in floating point arithmetic: one
multiplication, which must not overflow, or up to two divisions. -/
def scaled? (significand : Nat) (exponent : Int) : Option Float :=
  let f := Number.ofNat significand
  match exponent with
  | .ofNat k =>
      if k ≤ 308 then
        let x := f * power k
        if x.isInf then none else some x
      else if significand = 0 then some 0 else none
  | .negSucc k =>
      if k < 308 then some (f / power (k + 1))
      else if k < 616 then some (f / power 308 / power (k + 1 - 308))
      else some 0

/-- The greatest exponent that counts as one. -/
def maxExponent : Nat := (1 <<< 31) - 1

/-- The floating point number a literal stands for.  Its leading digits are kept while
they fit into 64 bits, and scaled by a power of ten. -/
def toFloat? (literal : JsonNumber) : Option Float :=
  let (whole, _, leftWhole) := accumulate 0 literal.whole
  let (significand, added, _) := accumulate whole literal.fraction
  let point : Int := leftWhole - added
  let magnitude := match literal.exponent with
    | none =>
        if literal.fraction.isEmpty && leftWhole = 0 then some (Number.ofNat significand)
        else scaled? significand point
    | some exponent =>
        let power := Number.natOfDigits exponent.digits
        if maxExponent < power then
          if significand ≠ 0 ∧ !exponent.negative then none else some 0
        else scaled? significand (if exponent.negative then point - power else point + power)
  magnitude.map fun x => if literal.negative then -x else x

end JsonNumber

end EntityScript
