import EntityScript.Number.Dyadic

/-!
The fewest decimal digits that read back as a given value.

A value stands for every real number that rounds to it, an interval whose ends
belong to it exactly when its mantissa is even.  On the grid of decimals with a
given number of digits only the two neighbours of the value can be the nearest ones
in that interval, so it is enough to try these two, for one digit, two digits and so
on; seventeen always suffice.
-/

namespace EntityScript.Number

/-- The decimal `0.d₁d₂…dₙ · 10^point`, by its digits and the place of the point. -/
structure Decimal where
  digits : List Char
  point : Int
  deriving DecidableEq, Repr

/-- A positive rational number. -/
structure Ratio where
  numerator : Nat
  denominator : Nat
  deriving DecidableEq, Repr

namespace Ratio

def ofDyadic (m : Nat) : Int → Ratio
  | .ofNat k => ⟨m <<< k, 1⟩
  | .negSucc k => ⟨m, 1 <<< (k + 1)⟩

def scale (r : Ratio) : Int → Ratio
  | .ofNat k => ⟨r.numerator * Nat.pow 10 k, r.denominator⟩
  | .negSucc k => ⟨r.numerator, r.denominator * Nat.pow 10 (k + 1)⟩

/-- The `k` with `10^(k-1) ≤ r < 10^k`, up to one place for powers of ten below one. -/
def decimalPoint (r : Ratio) : Int :=
  let whole := r.numerator / r.denominator
  if whole = 0 then
    let inverse := (r.denominator + r.numerator - 1) / r.numerator
    1 - ((Nat.toDigits 10 (inverse - 1)).length : Int)
  else (Nat.toDigits 10 whole).length

end Ratio

/-- Which of two decimals is taken when both are equally near. -/
inductive TieRule where
  | upper
  /-- The one with an even last digit. -/
  | even
  deriving DecidableEq, Repr

def TieRule.takesLower : TieRule → Nat → Bool
  | .upper, _ => false
  | .even, lower => lower % 2 = 0

/-- The reals that round to `m · 2^e`, counted in quarters of `2^e`. -/
structure RoundingInterval where
  low : Nat
  centre : Nat
  high : Nat
  exponent : Int
  /-- Whether the two ends belong to the interval. -/
  closed : Bool
  deriving Repr

/-- Below a power of two the neighbouring value is only half as far away, unless the
exponent is already the least one. -/
def RoundingInterval.of (m : Nat) (e : Int) : RoundingInterval where
  low := 4 * m - if m = 1 <<< 52 ∧ -1074 < e then 1 else 2
  centre := 4 * m
  high := 4 * m + 2
  exponent := e - 2
  closed := m % 2 = 0

/-- Whether `d · unit⁻¹` quarters, given as `n` over a common denominator, lie inside. -/
def RoundingInterval.holds (interval : RoundingInterval) (n unit : Nat) : Bool :=
  if interval.closed then interval.low * unit ≤ n && n ≤ interval.high * unit
  else interval.low * unit < n && n < interval.high * unit

/-- The neighbour of the value with `places` digits that reads back, if there is one;
of two the nearer. -/
def neighbour? (ties : TieRule) (interval : RoundingInterval) (point : Int) (places : Nat) :
    Option Nat :=
  -- one quarter of `2^e` is `unit.numerator / unit.denominator` grid steps
  let unit := (Ratio.ofDyadic 1 interval.exponent).scale (places - point)
  let below := interval.centre * unit.numerator / unit.denominator
  let above := below + 1
  let inside (d : Nat) : Bool :=
    d != 0 && interval.holds (d * unit.denominator) unit.numerator
  let value := interval.centre * unit.numerator
  match inside below, inside above with
  | true, true =>
      let descent := value - below * unit.denominator
      let ascent := above * unit.denominator - value
      if descent < ascent ∨ (descent = ascent ∧ ties.takesLower below) then some below
      else some above
  | true, false => some below
  | false, true => some above
  | false, false => none

/-- Try grids of `places`, `places + 1`, … digits. -/
def shortestFrom (ties : TieRule) (interval : RoundingInterval) (point : Int) :
    Nat → Nat → Nat × Nat
  | 0, places => ((neighbour? ties interval point places).getD 0, places)
  | more + 1, places =>
      match neighbour? ties interval point places with
      | some d => (d, places)
      | none => shortestFrom ties interval point more (places + 1)

/-- The fewest digits that read back as `m · 2^e`, the nearest of those. -/
def shortest (ties : TieRule) (m : Nat) (e : Int) : Decimal :=
  let interval := RoundingInterval.of m e
  let point := (Ratio.ofDyadic m e).decimalPoint
  let (d, places) := shortestFrom ties interval point 16 1
  let digits := Nat.toDigits 10 d
  { digits := (digits.reverse.dropWhile (· == '0')).reverse
    point := point + digits.length - places }

end EntityScript.Number
