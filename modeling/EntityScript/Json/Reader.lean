import EntityScript.Json
import EntityScript.Remaining

/-!
Reading JSON text.  The grammar is strict: no comments, no trailing commas, no leading
zeros, and nothing but blanks around the one value.
-/

namespace EntityScript.Json

def isSpace (c : Char) : Bool := c = ' ' || c = '\n' || c = '\t' || c = '\r'

def skipSpace : List Char → List Char
  | [] => []
  | c :: rest => if isSpace c then skipSpace rest else c :: rest

theorem length_skipSpace_le (cs : List Char) : (skipSpace cs).length ≤ cs.length := by
  induction cs with
  | nil => simp [skipSpace]
  | cons c rest inductionHypothesis =>
      simp only [skipSpace]
      split
      · exact Nat.le_succ_of_le inductionHypothesis
      · exact Nat.le_refl _

def hexDigit? (c : Char) : Option Nat :=
  if '0' ≤ c ∧ c ≤ '9' then some (c.toNat - '0'.toNat)
  else if 'a' ≤ c ∧ c ≤ 'f' then some (c.toNat - 'a'.toNat + 10)
  else if 'A' ≤ c ∧ c ≤ 'F' then some (c.toNat - 'A'.toNat + 10)
  else none

def afterSpace (cs : List Char) : Lax cs Unit :=
  ⟨(), skipSpace cs, Nat.lt_succ_of_le (length_skipSpace_le cs)⟩

/-- Take the next character that is not blank, if there is one. -/
def nextVisible? {α : Type} {bound : Nat} (r : Remaining Char bound α) :
    Option (Remaining Char bound Char) :=
  (r.behind (afterSpace r.rest)).relax.next?

def readUnit : (cs : List Char) → Option (Strict cs Nat)
  | a :: b :: c :: d :: rest => do
      let high := 16 * (← hexDigit? a) + (← hexDigit? b)
      let low := 16 * (← hexDigit? c) + (← hexDigit? d)
      pure (Remaining.taking (256 * high + low) d rest).relax.relax.relax
  | _ => none

def shortEscape? : Char → Option Char
  | '\x22' => some '\x22'
  | '\\' => some '\\'
  | '/' => some '/'
  | 'b' => some '\x08'
  | 'f' => some '\x0c'
  | 'n' => some '\n'
  | 'r' => some '\r'
  | 't' => some '\t'
  | _ => none

/-- Read the character of a surrogate pair that the text continues with, given the first
half. -/
def readSecondHalf (first : Nat) : (cs : List Char) → Option (Strict cs Char)
  | '\\' :: 'u' :: rest => do
      let second ← readUnit rest
      if 0xdc00 ≤ second.value ∧ second.value < 0xe000 then
        pure (second.relax.relax.map fun second =>
          Char.ofNat (0x10000 + 1024 * (first - 0xd800) + (second - 0xdc00)))
      else none
  | _ => none

/-- Read the character behind the letter of a numeric escape; nothing stands for half of
a surrogate pair. -/
def readCodePoint (cs : List Char) : Option (Strict cs (Option Char)) := do
  let first ← readUnit cs
  if 0xd800 ≤ first.value ∧ first.value < 0xdc00 then
    match readSecondHalf first.value first.rest with
    | some second => pure ((first.behind second.relax).map some)
    | none => pure (first.map fun _ => none)
  else if 0xdc00 ≤ first.value ∧ first.value < 0xe000 then pure (first.map fun _ => none)
  else pure (first.map fun n => some (Char.ofNat n))

/-- Read the character that the given one starts to spell between quotes. -/
def readCharacter (c : Char) (rest : List Char) : Option (Lax rest (Option Char)) :=
  if c = '\\' then
    match rest with
    | [] => none
    | 'u' :: digits => do
        let spelled ← readCodePoint digits
        pure spelled.relax.relax
    | e :: more => do
        let spelled ← shortEscape? e
        pure (Remaining.taking (some spelled) e more).relax
  else if c.toNat < 0x20 then none
  else some (.staying (some c) rest)

def readText (cs : List Char) : Option (Strict cs (List (Option Char))) :=
  match cs with
  | [] => none
  | c :: rest =>
      if c = '\x22' then some (.taking [] c rest)
      else do
        let first ← readCharacter c rest
        let more ← readText first.rest
        pure ((first.behind more.relax).map fun more => first.value :: more)
termination_by cs.length
decreasing_by all_goals grind

/-- The text that characters make up, if none of them is half a pair. -/
def joined (characters : List (Option Char)) : Option String :=
  (characters.mapM id).map String.ofList

/-- The digits of an exponent and the number of characters it takes; no exponent takes
none. -/
def exponentLiteral? : List Char → Option (Option JsonExponent × Nat)
  | e :: cs =>
      if e = 'e' ∨ e = 'E' then
        let (negative, signs, digits) := match cs with
          | '-' :: more => (true, 1, (Number.takeDigits more).1)
          | '+' :: more => (false, 1, (Number.takeDigits more).1)
          | more => (false, 0, (Number.takeDigits more).1)
        if digits.isEmpty then none
        else some (some ⟨negative, digits⟩, 1 + signs + digits.length)
      else some (none, 0)
  | [] => some (none, 0)

/-- The digits behind a point and the number of characters they take with it. -/
def fractionLiteral? : List Char → Option (List Char × Nat)
  | '.' :: cs =>
      let digits := (Number.takeDigits cs).1
      if digits.isEmpty then none else some (digits, 1 + digits.length)
  | _ => some ([], 0)

/-- A number without its sign, and the number of characters it takes. -/
def magnitudeLiteral? (negative : Bool) (cs : List Char) : Option (JsonNumber × Nat) := do
  let (whole, behind) := Number.takeDigits cs
  if whole.isEmpty then none
  else if whole.head? = some '0' && 1 < whole.length then none
  else
    let (fraction, taken) ← fractionLiteral? behind
    let (exponent, takenExponent) ← exponentLiteral? (behind.drop taken)
    pure (⟨negative, whole, fraction, exponent⟩, whole.length + taken + takenExponent)

def readNumber (c : Char) (rest : List Char) : Option (Lax rest Json) :=
  let found :=
    if c = '-' then magnitudeLiteral? true rest
    else (magnitudeLiteral? false (c :: rest)).map fun (literal, n) => (literal, n - 1)
  found.map fun (literal, n) => .dropping (.number literal) n rest

def readWord (ending : List Char) (value : Json) (cs : List Char) : Option (Lax cs Json) :=
  if cs.take ending.length = ending then some (.dropping value ending.length cs) else none

mutual

def readValue (cs : List Char) : Option (Strict cs Json) := do
  let next ← (afterSpace cs).next?
  match next.value with
  | '\x7b' => do
      let members ← readMembers true next.rest
      pure ((next.behind members.relax).map .object)
  | '[' => do
      let items ← readItems true next.rest
      pure ((next.behind items.relax).map .array)
  | '\x22' => do
      let characters ← readText next.rest
      pure ((next.behind characters.relax).map fun characters => .text (joined characters))
  | 'n' => (readWord ['u', 'l', 'l'] .null next.rest).map next.behind
  | 't' => (readWord ['r', 'u', 'e'] (.bool true) next.rest).map next.behind
  | 'f' => (readWord ['a', 'l', 's', 'e'] (.bool false) next.rest).map next.behind
  | c => (readNumber c next.rest).map next.behind
termination_by 2 * cs.length
decreasing_by all_goals grind

/-- Read the items of an array up to its closing bracket.  Only the first one may be
missing. -/
def readItems (first : Bool) (cs : List Char) : Option (Strict cs (List Json)) := do
  let next ← (afterSpace cs).next?
  if next.value = ']' ∧ first then pure (next.map fun _ => [])
  else
    let item ← readValue cs
    let separator ← nextVisible? item
    match separator.value with
    | ',' => do
        let more ← readItems false separator.rest
        pure ((separator.behind more.relax).map fun more => item.value :: more)
    | ']' => pure (separator.map fun _ => [item.value])
    | _ => none
termination_by 2 * cs.length + 1
decreasing_by all_goals grind

/-- Read the members of an object up to its closing brace.  Only the first one may be
missing. -/
def readMembers (first : Bool) (cs : List Char) :
    Option (Strict cs (List (Option String × Json))) := do
  let next ← (afterSpace cs).next?
  if next.value = '\x7d' ∧ first then pure (next.map fun _ => [])
  else if next.value = '\x22' then
    let key ← readText next.rest
    let colon ← nextVisible? key
    if colon.value = ':' then
      let item ← readValue colon.rest
      let separator ← nextVisible? item
      let member := (joined key.value, item.value)
      let taken := (next.behind colon.relax).behind separator.relax
      match separator.value with
      | ',' => do
          let more ← readMembers false separator.rest
          pure ((taken.behind more.relax).map fun more => member :: more)
      | '\x7d' => pure (taken.map fun _ => [member])
      | _ => none
    else none
  else none
termination_by 2 * cs.length + 1
decreasing_by all_goals grind

end

def ofText? (text : String) : Option Json := do
  let found ← readValue text.toList
  if (skipSpace found.rest).isEmpty then some found.value else none

end EntityScript.Json
