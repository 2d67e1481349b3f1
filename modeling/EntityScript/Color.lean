import EntityScript.Number.Arithmetic
import EntityScript.Number.Notation
import EntityScript.Source.Span

/-!
Colors with channels of one byte and an alpha between zero and one.
-/

namespace EntityScript

structure Color where
  red : UInt8
  green : UInt8
  blue : UInt8
  alpha : Float
  deriving DecidableEq, Repr

namespace Color

def black : Color := ⟨0, 0, 0, 1⟩

def transparent : Color := ⟨0, 0, 0, 0⟩

/-- A color with its alpha brought into range. -/
def of (red green blue : UInt8) (alpha : Float) : Color :=
  ⟨red, green, blue, Number.confine alpha 0 1⟩

/-- The color of any four numbers: channels are rounded and brought into range. -/
def ofChannels (red green blue alpha : Float) : Color :=
  .of (Number.toByte red) (Number.toByte green) (Number.toByte blue) alpha

def withAlpha (color : Color) (alpha : Float) : Color :=
  .of color.red color.green color.blue alpha

def channel (byte : UInt8) : Float := Number.ofNat byte.toNat

/-- The value of a hexadecimal digit, in letters of either case. -/
def hexDigit? (c : Char) : Option Nat :=
  if '0' ≤ c ∧ c ≤ '9' then some (c.toNat - '0'.toNat)
  else if 'a' ≤ c ∧ c ≤ 'f' then some (c.toNat - 'a'.toNat + 10)
  else if 'A' ≤ c ∧ c ≤ 'F' then some (c.toNat - 'A'.toNat + 10)
  else none

def isHexDigit (c : Char) : Bool :=
  ('0' ≤ c ∧ c ≤ '9') ∨ ('a' ≤ c ∧ c ≤ 'f') ∨ ('A' ≤ c ∧ c ≤ 'F')

/-- What is in front of a byte offset and what is behind it, unless that is inside a character. -/
def splitAtByte? : Nat → List Char → Option (List Char × List Char)
  | 0, cs => some ([], cs)
  | _ + 1, [] => none
  | offset + 1, c :: rest =>
      if c.utf8Size ≤ offset + 1 then do
        let (front, behind) ← splitAtByte? (offset + 1 - c.utf8Size) rest
        some (c :: front, behind)
      else none

/-- What is between two byte offsets. -/
def slice? (start stop : Nat) (cs : List Char) : Option (List Char) := do
  let (_, behind) ← splitAtByte? start cs
  let (part, _) ← splitAtByte? (stop - start) behind
  some part

/-- A number of one byte with one hexadecimal digit more, if that is one byte too. -/
def pushHexDigit? (value : Nat) (c : Char) : Option Nat := do
  let digit ← hexDigit? c
  if 16 * value + digit < 256 then some (16 * value + digit) else none

/-- The byte that hexadecimal digits write, which may have a sign in front. -/
def readByte? : List Char → Option UInt8
  | [] | ['+'] => none
  | '+' :: digits => (digits.foldlM pushHexDigit? 0).map UInt8.ofNat
  | digits => (digits.foldlM pushHexDigit? 0).map UInt8.ofNat

/-- The opaque color that three or six hexadecimal digits behind a `#` spell; of three
each stands for two equal ones. -/
def ofHex? (text : String) : Option Color :=
  match text.toList with
  | '#' :: digits =>
      if digits.all isHexDigit then
        match Source.byteLength digits with
        | 3 => do
            let red ← readByte? (← slice? 0 1 digits)
            let green ← readByte? (← slice? 1 2 digits)
            let blue ← readByte? (← slice? 2 3 digits)
            some ⟨red * 17, green * 17, blue * 17, 1⟩
        | 6 => do
            let red ← readByte? (← slice? 0 2 digits)
            let green ← readByte? (← slice? 2 4 digits)
            let blue ← readByte? (← slice? 4 6 digits)
            some ⟨red, green, blue, 1⟩
        | _ => none
      else none
  | _ => none

def isTransparent (color : Color) : Bool := color.alpha ≤ 0

/-- Equality of channels and, as numbers, of alphas. -/
def equals (a b : Color) : Bool :=
  a.red = b.red && a.green = b.green && a.blue = b.blue && a.alpha == b.alpha

def text (color : Color) : String :=
  "rgba(" ++ toString color.red.toNat ++ "," ++ toString color.green.toNat ++ ","
    ++ toString color.blue.toNat ++ "," ++ Number.text color.alpha ++ ")"

end Color

end EntityScript
