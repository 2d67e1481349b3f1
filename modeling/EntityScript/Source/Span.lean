/-!
Places in a source text.  Offsets count the bytes of its UTF-8 form, lines and
columns count from one, and columns count characters.
-/

namespace EntityScript.Source

/-- A stretch of source text and the line it starts on. -/
structure Span where
  start : Nat
  stop : Nat
  line : Nat
  deriving Repr, DecidableEq, Inhabited

def Span.none : Span := ⟨0, 0, 0⟩

def Span.union (a b : Span) : Span :=
  ⟨min a.start b.start, max a.stop b.stop, min a.line b.line⟩

def byteLength (cs : List Char) : Nat := cs.foldr (fun c size => c.utf8Size + size) 0

/-- The column of a byte offset, given the offset and the column of the first of the
remaining characters. -/
def columnFrom (offset : Nat) : List Char → Nat → Nat → Nat
  | [], _, column => column
  | c :: rest, position, column =>
      if offset ≤ position then column
      else columnFrom offset rest (position + c.utf8Size) (if c = '\n' then 1 else column + 1)

def column (text : String) (offset : Nat) : Nat := columnFrom offset text.toList 0 1

end EntityScript.Source
