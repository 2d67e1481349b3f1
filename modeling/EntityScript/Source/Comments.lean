/-!
Comments run from an unquoted `//` to the end of the line.  They are blanked out
rather than removed, one space for each byte, so every other character keeps its
byte offset, its line and its column.
-/

namespace EntityScript.Source

/-- What the next character is part of. -/
inductive CommentState where
  | code
  /-- A string that the given quote or the end of the line closes. -/
  | quoted (quote : Char)
  | comment
  deriving DecidableEq, Repr

def isQuote (c : Char) : Bool := c = '\x27' || c = '\x22'

def blankComments : CommentState → List Char → List Char
  | _, [] => []
  | .code, c :: rest =>
      if c = '/' ∧ rest.head? = some '/' then ' ' :: blankComments .comment rest
      else c :: blankComments (if isQuote c then .quoted c else .code) rest
  | .quoted quote, c :: rest =>
      c :: blankComments (if c = quote ∨ c = '\n' then .code else .quoted quote) rest
  | .comment, c :: rest =>
      if c = '\n' then c :: blankComments .code rest
      else List.replicate c.utf8Size ' ' ++ blankComments .comment rest

def stripComments (text : String) : String :=
  String.ofList (blankComments .code text.toList)

end EntityScript.Source
