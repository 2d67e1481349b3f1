import EntityScript.Diagnostic
import EntityScript.Number.Reading

/-!
Cutting a text into lexemes.  `scanToken` looks at one character and says which token
starts with it and how many of the characters behind it the token takes; `scan` goes
through the text with it.  Every line end becomes a newline token here; which of them
end a statement is decided afterwards.
-/

namespace EntityScript

open Source (Span byteLength)

/-- Letters, digits and the underscore, all of them ASCII. -/
def isWordChar (c : Char) : Bool := c.isAlphanum || c = '_'

def isUnitChar (c : Char) : Bool := isWordChar c || c = '/'

/-- Whether an annotation may be glued to the character. -/
def isAnnotatable (c : Char) : Bool := isWordChar c || c = ')'

def isBlank (c : Char) : Bool := c = ' ' || c = '\t' || c = '\r'

/-- A token and the number of characters it takes after its first one, or a problem
and the number of characters after the first one that are part of it. -/
abbrev Scanned := Except (LexicalProblem × Nat) (Token × Nat)

/-- The plain token, or the other one when `=` comes next. -/
def scanAssign (rest : List Char) (plain assigned : Token) : Scanned :=
  match rest with
  | '=' :: _ => .ok (assigned, 1)
  | _ => .ok (plain, 0)

/-- A token that needs its character twice. -/
def scanDouble (c : Char) (rest : List Char) (token : Token) (problem : LexicalProblem) :
    Scanned :=
  if rest.head? = some c then .ok (token, 1) else .error (problem, 0)

/-- A text up to the quote that opened it, on one line. -/
def scanText (quote : Char) (rest : List Char) : Scanned :=
  let content := rest.takeWhile fun c => c != quote && c != '\n'
  if (rest.drop content.length).head? = some quote then
    .ok (.text (String.ofList content), content.length + 1)
  else .error (.unterminatedText, content.length)

/-- A number: digits, and a fraction when digits follow the point as well. -/
def scanNumber (c : Char) (rest : List Char) : Scanned :=
  let (more, after) := Number.takeDigits rest
  let fraction := match after with
    | '.' :: behind => (Number.takeDigits behind).1
    | _ => []
  if fraction = [] then .ok (.number (Number.ofDigits (c :: more) [] 0), more.length)
  else
    .ok (.number (Number.ofDigits (c :: more) fraction 0), more.length + 1 + fraction.length)

def scanWord (c : Char) (rest : List Char) : Scanned :=
  let more := rest.takeWhile isWordChar
  .ok (.ofWord (String.ofList (c :: more)), more.length)

/-- A unit annotation, a comparison, or a comparison with equality.  Only when glued
to what stands before it is the angle bracket an annotation. -/
def scanLess (previous : Option Char) (rest : List Char) : Scanned :=
  let content := rest.takeWhile isUnitChar
  if previous.any isAnnotatable && !content.isEmpty &&
      (rest.drop content.length).head? == some '>' then
    .ok (.unit (String.ofList content), content.length + 1)
  else scanAssign rest .less .lessEqual

/-- The token that starts with `c`, given the character before it and those after. -/
def scanToken (previous : Option Char) (c : Char) (rest : List Char) : Scanned :=
  match c with
  | '(' => .ok (.leftParen, 0)
  | ')' => .ok (.rightParen, 0)
  | ',' => .ok (.comma, 0)
  | '.' => .ok (.dot, 0)
  | ';' => .ok (.semicolon, 0)
  | '%' => .ok (.percent, 0)
  | ':' => if rest.head? = some ':' then .ok (.doubleColon, 1) else .ok (.colon, 0)
  | '+' => scanAssign rest .plus .plusAssign
  | '*' => scanAssign rest .star .starAssign
  | '/' => scanAssign rest .slash .slashAssign
  | '-' => if rest.head? = some '>' then .ok (.arrow, 1) else scanAssign rest .minus .minusAssign
  | '<' => scanLess previous rest
  | '>' => scanAssign rest .greater .greaterEqual
  | '=' => scanAssign rest .assign .equal
  | '!' => scanAssign rest .bang .notEqual
  | '&' => scanDouble '&' rest .and .loneAmpersand
  | '|' => scanDouble '|' rest .or .loneBar
  | '\x27' => scanText '\x27' rest
  | '\x22' => scanText '\x22' rest
  | _ =>
      if c.isDigit then scanNumber c rest
      else if c.isAlpha || c = '_' then scanWord c rest
      else .error (.unexpectedCharacter c, 0)

/-- Where scanning has come to. -/
structure Cursor where
  offset : Nat
  line : Nat
  previous : Option Char
  deriving Repr, DecidableEq

namespace Cursor

def start : Cursor := ⟨0, 1, none⟩

def span (cursor : Cursor) (cs : List Char) : Span :=
  ⟨cursor.offset, cursor.offset + byteLength cs, cursor.line⟩

/-- The cursor behind characters none of which ends a line. -/
def skip (cursor : Cursor) (cs : List Char) : Cursor :=
  ⟨cursor.offset + byteLength cs, cursor.line, cs.getLast?.or cursor.previous⟩

def nextLine (cursor : Cursor) : Cursor := ⟨cursor.offset + 1, cursor.line + 1, some '\n'⟩

end Cursor

/-- All lexemes of a text from a cursor on, the last of them the end of the text. -/
def scanFrom (cursor : Cursor) (cs : List Char) : Reading (List Lexeme) :=
  match cs with
  | [] => .ok [⟨.eof, cursor.span []⟩]
  | c :: rest =>
      if isBlank c then scanFrom (cursor.skip [c]) rest
      else if c = '\n' then do
        let more ← scanFrom cursor.nextLine rest
        pure (⟨.newline, cursor.span [c]⟩ :: more)
      else
        match scanToken cursor.previous c rest with
        | .error (problem, taken) =>
            .error ⟨.lexical problem, cursor.span (c :: rest.take taken)⟩
        | .ok (token, taken) => do
            let spelling := c :: rest.take taken
            let more ← scanFrom (cursor.skip spelling) (rest.drop taken)
            pure (⟨token, cursor.span spelling⟩ :: more)
termination_by cs.length

/-- All lexemes of a text, line ends included. -/
def scan (text : String) : Reading (List Lexeme) := scanFrom .start text.toList

end EntityScript
