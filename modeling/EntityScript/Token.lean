import EntityScript.Number.Notation
import EntityScript.Source.Span
import EntityScript.Text.Quoted

/-!
Tokens of the script language.  Only words that can never be names are keywords;
words such as `main`, `prop` or `to` are names whose position gives them a meaning.
-/

namespace EntityScript

open Source (Span)

inductive Token where
  | number (value : Float)
  | text (content : String)
  | name (word : String)
  | kwTrue
  | kwFalse
  | kwUnset
  | kwEntity
  | kwIf
  | kwThen
  | kwElse
  | kwLoop
  | kwEnd
  | kwLet
  | kwConst
  | kwThis
  | kwSpawn
  | leftParen
  | rightParen
  | comma
  | dot
  | colon
  | doubleColon
  | arrow
  | semicolon
  | plus
  | minus
  | star
  | slash
  | percent
  | less
  | greater
  | lessEqual
  | greaterEqual
  | equal
  | notEqual
  | and
  | or
  | bang
  | assign
  | plusAssign
  | minusAssign
  | starAssign
  | slashAssign
  /-- A unit of measure in angle brackets, glued to what it annotates. -/
  | unit (measure : String)
  | newline
  | eof
  deriving Repr, DecidableEq, Inhabited

namespace Token

/-- The kind of a token, by the name diagnostics use. -/
def kind : Token → String
  | number _ => "Number"
  | text _ => "Str"
  | name _ => "Ident"
  | kwTrue => "True"
  | kwFalse => "False"
  | kwUnset => "Unset"
  | kwEntity => "Entity"
  | kwIf => "If"
  | kwThen => "Then"
  | kwElse => "Else"
  | kwLoop => "Loop"
  | kwEnd => "End"
  | kwLet => "Let"
  | kwConst => "Const"
  | kwThis => "This"
  | kwSpawn => "Spawn"
  | leftParen => "LParen"
  | rightParen => "RParen"
  | comma => "Comma"
  | dot => "Dot"
  | colon => "Colon"
  | doubleColon => "ColonColon"
  | arrow => "Arrow"
  | semicolon => "Semicolon"
  | plus => "Plus"
  | minus => "Minus"
  | star => "Star"
  | slash => "Slash"
  | percent => "Percent"
  | less => "Lt"
  | greater => "Gt"
  | lessEqual => "Le"
  | greaterEqual => "Ge"
  | equal => "EqEq"
  | notEqual => "Ne"
  | and => "And"
  | or => "Or"
  | bang => "Bang"
  | assign => "Eq"
  | plusAssign => "PlusEq"
  | minusAssign => "MinusEq"
  | starAssign => "StarEq"
  | slashAssign => "SlashEq"
  | unit _ => "UnitAnnotation"
  | newline => "Newline"
  | eof => "Eof"

/-- A token as diagnostics show it: its kind, with the content of those that have one. -/
def describe (token : Token) : String :=
  match token with
  | number value => token.kind ++ "(" ++ Number.Notation.diagnostic.write value ++ ")"
  | text content => token.kind ++ "(" ++ Text.quoted content ++ ")"
  | .name word => token.kind ++ "(" ++ Text.quoted word ++ ")"
  | unit measure => token.kind ++ "(" ++ Text.quoted measure ++ ")"
  | _ => token.kind

def ofWord : String → Token
  | "true" => kwTrue
  | "false" => kwFalse
  | "unset" => kwUnset
  | "entity" => kwEntity
  | "if" => kwIf
  | "then" => kwThen
  | "else" => kwElse
  | "loop" => kwLoop
  | "end" => kwEnd
  | "let" => kwLet
  | "const" => kwConst
  | "this" => kwThis
  | "spawn" => kwSpawn
  | word => .name word

/-- Whether what follows on the next line belongs to the same statement, because the
token cannot end one. -/
def expectsMore : Token → Bool
  | plus | minus | star | slash | percent => true
  | less | greater | lessEqual | greaterEqual | equal | notEqual => true
  | and | or => true
  | assign | plusAssign | minusAssign | starAssign | slashAssign => true
  | comma | dot | doubleColon => true
  | _ => false

/-- Whether the token at the start of a line carries on the statement of the line
before.  A `-` or `!` there starts a statement, as a sign or a negation, and so does
a `<` or `>`. -/
def carriesOn : Token → Bool
  | plus | star | slash | percent => true
  | lessEqual | greaterEqual | equal | notEqual => true
  | and | or | dot => true
  | _ => false

def endsStatement : Token → Bool
  | newline | semicolon | eof => true
  | _ => false

/-- How deep in parentheses what follows the token is.  A closing parenthesis that
was never opened changes nothing. -/
def depthAfter (depth : Nat) : Token → Nat
  | leftParen => depth + 1
  | rightParen => depth - 1
  | _ => depth

end Token

/-- A token and where it stands. -/
structure Lexeme where
  token : Token
  span : Span
  deriving Repr, DecidableEq, Inhabited

end EntityScript
