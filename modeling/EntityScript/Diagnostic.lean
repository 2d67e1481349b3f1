import EntityScript.Token

/-!
What can be wrong with a unit of script text.  Every problem is a cause of its own;
its wording is in one function for each stage at which it is found.
-/

namespace EntityScript

open Source (Span)

/-- A stage of reading a unit. -/
inductive Stage where
  /-- Cutting the text into tokens. -/
  | lexical
  /-- Finding the blocks. -/
  | structural
  /-- Reading the statements and expressions within blocks. -/
  | expression
  /-- Finding what names refer to. -/
  | reference
  deriving DecidableEq, Repr

def Stage.name : Stage → String
  | .lexical => "lexer"
  | .structural => "parser"
  | .expression => "expression"
  | .reference => "resolve"

/-- Whether a problem at this stage leaves the block structure unknown. -/
def Stage.isStructural : Stage → Bool
  | .lexical | .structural => true
  | .expression | .reference => false

inductive LexicalProblem where
  | loneAmpersand
  | loneBar
  | unexpectedCharacter (c : Char)
  | unterminatedText
  deriving DecidableEq, Repr

def LexicalProblem.message : LexicalProblem → String
  | .loneAmpersand => "Expected '&&' for logical AND"
  | .loneBar => "Expected '||' for logical OR"
  | .unexpectedCharacter c => "Unexpected character: '" ++ c.toString ++ "'"
  | .unterminatedText => "Unterminated string literal"

/-- A block that an `end` closes. -/
inductive BlockKind where
  | main
  | entity (name : String)
  | init
  | tick
  | render
  | handler (event : String)
  | choice
  | loop
  deriving DecidableEq, Repr

def BlockKind.describe : BlockKind → String
  | .main => "'main'"
  | .entity name => "entity '" ++ name ++ "'"
  | .init => "'init'"
  | .tick => "'tick'"
  | .render => "'render'"
  | .handler event => "handler 'on " ++ event ++ "'"
  | .choice => "'if'"
  | .loop => "'loop'"

/-- What a run of tokens inside a block is for. -/
inductive PayloadKind where
  | condition
  | furtherCondition
  | loopStart
  | loopBound
  | statement
  | initializer (property : String)
  deriving DecidableEq, Repr

def PayloadKind.describe : PayloadKind → String
  | .condition => "'if' condition"
  | .furtherCondition => "'else if' condition"
  | .loopStart => "loop start"
  | .loopBound => "loop bound"
  | .statement => "statement"
  | .initializer property => "initializer for '" ++ property ++ "'"

/-- A part of an entity that may occur once only. -/
inductive MemberKind where
  | property (name : String)
  | init
  | tick
  | render
  | handler (event : String)
  deriving DecidableEq, Repr

def MemberKind.describe : MemberKind → String
  | .property name => "property '" ++ name ++ "'"
  | .init => "'init'"
  | .tick => "'tick'"
  | .render => "'render'"
  | .handler event => "handler for '" ++ event ++ "'"

inductive StructureProblem where
  | unexpectedTopLevel (found : Token)
  | entityDefinedTwice (name : String)
  | expectedToken (wanted found : Token)
  | expectedWord (word : String) (found : Token)
  | expectedName (found : Token)
  | missingEnd (block : BlockKind) (line : Nat)
  | expectedEnd (block : BlockKind) (line : Nat) (found : Token)
  | expectedAfter (wanted : Token) (payload : PayloadKind)
  | missingPayload (payload : PayloadKind)
  | duplicateMember (member : MemberKind) (entity : String)
  | unexpectedMember (found : Token) (entity : String)
  | unknownMember (word entity : String)
  | tickParameters
  | renderParameters
  | expectedEvent (found : Token)
  | unexpectedAfterProperty (found : Token) (property : String)
  | duplicateParameter (name : String)
  | expectedParameterEnd (found : Token)
  | entityInside
  | mainInside
  | unexpectedInStatement (found : Token)
  | elseAfterElse
  | secondMain
  /-- A `main` or an entity in a body. -/
  | topLevelInside
  /-- Anything else at the top level. -/
  | statementOutside
  deriving DecidableEq, Repr

def StructureProblem.message : StructureProblem → String
  | .unexpectedTopLevel found =>
      "Expected 'main ->' or 'entity' at top level, got " ++ found.describe
  | .entityDefinedTwice name => "Entity '" ++ name ++ "' is defined twice"
  | .expectedToken wanted found =>
      "Expected " ++ wanted.describe ++ ", got " ++ found.describe
  | .expectedWord word found => "Expected '" ++ word ++ "', got " ++ found.describe
  | .expectedName found => "Expected identifier, got " ++ found.describe
  | .missingEnd block line =>
      "Missing 'end' for " ++ block.describe ++ " opened on line " ++ toString line
  | .expectedEnd block line found =>
      "Expected 'end' to close " ++ block.describe ++ " opened on line " ++ toString line
        ++ ", got " ++ found.describe
  | .expectedAfter wanted payload =>
      "Expected " ++ wanted.describe ++ " after " ++ payload.describe
  | .missingPayload payload => "Missing " ++ payload.describe
  | .duplicateMember member entity =>
      "Duplicate " ++ member.describe ++ " in entity '" ++ entity ++ "'"
  | .unexpectedMember found entity =>
      "Unexpected " ++ found.describe ++ " in entity '" ++ entity ++ "'"
  | .unknownMember word entity =>
      "Unexpected '" ++ word ++ "' in entity '" ++ entity
        ++ "'; expected prop, state, init, tick, render or on"
  | .tickParameters => "'tick' takes at most one parameter"
  | .renderParameters => "'render' takes no parameters"
  | .expectedEvent found => "Expected quoted event name after 'on', got " ++ found.describe
  | .unexpectedAfterProperty found property =>
      "Unexpected " ++ found.describe ++ " after property '" ++ property ++ "'"
  | .duplicateParameter name => "Duplicate parameter '" ++ name ++ "'"
  | .expectedParameterEnd found =>
      "Expected ',' or ')' in parameter list, got " ++ found.describe
  | .entityInside => "'entity' is only allowed at top level"
  | .mainInside => "'main' is only allowed at top level"
  | .unexpectedInStatement found => "Unexpected " ++ found.describe ++ " in statement"
  | .elseAfterElse => "'else' after final 'else'"
  | .secondMain => "Duplicate 'main' block in unit"
  | .topLevelInside => "Top-level block inside a body"
  | .statementOutside => "Statement outside of a block"

inductive ExpressionProblem where
  | expectedToken (wanted found : Token)
  | expectedName (found : Token)
  | leftOver (found : Token)
  | invalidTarget
  | expectedArgumentEnd (found : Token)
  | unexpected (found : Token)
  deriving DecidableEq, Repr

def ExpressionProblem.message : ExpressionProblem → String
  | .expectedToken wanted found =>
      "Expected " ++ wanted.describe ++ ", got " ++ found.describe
  | .expectedName found => "Expected identifier, got " ++ found.describe
  | .leftOver found => "Unexpected " ++ found.describe
  | .invalidTarget => "Invalid assignment target"
  | .expectedArgumentEnd found =>
      "Expected ',' or ')' in argument list, got " ++ found.describe
  | .unexpected found => "Unexpected " ++ found.describe ++ " in expression"

inductive ReferenceProblem where
  | unknownFunction (name : String)
  | unknownMember (path : String)
  | notCallable (path : String)
  | notCalled (path : String)
  | argumentCount (path : String) (least most found : Nat)
  deriving DecidableEq, Repr

def ReferenceProblem.message : ReferenceProblem → String
  | .unknownFunction name => "Unknown function '" ++ name ++ "'"
  | .unknownMember path => "Unresolved reference '" ++ path ++ "'"
  | .notCallable path => "'" ++ path ++ "' is not callable"
  | .notCalled path => "'" ++ path ++ "' must be called"
  | .argumentCount path least most found =>
      let count :=
        if least = most then toString least else toString least ++ " to " ++ toString most
      "'" ++ path ++ "' expects " ++ count ++ " argument(s), got " ++ toString found

inductive Problem where
  | lexical (problem : LexicalProblem)
  | structural (problem : StructureProblem)
  | expression (problem : ExpressionProblem)
  | reference (problem : ReferenceProblem)
  deriving DecidableEq, Repr

def Problem.stage : Problem → Stage
  | .lexical _ => .lexical
  | .structural _ => .structural
  | .expression _ => .expression
  | .reference _ => .reference

def Problem.message : Problem → String
  | .lexical problem => problem.message
  | .structural problem => problem.message
  | .expression problem => problem.message
  | .reference problem => problem.message

/-- A problem and where it is. -/
structure Diagnostic where
  problem : Problem
  span : Span
  deriving DecidableEq, Repr

namespace Diagnostic

def stage (diagnostic : Diagnostic) : Stage := diagnostic.problem.stage

def message (diagnostic : Diagnostic) : String := diagnostic.problem.message

def column (diagnostic : Diagnostic) (source : String) : Nat :=
  Source.column source diagnostic.span.start

/-- The problem with its stage and position, on one line. -/
def render (diagnostic : Diagnostic) (source : String) : String :=
  "[" ++ diagnostic.stage.name ++ "] line " ++ toString diagnostic.span.line ++ ":"
    ++ toString (diagnostic.column source) ++ ": " ++ diagnostic.message

end Diagnostic

/-- Reading that either finds something or says what is wrong. -/
abbrev Reading (α : Type) := Except Diagnostic α

end EntityScript
