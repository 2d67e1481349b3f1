import EntityScript.Block.Entity
import EntityScript.Source.Comments
import EntityScript.Token.Lines

/-!
The top level of a unit: `main` blocks and entities of different names.
-/

namespace EntityScript

open Source (Span)

/-- Read declarations up to the end of the text.  No entity may have one of the names
seen before. -/
def readDeclarations (seen : List String) (lexemes : List Lexeme) :
    Reading (List Declaration) :=
  let skipped := afterTerminators lexemes
  match skipped.next? with
  | none => .ok []
  | some next =>
      match next.value.token with
      | .eof => .ok []
      | .kwEntity => do
          let entity ← readEntity next.value.span next.rest
          if entity.value.name ∈ seen then
            .error ⟨.structural (.entityDefinedTwice entity.value.name), entity.value.span⟩
          else
            let more ← readDeclarations (entity.value.name :: seen) entity.rest
            pure (.entity entity.value :: more)
      | .name "main" => do
          let procedure ← readProcedure .main next.value.span [] next.rest
          let more ← readDeclarations seen procedure.rest
          pure (.main procedure.value.body procedure.value.span :: more)
      | found => misplaced (.unexpectedTopLevel found) skipped.rest
termination_by lexemes.length
decreasing_by all_goals grind

def Declaration.ofLexemes (lexemes : List Lexeme) : Reading (List Declaration) :=
  readDeclarations [] lexemes

def Declaration.ofText (text : String) : Reading (List Declaration) := do
  Declaration.ofLexemes (← lex (Source.stripComments text))

end EntityScript
