import EntityScript.Block.Lexemes

/-!
Bodies: statements, choices and loops up to the `end` or `else` that closes the
innermost open block.
-/

namespace EntityScript

open Source (Span)

/-- Whether a token outside parentheses belongs to block structure, so that it cannot
be part of a statement. -/
def Token.isStructural : Token → Bool
  | .kwThen | .arrow | .kwEntity | .kwIf | .kwLoop => true
  | _ => false

def endsStatementText (depth : Nat) (token : Token) : Bool :=
  token.endsStatement
    || (depth = 0 && (token = .kwEnd || token = .kwElse || token.isStructural))

/-- Take a statement.  It may not run into a token of block structure. -/
def readStatement (lexemes : List Lexeme) : Reading (Strict lexemes Payload) :=
  match takePayload endsStatementText lexemes with
  | none =>
      if (nextToken lexemes).isStructural then
        misplaced (.unexpectedInStatement (nextToken lexemes)) lexemes
      else missingPayload .statement (nextSpan lexemes)
  | some payload =>
      if (nextToken payload.rest).isStructural then
        misplaced (.unexpectedInStatement (nextToken payload.rest)) payload.rest
      else .ok payload

/-- Whether the lexemes start with the header of a `main` block. -/
def startsMain : List Lexeme → Bool
  | word :: next :: _ => word.token = .name "main" && next.token = .arrow
  | _ => false

mutual

/-- Read blocks up to an `end` or `else`, which is left for whoever opened the body. -/
def readBody (kind : BlockKind) (opener : Span) (lexemes : List Lexeme) :
    Reading (Lax lexemes (List Block)) :=
  let skipped := afterTerminators lexemes
  match skipped.next? with
  | none => misplaced (.missingEnd kind opener.line) []
  | some next =>
      match next.value.token with
      | .kwEnd | .kwElse => .ok (skipped.map fun _ => [])
      | .eof => misplaced (.missingEnd kind opener.line) skipped.rest
      | _ => do
          let first ← readBlock next.value next.rest
          let more ← readBody kind opener first.rest
          pure (((next.behind first).behind more).relax.map fun more => first.value :: more)
termination_by 2 * lexemes.length + 0
decreasing_by all_goals grind

/-- Read the block that starts with the given lexeme. -/
def readBlock (next : Lexeme) (rest : List Lexeme) : Reading (Lax rest Block) :=
  match next.token with
  | .kwIf => readChoice next.span rest
  | .kwLoop => readLoop next.span rest
  | .kwEntity => misplaced .entityInside (next :: rest)
  | _ =>
      if startsMain (next :: rest) then misplaced .mainInside (next :: rest)
      else do
        let statement ← readStatement (next :: rest)
        pure (statement.map .statement)
termination_by 2 * rest.length + 1
decreasing_by all_goals grind

def readChoice (opener : Span) (lexemes : List Lexeme) : Reading (Lax lexemes Block) := do
  let condition ← payloadUntil .kwThen .condition lexemes
  let body ← readBody .choice opener condition.rest
  let further ← readAlternatives opener body.rest
  let last ← expectEnd .choice opener further.rest
  let (branches, otherwise) := further.value
  pure ((((condition.behind body).behind further).behind last.relax).relax.map fun last =>
    .choice ((condition.value, body.value) :: branches) otherwise (opener.union last))
termination_by 2 * lexemes.length + 0
decreasing_by all_goals grind

/-- Read the further branches of a choice and what runs when no condition holds. -/
def readAlternatives (opener : Span) (lexemes : List Lexeme) :
    Reading (Lax lexemes (List (Payload × List Block) × Option (List Block))) :=
  match lexemes with
  | [] => .ok (.staying ([], none) [])
  | next :: rest =>
      if next.token = .kwElse then
        match rest with
        | [] => misplaced (.missingEnd .choice opener.line) []
        | inner :: behind =>
            if inner.token = .kwIf then do
              let condition ← payloadUntil .kwThen .furtherCondition behind
              let body ← readBody .choice opener condition.rest
              let more ← readAlternatives opener body.rest
              pure (((condition.behind body).behind more).relax.relax.relax.map
                fun (branches, otherwise) => ((condition.value, body.value) :: branches, otherwise))
            else do
              let body ← readBody .choice opener (inner :: behind)
              if nextToken body.rest = .kwElse then misplaced .elseAfterElse body.rest
              else pure (body.relax.map fun body => ([], some body))
      else .ok (.staying ([], none) (next :: rest))
termination_by 2 * lexemes.length + 0
decreasing_by all_goals grind

def readLoop (opener : Span) (lexemes : List Lexeme) : Reading (Lax lexemes Block) := do
  let counter ← expectName lexemes
  let origin ← expectWord "from" counter.rest
  let start ← payloadUntil (.name "to") .loopStart origin.rest
  let bound ← payloadUntil .arrow .loopBound start.rest
  let body ← readBody .loop opener bound.rest
  let last ← expectEnd .loop opener body.rest
  let header := ((counter.behind origin.relax).behind start.relax).behind bound.relax
  pure (((header.behind body).behind last.relax).relax.map fun last =>
    .loop counter.value.1 start.value bound.value body.value (opener.union last))
termination_by 2 * lexemes.length + 0
decreasing_by all_goals grind

end

end EntityScript
