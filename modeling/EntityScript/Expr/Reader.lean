import EntityScript.Block.Lexemes
import EntityScript.Expr

/-!
Reading expressions.  Operators bind in tiers; those of one tier associate to the
left, and an operand of a tier is an expression of the tiers that bind tighter.
Tightest are field accesses and method calls, then signs and negations.
-/

namespace EntityScript

open Source (Span)

def Token.binaryOp? : Token → Option BinaryOp
  | .star => some .mul
  | .slash => some .div
  | .percent => some .mod
  | .plus => some .add
  | .minus => some .sub
  | .less => some .lt
  | .greater => some .gt
  | .lessEqual => some .le
  | .greaterEqual => some .ge
  | .equal => some .eq
  | .notEqual => some .ne
  | .and => some .and
  | .or => some .or
  | _ => none

def Token.unaryOp? : Token → Option UnaryOp
  | .minus => some .neg
  | .bang => some .not
  | _ => none

/-- How loosely an operator binds. -/
def BinaryOp.tier : BinaryOp → Nat
  | .mul | .div | .mod => 0
  | .add | .sub => 1
  | .lt | .gt | .le | .ge => 2
  | .eq | .ne => 3
  | .and => 4
  | .or => 5

abbrev tierCount : Nat := 6

def Token.operatorOf? (tier : Nat) (token : Token) : Option BinaryOp :=
  token.binaryOp?.filter (·.tier = tier)

def Lexeme.atom? (lexeme : Lexeme) : Option Expr :=
  match lexeme.token with
  | .number value => some (.number value lexeme.span)
  | .text content => some (.text content lexeme.span)
  | .kwTrue => some (.bool true lexeme.span)
  | .kwFalse => some (.bool false lexeme.span)
  | .kwUnset => some (.unset lexeme.span)
  | .kwThis => some (.this lexeme.span)
  | _ => none

/-- Stop because of the next token; behind the last one the problem is at `finish`. -/
def malformed {α : Type} (finish : Span) (problem : ExpressionProblem)
    (lexemes : List Lexeme) : Reading α :=
  .error ⟨.expression problem, match lexemes with
    | [] => finish
    | lexeme :: _ => lexeme.span⟩

def requireToken (finish : Span) (wanted : Token) (lexemes : List Lexeme) :
    Reading (Strict lexemes Span) :=
  match lexemes with
  | lexeme :: rest =>
      if lexeme.token = wanted then .ok (.taking lexeme.span lexeme rest)
      else malformed finish (.expectedToken wanted lexeme.token) (lexeme :: rest)
  | [] => malformed finish (.expectedToken wanted .eof) []

def requireName (finish : Span) (lexemes : List Lexeme) :
    Reading (Strict lexemes (String × Span)) :=
  match lexemes with
  | lexeme :: rest =>
      match lexeme.token with
      | .name word => .ok (.taking (word, lexeme.span) lexeme rest)
      | found => malformed finish (.expectedName found) (lexeme :: rest)
  | [] => malformed finish (.expectedName .eof) []

mutual

/-- Read an expression whose operators are of the first `tier` tiers. -/
def readTier (finish : Span) (tier : Nat) (lexemes : List Lexeme) :
    Reading (Strict lexemes Expr) :=
  match tier with
  | 0 => readUnary finish lexemes
  | tier + 1 => do
      let left ← readTier finish tier lexemes
      let whole ← readOperands finish tier left.value left.rest
      pure (left.behind whole)
termination_by 16 * lexemes.length + (3 + tier)
decreasing_by all_goals grind

/-- Join further operands of a tier to what was read so far. -/
def readOperands (finish : Span) (tier : Nat) (left : Expr) (lexemes : List Lexeme) :
    Reading (Lax lexemes Expr) :=
  match lexemes with
  | [] => .ok (.staying left [])
  | next :: rest =>
      match next.token.operatorOf? tier with
      | none => .ok (.staying left (next :: rest))
      | some op => do
          let right ← readTier finish tier rest
          let joined := .binary op left right.value (left.span.union right.value.span)
          let whole ← readOperands finish tier joined right.rest
          pure (right.behind whole).relax.relax
termination_by 16 * lexemes.length + (3 + tier)
decreasing_by all_goals grind

/-- Read signs and negations and what they apply to. -/
def readUnary (finish : Span) (lexemes : List Lexeme) : Reading (Strict lexemes Expr) :=
  match lexemes with
  | [] => readPostfix finish []
  | next :: rest =>
      match next.token.unaryOp? with
      | none => readPostfix finish (next :: rest)
      | some op => do
          let operand ← readUnary finish rest
          pure (operand.relax.map fun operand =>
            .unary op operand (next.span.union operand.span))
termination_by 16 * lexemes.length + 2
decreasing_by all_goals grind

/-- Read an operand with its field accesses and method calls. -/
def readPostfix (finish : Span) (lexemes : List Lexeme) : Reading (Strict lexemes Expr) := do
  let object ← readPrimary finish lexemes
  let whole ← readAccesses finish object.value object.rest
  pure (object.behind whole)
termination_by 16 * lexemes.length + 1
decreasing_by all_goals grind

/-- Read field accesses and method calls on what was read so far.  They extend to the
name behind the dot. -/
def readAccesses (finish : Span) (object : Expr) (lexemes : List Lexeme) :
    Reading (Lax lexemes Expr) :=
  match lexemes with
  | [] => .ok (.staying object [])
  | next :: rest =>
      if next.token = .dot then do
        let name ← requireName finish rest
        let (word, position) := name.value
        let span := object.span.union position
        match (name.relax.next?).filter (·.value.token = .leftParen) with
        | none =>
            let whole ← readAccesses finish (.field object word span) name.rest
            pure (name.behind whole).relax.relax
        | some opening =>
            let arguments ← readArguments finish opening.rest
            let called := .method object word arguments.value.1 span
            let whole ← readAccesses finish called arguments.rest
            pure ((opening.behind arguments.relax).behind whole).relax.relax
      else .ok (.staying object (next :: rest))
termination_by 16 * lexemes.length + 0
decreasing_by all_goals grind

/-- Read arguments behind an opening parenthesis, and say where the closing one is. -/
def readArguments (finish : Span) (lexemes : List Lexeme) :
    Reading (Strict lexemes (List Expr × Span)) :=
  match lexemes with
  | [] => readArgumentList finish []
  | next :: rest =>
      if next.token = .rightParen then .ok (.taking ([], next.span) next rest)
      else readArgumentList finish (next :: rest)
termination_by 16 * lexemes.length + 11
decreasing_by all_goals grind

def readArgumentList (finish : Span) (lexemes : List Lexeme) :
    Reading (Strict lexemes (List Expr × Span)) := do
  let argument ← readTier finish tierCount lexemes
  match argument.relax.next? with
  | none => malformed finish (.expectedArgumentEnd .eof) []
  | some next =>
      match next.value.token with
      | .comma => do
          let more ← readArgumentList finish next.rest
          pure ((next.behind more.relax).map fun (further, closing) =>
            (argument.value :: further, closing))
      | .rightParen => pure (next.map fun closing => ([argument.value], closing.span))
      | found => malformed finish (.expectedArgumentEnd found) argument.rest
termination_by 16 * lexemes.length + 10
decreasing_by all_goals grind

/-- Read an operand without field accesses.  Grouping parentheses leave no trace in
the expression between them. -/
def readPrimary (finish : Span) (lexemes : List Lexeme) : Reading (Strict lexemes Expr) :=
  match lexemes with
  | [] => malformed finish (.unexpected .eof) []
  | next :: rest =>
      match next.atom? with
      | some atom => .ok (.taking atom next rest)
      | none =>
          match next.token with
          | .leftParen => do
              let inner ← readTier finish tierCount rest
              let closing ← requireToken finish .rightParen inner.rest
              pure ((inner.behind closing.relax).relax.map fun _ => inner.value)
          | .kwSpawn => readSpawn finish next.span rest
          | .name word => readNamed finish word next.span rest
          | found => malformed finish (.unexpected found) (next :: rest)
termination_by 16 * lexemes.length + 0
decreasing_by all_goals grind

/-- Read the entity to spawn and what it is spawned with, behind `spawn`. -/
def readSpawn (finish opener : Span) (lexemes : List Lexeme) :
    Reading (Lax lexemes Expr) := do
  let opening ← requireToken finish .leftParen lexemes
  let name ← requireName finish opening.rest
  let header := opening.behind name.relax
  match header.relax.next?.filter (·.value.token = .comma) with
  | some separator =>
      let arguments ← readArguments finish separator.rest
      pure ((separator.behind arguments.relax).relax.map fun (arguments, closing) =>
        .spawn name.value.1 arguments (opener.union closing))
  | none =>
      let closing ← requireToken finish .rightParen name.rest
      pure ((header.behind closing.relax).relax.map fun closing =>
        .spawn name.value.1 [] (opener.union closing))
termination_by 16 * lexemes.length + 1
decreasing_by all_goals grind

/-- Read what follows a name: a library member, the arguments of a call, or nothing. -/
def readNamed (finish : Span) (word : String) (position : Span) (lexemes : List Lexeme) :
    Reading (Lax lexemes Expr) :=
  match lexemes with
  | [] => .ok (.staying (.ident word position) [])
  | next :: rest =>
      match next.token with
      | .doubleColon => do
          let name ← requireName finish rest
          let (inner, extent) := name.value
          match name.relax.next?.filter (·.value.token = .leftParen) with
          | some opening =>
              let arguments ← readArguments finish opening.rest
              pure ((opening.behind arguments.relax).relax.relax.map fun (arguments, closing) =>
                .member word inner (some arguments) (position.union closing))
          | none =>
              pure (name.relax.relax.map fun _ =>
                .member word inner none (position.union extent))
      | .leftParen => do
          let arguments ← readArguments finish rest
          pure (arguments.relax.relax.map fun (arguments, closing) =>
            .call word arguments (position.union closing))
      | _ => .ok (.staying (.ident word position) (next :: rest))
termination_by 16 * lexemes.length + 0
decreasing_by all_goals grind

end

def readExpr (finish : Span) (lexemes : List Lexeme) : Reading (Strict lexemes Expr) :=
  readTier finish tierCount lexemes

/-- Nothing may be left over. -/
def requireDone (finish : Span) : List Lexeme → Reading Unit
  | [] => .ok ()
  | next :: rest =>
      if next.token = .eof then .ok ()
      else malformed finish (.leftOver next.token) (next :: rest)

/-- The place behind the end of a payload. -/
def endOf (payload : Span) : Span := ⟨payload.stop, payload.stop, payload.line⟩

def Expr.ofLexemes (payload : Span) (lexemes : List Lexeme) : Reading Expr := do
  let expr ← readExpr (endOf payload) lexemes
  requireDone (endOf payload) expr.rest
  pure expr.value

end EntityScript
