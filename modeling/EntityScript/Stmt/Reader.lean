import EntityScript.Expr.Reader

/-!
Reading statements: definitions, assignments to places, and expressions.
-/

namespace EntityScript

open Source (Span)

def Token.assignOp? : Token → Option AssignOp
  | .assign => some .set
  | .plusAssign => some .add
  | .minusAssign => some .sub
  | .starAssign => some .mul
  | .slashAssign => some .div
  | _ => none

/-- The root and the fields, last one first, of an expression that is a place; or the
part of it that is not. -/
def Expr.path? : Expr → Except Expr (PlaceRoot × List String)
  | .ident name _ => .ok (.ident name, [])
  | .this _ => .ok (.this, [])
  | .field object name _ => do
      let (root, fields) ← object.path?
      pure (root, name :: fields)
  | other => .error other

def Expr.place? (expr : Expr) : Reading Place :=
  match expr.path? with
  | .ok (root, fields) => .ok ⟨root, fields.reverse⟩
  | .error other => .error ⟨.expression .invalidTarget, other.span⟩

def readDefinition (finish opener : Span) (lexemes : List Lexeme) :
    Reading (Strict lexemes Stmt) := do
  let name ← requireName finish lexemes
  let sign ← requireToken finish .assign name.rest
  let value ← readExpr finish sign.rest
  pure (((name.behind sign.relax).behind value.relax).map fun value =>
    .define name.value.1 value (opener.union value.span))

def readAction (finish : Span) (lexemes : List Lexeme) : Reading (Strict lexemes Stmt) := do
  let target ← readExpr finish lexemes
  match target.relax.next? with
  | none => pure (target.map .expr)
  | some next =>
      match next.value.token.assignOp? with
      | none => pure (target.map .expr)
      | some op =>
          let place ← target.value.place?
          let value ← readExpr finish next.rest
          pure ((next.behind value.relax).map fun value =>
            .assign place op value (target.value.span.union value.span))

def readStmt (finish : Span) (lexemes : List Lexeme) : Reading (Strict lexemes Stmt) :=
  match lexemes with
  | [] => readAction finish []
  | next :: rest =>
      if next.token = .kwLet ∨ next.token = .kwConst then do
        let stmt ← readDefinition finish next.span rest
        pure stmt.relax
      else readAction finish (next :: rest)

def Stmt.ofLexemes (payload : Span) (lexemes : List Lexeme) : Reading Stmt := do
  let stmt ← readStmt (endOf payload) lexemes
  requireDone (endOf payload) stmt.rest
  pure stmt.value

end EntityScript
