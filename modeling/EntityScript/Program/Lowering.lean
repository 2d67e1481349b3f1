import EntityScript.Block.Unit
import EntityScript.Program
import EntityScript.Stmt.Reader

/-!
From blocks to programs.  Payloads lose their annotations, which mean nothing, and
are read as statements or expressions.
-/

namespace EntityScript

open Source (Span)

/-- Drop unit annotations, and colons with the type name behind them. -/
def stripAnnotations : List Lexeme → List Lexeme
  | [] => []
  | ⟨.unit _, _⟩ :: rest => stripAnnotations rest
  | ⟨.colon, _⟩ :: ⟨.name _, _⟩ :: rest => stripAnnotations rest
  | lexeme :: rest => lexeme :: stripAnnotations rest

def Payload.toExpr (payload : Payload) : Reading Expr :=
  Expr.ofLexemes payload.span (stripAnnotations payload.lexemes)

def Payload.toStmt (payload : Payload) : Reading Stmt :=
  Stmt.ofLexemes payload.span (stripAnnotations payload.lexemes)

mutual

/-- The statement of a block. -/
def Block.toStmt : Block → Reading Stmt
  | .statement payload => payload.toStmt
  | .choice branches none span => do
      let branches ← Block.toBranches branches
      pure (.choice branches none span)
  | .choice branches (some otherwise) span => do
      let branches ← Block.toBranches branches
      let otherwise ← Block.toStmts otherwise
      pure (.choice branches (some otherwise) span)
  | .loop counter start bound body span => do
      let start ← start.toExpr
      let bound ← bound.toExpr
      let body ← Block.toStmts body
      pure (.loop counter start bound body span)
  | .main _ span => .error ⟨.structural .topLevelInside, span⟩
  | .entity definition => .error ⟨.structural .topLevelInside, definition.span⟩

def Block.toStmts : List Block → Reading (List Stmt)
  | [] => .ok []
  | block :: rest => do
      let stmt ← block.toStmt
      let stmts ← Block.toStmts rest
      pure (stmt :: stmts)

def Block.toBranches : List (Payload × List Block) → Reading (List (Expr × List Stmt))
  | [] => .ok []
  | (condition, body) :: rest => do
      let condition ← condition.toExpr
      let body ← Block.toStmts body
      let branches ← Block.toBranches rest
      pure ((condition, body) :: branches)

end

def Procedure.toMethod (procedure : Procedure) : Reading Method := do
  let body ← Block.toStmts procedure.body
  pure ⟨procedure.parameters, body⟩

def Procedure.toMethod? : Option Procedure → Reading (Option Method)
  | none => .ok none
  | some procedure => some <$> procedure.toMethod

def Property.toInitializer (property : Property) : Reading Initializer :=
  match property.initializer with
  | none => .ok ⟨property.name, none⟩
  | some payload => do
      let value ← payload.toExpr
      pure ⟨property.name, some value⟩

/-- Handlers by event, later ones put behind earlier ones. -/
def Handler.toMethods : List Handler → Bindings Method → Reading (Bindings Method)
  | [], methods => .ok methods
  | handler :: rest, methods => do
      let body ← Block.toStmts handler.body
      Handler.toMethods rest (methods.insert handler.event ⟨handler.parameters, body⟩)

def EntityBlock.toType (entity : EntityBlock) : Reading EntityType := do
  let initializers ← entity.properties.mapM Property.toInitializer
  let constructor ← Procedure.toMethod? entity.init
  let tick ← Procedure.toMethod? entity.tick
  let render ← Procedure.toMethod? entity.render
  let handlers ← Handler.toMethods entity.handlers .empty
  pure
    { name := entity.name
      initializers
      constructor := constructor.getD ⟨[], []⟩
      tick
      render
      handlers
      span := entity.span }

/-- Add declarations in order to what a unit contributes; it has one `main` at most. -/
def Program.extend (program : Program) : List Declaration → Reading Program
  | [] => .ok program
  | .main body span :: rest =>
      if program.main.isSome then .error ⟨.structural .secondMain, span⟩
      else do
        let body ← Block.toStmts body
        Program.extend { program with main := some body } rest
  | .entity definition :: rest => do
      let type ← definition.toType
      Program.extend { program with types := program.types ++ [type] } rest
  | .choice _ _ span :: _ => .error ⟨.structural .statementOutside, span⟩
  | .loop _ _ _ _ span :: _ => .error ⟨.structural .statementOutside, span⟩
  | .statement payload :: _ => .error ⟨.structural .statementOutside, payload.span⟩

/-- What the declarations of a unit contribute, references not yet resolved. -/
def Program.ofDeclarations (name : String) (declarations : List Declaration) :
    Reading Program :=
  Program.extend ⟨name, none, []⟩ declarations

end EntityScript
