import EntityScript.Program.Lowering

/-!
Resolution binds calls and namespaced references to the global functions and library
members they mean.  A reference to nothing, or one of the wrong shape, is a problem,
so that a unit is either accepted as a whole or not at all.
-/

namespace EntityScript

open Source (Span)

/-- Stop because of a reference. -/
def unresolved {α : Type} (problem : ReferenceProblem) (span : Span) : Reading α :=
  .error ⟨.reference problem, span⟩

/-- The global function that a call with so many arguments means. -/
def Global.resolve (name : String) (count : Nat) (span : Span) : Reading Global :=
  match Global.find? name with
  | none => unresolved (.unknownFunction name) span
  | some function =>
      let entry := function.entry
      if count < entry.least ∨ entry.most < count then
        unresolved (.argumentCount name entry.least entry.most count) span
      else .ok function

/-- The library member that a reference means, called with so many arguments or not
called. -/
def Builtin.resolve (library name : String) (count : Option Nat) (span : Span) :
    Reading Builtin :=
  let path := library ++ "::" ++ name
  match Builtin.find? library name with
  | none => unresolved (.unknownMember path) span
  | some builtin =>
      match builtin.shape, count with
      | .property, none => .ok builtin
      | .property, some _ => unresolved (.notCallable path) span
      | .function _ _, none => unresolved (.notCalled path) span
      | .function least most, some count =>
          if count < least ∨ most < count then
            unresolved (.argumentCount path least most count) span
          else .ok builtin

mutual

/-- The expression with every reference in it resolved. -/
def Expr.resolve : Expr → Reading Expr
  | .number value span => .ok (.number value span)
  | .text content span => .ok (.text content span)
  | .bool value span => .ok (.bool value span)
  | .unset span => .ok (.unset span)
  | .this span => .ok (.this span)
  | .ident name span => .ok (.ident name span)
  | .binary op left right span => do
      let left ← left.resolve
      let right ← right.resolve
      pure (.binary op left right span)
  | .unary op operand span => do
      let operand ← operand.resolve
      pure (.unary op operand span)
  | .field object name span => do
      let object ← object.resolve
      pure (.field object name span)
  | .method object name arguments span => do
      let object ← object.resolve
      let arguments ← Expr.resolveAll arguments
      pure (.method object name arguments span)
  | .spawn type arguments span => do
      let arguments ← Expr.resolveAll arguments
      pure (.spawn type arguments span)
  | .call name arguments span => do
      let function ← Global.resolve name arguments.length span
      let arguments ← Expr.resolveAll arguments
      pure (.global function arguments span)
  | .member library name none span => do
      let found ← Builtin.resolve library name none span
      pure (.builtin found [] span)
  | .member library name (some arguments) span => do
      let found ← Builtin.resolve library name (some arguments.length) span
      let arguments ← Expr.resolveAll arguments
      pure (.builtin found arguments span)
  | .builtin found arguments span => do
      let arguments ← Expr.resolveAll arguments
      pure (.builtin found arguments span)
  | .global function arguments span => do
      let arguments ← Expr.resolveAll arguments
      pure (.global function arguments span)

def Expr.resolveAll : List Expr → Reading (List Expr)
  | [] => .ok []
  | expr :: rest => do
      let expr ← expr.resolve
      let exprs ← Expr.resolveAll rest
      pure (expr :: exprs)

end

mutual

def Stmt.resolve : Stmt → Reading Stmt
  | .define name value span => do
      let value ← value.resolve
      pure (.define name value span)
  | .assign target op value span => do
      let value ← value.resolve
      pure (.assign target op value span)
  | .expr value => do
      let value ← value.resolve
      pure (.expr value)
  | .choice branches none span => do
      let branches ← Stmt.resolveBranches branches
      pure (.choice branches none span)
  | .choice branches (some otherwise) span => do
      let branches ← Stmt.resolveBranches branches
      let otherwise ← Stmt.resolveAll otherwise
      pure (.choice branches (some otherwise) span)
  | .loop counter start bound body span => do
      let start ← start.resolve
      let bound ← bound.resolve
      let body ← Stmt.resolveAll body
      pure (.loop counter start bound body span)

def Stmt.resolveAll : List Stmt → Reading (List Stmt)
  | [] => .ok []
  | stmt :: rest => do
      let stmt ← stmt.resolve
      let stmts ← Stmt.resolveAll rest
      pure (stmt :: stmts)

def Stmt.resolveBranches : List (Expr × List Stmt) → Reading (List (Expr × List Stmt))
  | [] => .ok []
  | (condition, body) :: rest => do
      let condition ← condition.resolve
      let body ← Stmt.resolveAll body
      let branches ← Stmt.resolveBranches rest
      pure ((condition, body) :: branches)

end

def Method.resolve (method : Method) : Reading Method := do
  let body ← Stmt.resolveAll method.body
  pure { method with body }

def Method.resolve? : Option Method → Reading (Option Method)
  | none => .ok none
  | some method => some <$> method.resolve

def Initializer.resolve (initializer : Initializer) : Reading Initializer :=
  match initializer.value with
  | none => .ok initializer
  | some value => do
      let value ← value.resolve
      pure { initializer with value := some value }

def Method.resolveEntries : List (String × Method) → Reading (List (String × Method))
  | [] => .ok []
  | (event, method) :: rest => do
      let method ← method.resolve
      let methods ← Method.resolveEntries rest
      pure ((event, method) :: methods)

def EntityType.resolve (type : EntityType) : Reading EntityType := do
  let initializers ← type.initializers.mapM Initializer.resolve
  let constructor ← type.constructor.resolve
  let tick ← Method.resolve? type.tick
  let render ← Method.resolve? type.render
  let handlers ← Method.resolveEntries type.handlers.entries
  pure { type with initializers, constructor, tick, render, handlers := ⟨handlers⟩ }

/-- Resolve a program, `main` first. -/
def Program.resolve (program : Program) : Reading Program := do
  let main ← match program.main with
    | none => pure none
    | some body => some <$> Stmt.resolveAll body
  let types ← program.types.mapM EntityType.resolve
  pure { program with main, types }

def Program.ofText (name text : String) : Reading Program := do
  let declarations ← Declaration.ofText text
  let program ← Program.ofDeclarations name declarations
  program.resolve

end EntityScript
