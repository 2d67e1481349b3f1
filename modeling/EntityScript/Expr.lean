import EntityScript.Builtin
import EntityScript.Source.Span

/-!
Expressions and statements.  A reader produces calls and namespaced references by
name; resolution turns them into the global functions and library members meant.
-/

namespace EntityScript

open Source (Span)

inductive BinaryOp where
  | add
  | sub
  | mul
  | div
  | mod
  | lt
  | gt
  | le
  | ge
  | eq
  | ne
  | and
  | or
  deriving DecidableEq, Repr

def BinaryOp.name : BinaryOp → String
  | .add => "Add"
  | .sub => "Sub"
  | .mul => "Mul"
  | .div => "Div"
  | .mod => "Mod"
  | .lt => "Lt"
  | .gt => "Gt"
  | .le => "Le"
  | .ge => "Ge"
  | .eq => "Eq"
  | .ne => "Ne"
  | .and => "And"
  | .or => "Or"

inductive UnaryOp where
  | neg
  | not
  deriving DecidableEq, Repr

inductive Expr where
  | number (value : Float) (span : Span)
  | text (content : String) (span : Span)
  | bool (value : Bool) (span : Span)
  | unset (span : Span)
  | this (span : Span)
  | ident (name : String) (span : Span)
  | binary (op : BinaryOp) (left right : Expr) (span : Span)
  | unary (op : UnaryOp) (operand : Expr) (span : Span)
  | field (object : Expr) (name : String) (span : Span)
  | method (object : Expr) (name : String) (arguments : List Expr) (span : Span)
  | spawn (type : String) (arguments : List Expr) (span : Span)
  /-- A call of a function by its name. -/
  | call (name : String) (arguments : List Expr) (span : Span)
  /-- A reference to a library member by name; no argument list when it is not called. -/
  | member (library name : String) (arguments : Option (List Expr)) (span : Span)
  /-- A library member that was found. -/
  | builtin (member : Builtin) (arguments : List Expr) (span : Span)
  /-- A global function that was found. -/
  | global (function : Global) (arguments : List Expr) (span : Span)
  deriving Repr

def Expr.span : Expr → Span
  | number _ span | text _ span | bool _ span | unset span | this span | ident _ span => span
  | binary _ _ _ span | unary _ _ span | field _ _ span | method _ _ _ span => span
  | spawn _ _ span | call _ _ span | member _ _ _ span => span
  | builtin _ _ span | global _ _ span => span

/-- What the path of a place starts from. -/
inductive PlaceRoot where
  | ident (name : String)
  | this
  deriving DecidableEq, Repr

/-- Where an assignment writes: a local or the entity itself, and a path of fields. -/
structure Place where
  root : PlaceRoot
  fields : List String
  deriving DecidableEq, Repr

inductive AssignOp where
  | set
  | add
  | sub
  | mul
  | div
  deriving DecidableEq, Repr

/-- The operator that a compound assignment applies to the old value. -/
def AssignOp.binary? : AssignOp → Option BinaryOp
  | .set => none
  | .add => some .add
  | .sub => some .sub
  | .mul => some .mul
  | .div => some .div

inductive Stmt where
  /-- Define a name in the innermost scope. -/
  | define (name : String) (value : Expr) (span : Span)
  | assign (target : Place) (op : AssignOp) (value : Expr) (span : Span)
  | expr (value : Expr)
  | choice (branches : List (Expr × List Stmt)) (otherwise : Option (List Stmt)) (span : Span)
  /-- Count from a start, inclusive, to a bound, exclusive, in steps of one. -/
  | loop (counter : String) (start bound : Expr) (body : List Stmt) (span : Span)
  deriving Repr

end EntityScript
