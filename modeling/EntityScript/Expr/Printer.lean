import EntityScript.Stmt.Reader

/-!
Printing expressions as tokens.  Parentheses stand only where an operator binds more loosely
than its place permits.
-/

namespace EntityScript

open Source (Span)

def BinaryOp.token : BinaryOp → Token
  | .add => .plus
  | .sub => .minus
  | .mul => .star
  | .div => .slash
  | .mod => .percent
  | .lt => .less
  | .gt => .greater
  | .le => .lessEqual
  | .ge => .greaterEqual
  | .eq => .equal
  | .ne => .notEqual
  | .and => .and
  | .or => .or

def UnaryOp.token : UnaryOp → Token
  | .neg => .minus
  | .not => .bang

def AssignOp.token : AssignOp → Token
  | .set => .assign
  | .add => .plusAssign
  | .sub => .minusAssign
  | .mul => .starAssign
  | .div => .slashAssign

@[simp]
theorem BinaryOp.binaryOp?_token (op : BinaryOp) : op.token.binaryOp? = some op := by
  cases op <;> rfl

@[simp]
theorem UnaryOp.unaryOp?_token (op : UnaryOp) : op.token.unaryOp? = some op := by
  cases op <;> rfl

@[simp]
theorem AssignOp.assignOp?_token (op : AssignOp) : op.token.assignOp? = some op := by
  cases op <;> rfl

theorem Token.eq_of_binaryOp? {token : Token} {op : BinaryOp}
    (found : token.binaryOp? = some op) : token = op.token := by
  unfold binaryOp? at found
  split at found <;> cases found <;> rfl

theorem Token.eq_of_unaryOp? {token : Token} {op : UnaryOp}
    (found : token.unaryOp? = some op) : token = op.token := by
  unfold unaryOp? at found
  split at found <;> cases found <;> rfl

theorem Token.eq_of_assignOp? {token : Token} {op : AssignOp}
    (found : token.assignOp? = some op) : token = op.token := by
  unfold assignOp? at found
  split at found <;> cases found <;> rfl

/-- How loosely expressions bind: accesses and operands 0, signs and negations 1, then
operators by their tiers.  Nothing binds more loosely than this. -/
abbrev loosest : Nat := tierCount + 1

def grouped (tokens : List Token) : List Token := .leftParen :: tokens ++ [.rightParen]

def groupedIf (needed : Bool) (tokens : List Token) : List Token :=
  if needed then grouped tokens else tokens

mutual

/-- The tokens of an expression in a place where nothing may bind more loosely than a
limit.  What is resolved is printed as it is referred to. -/
def Expr.print (limit : Nat) : Expr → List Token
  | .number value _ => [.number value]
  | .text content _ => [.text content]
  | .bool true _ => [.kwTrue]
  | .bool false _ => [.kwFalse]
  | .unset _ => [.kwUnset]
  | .this _ => [.kwThis]
  | .ident name _ => [.name name]
  | .binary op left right _ =>
      groupedIf (limit < op.tier + 2)
        (left.print (op.tier + 2) ++ op.token :: right.print (op.tier + 1))
  | .unary op operand _ => groupedIf (limit < 1) (op.token :: operand.print 1)
  | .field object name _ => object.print 0 ++ [.dot, .name name]
  | .method object name arguments _ =>
      object.print 0 ++ .dot :: .name name :: grouped (Expr.printAll arguments)
  | .spawn type [] _ => .kwSpawn :: grouped [.name type]
  | .spawn type (argument :: arguments) _ =>
      .kwSpawn :: grouped (.name type :: .comma :: Expr.printAll (argument :: arguments))
  | .call name arguments _ => .name name :: grouped (Expr.printAll arguments)
  | .member library name none _ => [.name library, .doubleColon, .name name]
  | .member library name (some arguments) _ =>
      .name library :: .doubleColon :: .name name :: grouped (Expr.printAll arguments)
  | .builtin found arguments _ =>
      .name found.entry.library.name :: .doubleColon :: .name found.name ::
        match found.shape with
        | .property => []
        | .function _ _ => grouped (Expr.printAll arguments)
  | .global function arguments _ => .name function.name :: grouped (Expr.printAll arguments)

def Expr.printAll : List Expr → List Token
  | [] => []
  | [expr] => expr.print loosest
  | expr :: next :: rest => expr.print loosest ++ .comma :: Expr.printAll (next :: rest)

end

def PlaceRoot.toExpr : PlaceRoot → Expr
  | .ident name => .ident name .none
  | .this => .this .none

/-- The place as an expression. -/
def Place.toExpr (place : Place) : Expr :=
  place.fields.foldl (fun object name => .field object name .none) place.root.toExpr

mutual

/-- Whether every reference in the expression is by name. -/
def Expr.unresolved : Expr → Bool
  | .number .. | .text .. | .bool .. | .unset _ | .this _ | .ident .. => true
  | .binary _ left right _ => left.unresolved && right.unresolved
  | .unary _ operand _ => operand.unresolved
  | .field object _ _ => object.unresolved
  | .method object _ arguments _ => object.unresolved && allUnresolved arguments
  | .spawn _ arguments _ | .call _ arguments _ => allUnresolved arguments
  | .member _ _ none _ => true
  | .member _ _ (some arguments) _ => allUnresolved arguments
  | .builtin .. | .global .. => false

def allUnresolved : List Expr → Bool
  | [] => true
  | expr :: rest => expr.unresolved && allUnresolved rest

end

mutual

/-- The expression without its positions. -/
def Expr.bare : Expr → Expr
  | .number value _ => .number value .none
  | .text content _ => .text content .none
  | .bool value _ => .bool value .none
  | .unset _ => .unset .none
  | .this _ => .this .none
  | .ident name _ => .ident name .none
  | .binary op left right _ => .binary op left.bare right.bare .none
  | .unary op operand _ => .unary op operand.bare .none
  | .field object name _ => .field object.bare name .none
  | .method object name arguments _ => .method object.bare name (bareAll arguments) .none
  | .spawn type arguments _ => .spawn type (bareAll arguments) .none
  | .call name arguments _ => .call name (bareAll arguments) .none
  | .member library name none _ => .member library name none .none
  | .member library name (some arguments) _ =>
      .member library name (some (bareAll arguments)) .none
  | .builtin found arguments _ => .builtin found (bareAll arguments) .none
  | .global function arguments _ => .global function (bareAll arguments) .none

def bareAll : List Expr → List Expr
  | [] => []
  | expr :: rest => expr.bare :: bareAll rest

end

end EntityScript
