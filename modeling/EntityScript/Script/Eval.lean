import EntityScript.Frame
import EntityScript.Script.Fields
import EntityScript.Script.Members
import EntityScript.Value.Operators

/-!
Evaluation of expressions and execution of statements.  What calls lead to is a
parameter, so that evaluation itself follows the syntax.  Both are handed the frame and the
world, and hand on what becomes of them.
-/

namespace EntityScript

open Script

/-- What scripts can start from within an expression. -/
structure Calls where
  spawn : String → List Value → Script World EntityRef
  emit : String → Value → Script World Nat

def callGlobal (calls : Calls) (function : Global) (arguments : List Value) :
    Script World Value := do
  match function with
  | .emit =>
      let event ← ofAttempt (textArgument function.name arguments 0)
      let _ ← calls.emit event (arguments[1]?.getD .unset)
      pure .unset
  | .destroy =>
      let target ← ofAttempt (argument function.name arguments 0)
      let ref ← ofAttempt target.asEntity
      modify (·.destroy ref)
      pure .unset
  | .print =>
      let value ← ofAttempt (argument function.name arguments 0)
      modify (·.log (.print value.display))
      pure .unset

/-- The entity that the code belongs to. -/
def Frame.this (frame : Frame) : Attempt Value :=
  match frame.receiver with
  | some ref => .ok (.entity ref)
  | none => .error .thisOutsideEntity

def Frame.lookup (frame : Frame) (name : String) : Attempt Value :=
  match frame.lookup? name with
  | some value => .ok value
  | none => .error (.undefinedVariable name)

/-- What scripts work on: the frame they run in and the world. -/
structure Activation where
  frame : Frame
  world : World

/-- Compute on the world of an activation, given its frame. -/
def onWorld {α : Type} (script : Frame → Script World α) : Script Activation α :=
  fun ⟨frame, world⟩ =>
    match script frame world with
    | .returned value world => .returned value ⟨frame, world⟩
    | .raised error world => .raised error ⟨frame, world⟩
    | .endless => .endless

def changeFrame (change : Frame → Frame) : Script Activation Unit :=
  modify fun activation => { activation with frame := change activation.frame }

mutual

/-- Evaluate an expression.  Operands and arguments are evaluated from left to right; the right
operand of a logical operator only if it decides. -/
def evaluate (calls : Calls) : Expr → Script Activation Value
  | .number value _ => pure (.number value)
  | .text content _ => pure (.text content)
  | .bool value _ => pure (.bool value)
  | .unset _ => pure .unset
  | .this _ => onWorld fun frame => ofAttempt frame.this
  | .ident name _ => onWorld fun frame => ofAttempt (frame.lookup name)
  | .binary .and left right _ => do
      let left ← evaluate calls left
      if left.holds then evaluate calls right else pure left
  | .binary .or left right _ => do
      let left ← evaluate calls left
      if left.holds then pure left else evaluate calls right
  | .binary op left right _ => do
      let left ← evaluate calls left
      let right ← evaluate calls right
      ofAttempt (Value.binary op left right)
  | .unary op operand _ => do
      let operand ← evaluate calls operand
      ofAttempt (Value.unary op operand)
  | .field object name _ => do
      let object ← evaluate calls object
      onWorld fun _ => do
        let world ← get
        ofAttempt (world.readField object name)
  | .method object name arguments _ => do
      let object ← evaluate calls object
      let arguments ← evaluateAll calls arguments
      onWorld fun _ => callMethod object name arguments
  | .spawn type arguments _ => do
      let arguments ← evaluateAll calls arguments
      let ref ← onWorld fun _ => calls.spawn type arguments
      pure (.entity ref)
  | .builtin member arguments _ => do
      let arguments ← evaluateAll calls arguments
      onWorld fun _ => callBuiltin member arguments
  | .global function arguments _ => do
      let arguments ← evaluateAll calls arguments
      onWorld fun _ => callGlobal calls function arguments
  | .call name _ _ => raise (.unknownMethod "global scope" name)
  | .member library name _ _ => raise (.unknownMethod library name)

def evaluateAll (calls : Calls) : List Expr → Script Activation (List Value)
  | [] => pure []
  | expr :: rest => do
      let value ← evaluate calls expr
      let values ← evaluateAll calls rest
      pure (value :: values)

end

def Frame.root (frame : Frame) : PlaceRoot → Attempt Value
  | .ident name => frame.lookup name
  | .this => frame.this

def readPlace (place : Place) : Script Activation Value :=
  onWorld fun frame => do
    let root ← ofAttempt (frame.root place.root)
    let world ← get
    ofAttempt (world.readPath root place.fields)

/-- Give a place a value.  When the root is a local, what the path leads to is written
back to it; an entity is then written back as itself. -/
def writePlace (place : Place) (value : Value) : Script Activation Unit := do
  match place.root, place.fields with
  | .this, [] => raise (.typeMismatch .assignThis)
  | .ident name, [] =>
      let _ ← onWorld fun frame => ofAttempt (frame.lookup name)
      changeFrame (·.assign name value)
  | root, fields =>
      let updated ← onWorld fun frame => do
        let target ← ofAttempt (frame.root root)
        writePath target fields value
      match root with
      | .ident name => changeFrame (·.assign name updated)
      | .this => pure ()

/-- Run in a new scope, which is gone afterwards. -/
def withScope {α : Type} (script : Script Activation α) : Script Activation α := do
  changeFrame Frame.push
  andThen script fun _ activation => { activation with frame := activation.frame.pop }

/-- More rounds than any counting loop has whose counter still advances: beyond `2^53`
adding one to a number leaves it as it is. -/
def maxRounds : Nat := 1 <<< 64

/-- Run a body for a counter and those after it while they are below a bound.  A loop
that is not over after the given number of rounds never ends. -/
def countRounds {σ : Type} (body : Float → Script σ Unit) (bound : Float) :
    Nat → Float → Script σ Unit
  | 0, _ => endless
  | rounds + 1, counter =>
      if counter < bound then do
        body counter
        countRounds body bound rounds (counter + 1)
      else pure ()

mutual

def exec (calls : Calls) : Stmt → Script Activation Unit
  | .define name value _ => do
      let value ← evaluate calls value
      changeFrame (·.define name value)
  | .assign target op value _ => do
      let value ← evaluate calls value
      match op.binary? with
      | none => writePlace target value
      | some op =>
          let current ← readPlace target
          let value ← ofAttempt (Value.binary op current value)
          writePlace target value
  | .expr value => do
      let _ ← evaluate calls value
      pure ()
  | .choice branches none _ => do
      let _ ← execBranches calls branches
      pure ()
  | .choice branches (some otherwise) _ => do
      let taken ← execBranches calls branches
      if taken then pure () else withScope (execAll calls otherwise)
  | .loop counter start bound body _ => do
      let start ← evaluate calls start
      let start ← ofAttempt start.asNumber
      let bound ← evaluate calls bound
      let bound ← ofAttempt bound.asNumber
      let round (count : Float) : Script Activation Unit := withScope do
        changeFrame (·.define counter (.number count))
        withScope (execAll calls body)
      countRounds round bound maxRounds start

def execAll (calls : Calls) : List Stmt → Script Activation Unit
  | [] => pure ()
  | stmt :: rest => do
      exec calls stmt
      execAll calls rest

/-- Execute the body of the first branch whose condition holds, and say whether there is
one. -/
def execBranches (calls : Calls) : List (Expr × List Stmt) → Script Activation Bool
  | [] => pure false
  | (condition, body) :: rest => do
      let condition ← evaluate calls condition
      if condition.holds then do
        withScope (execAll calls body)
        pure true
      else execBranches calls rest

end

/-- Execute statements in a scope of their own. -/
def execBlock (calls : Calls) (stmts : List Stmt) : Script Activation Unit :=
  withScope (execAll calls stmts)

/-- Run code in a frame of its own, which is gone afterwards. -/
def inFrame (frame : Frame) (script : Script Activation Unit) : Script World Unit :=
  fun world =>
    match script ⟨frame, world⟩ with
    | .returned () activation => .returned () activation.world
    | .raised error activation => .raised error activation.world
    | .endless => .endless

def runBody (calls : Calls) (frame : Frame) (body : List Stmt) : Script World Unit :=
  inFrame frame (execBlock calls body)

end EntityScript
