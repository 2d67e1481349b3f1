import EntityScript.Proofs.Expressions
import EntityScript.Proofs.Primitive

/-!
How evaluation is put together from the calls it starts and from what it does by itself.  The
syntax is gone through once, here: what holds of simple computations and of calls, and is kept
when computations are put together, holds of every body.
-/

namespace EntityScript

open Script

mutual

/-- Whether a statement contains no loop. -/
def Stmt.loopFree : Stmt → Bool
  | .define .. | .assign .. | .expr _ => true
  | .choice branches none _ => branchesLoopFree branches
  | .choice branches (some otherwise) _ => branchesLoopFree branches && allLoopFree otherwise
  | .loop .. => false

def allLoopFree : List Stmt → Bool
  | [] => true
  | stmt :: rest => stmt.loopFree && allLoopFree rest

def branchesLoopFree : List (Expr × List Stmt) → Bool
  | [] => true
  | (_, body) :: rest => allLoopFree body && branchesLoopFree rest

end

/-- Code is permitted if it is free of loops or loops are. -/
def Permitted (loops free : Bool) : Prop := loops = true ∨ free = true

namespace Permitted

variable {loops first second : Bool}

theorem left (permitted : Permitted loops (first && second)) : Permitted loops first :=
  permitted.imp_right fun both => (Bool.and_eq_true_iff.mp both).1

theorem right (permitted : Permitted loops (first && second)) : Permitted loops second :=
  permitted.imp_right fun both => (Bool.and_eq_true_iff.mp both).2

theorem loop (permitted : Permitted loops false) : loops = true :=
  permitted.resolve_right Bool.false_ne_true

end Permitted

/-- How a computation that depends on calls is put together.  It may have no end only where loops
are permitted. -/
inductive Composition (loops : Bool) :
    {σ α : Type} → (σ → World) → (Calls → Script σ α) → Type 1 where
  | simple {σ α : Type} {view : σ → World} {script : Script σ α} :
      Simple view script → Composition loops view fun _ => script
  | endless {σ α : Type} {view : σ → World} :
      loops = true → Composition loops view fun _ => (Script.endless : Script σ α)
  | bind {σ α β : Type} {view : σ → World} {script : Calls → Script σ α}
      {next : Calls → α → Script σ β} :
      Composition loops view script →
      (∀ value, Composition loops view fun calls => next calls value) →
      Composition loops view fun calls => script calls >>= next calls
  | onWorld {α : Type} {script : Calls → Frame → Script World α} :
      (∀ frame, Composition loops id fun calls => script calls frame) →
      Composition loops Activation.world fun calls => onWorld (script calls)
  | inScope {α : Type} {script : Calls → Script Activation α} :
      Composition loops Activation.world script →
      Composition loops Activation.world fun calls => withScope (script calls)
  /-- A statement and how it is executed. -/
  | statement {script : Calls → Script Activation Unit} (stmt : Stmt) :
      Composition loops Activation.world script → Composition loops Activation.world script
  | inFrame (frame : Frame) {script : Calls → Script Activation Unit} :
      Composition loops Activation.world script →
      Composition loops id fun calls => inFrame frame (script calls)
  | spawn (typeName : String) (arguments : List Value) :
      Composition loops id fun calls => calls.spawn typeName arguments
  | emit (event : String) (payload : Value) :
      Composition loops id fun calls => calls.emit event payload

namespace Composition

variable {loops : Bool} {σ α : Type} {view : σ → World}

def either (condition : Prop) [decided : Decidable condition]
    {first second : Calls → Script σ α} (yes : Composition loops view first)
    (no : Composition loops view second) :
    Composition loops view fun calls => if condition then first calls else second calls :=
  match decided with
  | .isTrue _ => yes
  | .isFalse _ => no

def callGlobal (function : Global) (arguments : List Value) :
    Composition loops id fun calls => EntityScript.callGlobal calls function arguments :=
  match function with
  | .emit =>
      .bind (.simple (simple_ofAttempt (textArgument_failsPlainly _ _ _))) fun event =>
        .bind (.emit event _) fun _ => .simple (simple_pure _)
  | .destroy => .simple (by
      apply simple_bind (simple_ofAttempt (argument_failsPlainly _ _ _))
      intro target
      apply simple_bind (simple_ofAttempt target.asEntity_failsPlainly)
      intro ref
      exact simple_bind (simple_destroy ref) fun _ => simple_pure _)
  | .print => .simple (by
      apply simple_bind (simple_ofAttempt (argument_failsPlainly _ _ _))
      intro value
      refine simple_bind (simple_modify fun world => ?_) fun _ => simple_pure _
      exact .noted rfl .printed)

mutual

def evaluate : (expr : Expr) →
    Composition loops Activation.world fun calls => EntityScript.evaluate calls expr
  | .number _ _ | .text _ _ | .bool _ _ | .unset _ => .simple (simple_pure _)
  | .this _ => .simple (simple_onWorld fun frame => simple_ofAttempt frame.this_failsPlainly)
  | .ident name _ =>
      .simple (simple_onWorld fun frame => simple_ofAttempt (frame.lookup_failsPlainly name))
  | .binary op left right _ => by
      have first := evaluate left
      have second := evaluate right
      cases op
      case and => exact .bind first fun value => .either _ second (.simple (simple_pure value))
      case or => exact .bind first fun value => .either _ (.simple (simple_pure value)) second
      all_goals
        exact .bind first fun left => .bind second fun right =>
          .simple (simple_ofAttempt (Value.binary_failsPlainly _ left right))
  | .unary op operand _ =>
      .bind (evaluate operand) fun operand =>
        .simple (simple_ofAttempt (Value.unary_failsPlainly operand op))
  | .field object name _ =>
      .bind (evaluate object) fun object => .simple <| simple_onWorld fun _ =>
        simple_bind simple_get fun world =>
          simple_ofAttempt (world.readField_failsPlainly name object)
  | .method object name arguments _ =>
      .bind (evaluate object) fun object => .bind (evaluateAll arguments) fun arguments =>
        .simple (simple_onWorld fun _ => callMethod_simple object name arguments)
  | .spawn type arguments _ =>
      .bind (evaluateAll arguments) fun arguments =>
        .bind (.onWorld fun _ => .spawn type arguments) fun _ => .simple (simple_pure _)
  | .builtin member arguments _ =>
      .bind (evaluateAll arguments) fun arguments =>
        .simple (simple_onWorld fun _ => callBuiltin_simple member arguments)
  | .global function arguments _ =>
      .bind (evaluateAll arguments) fun arguments =>
        .onWorld fun _ => callGlobal function arguments
  | .call _ _ _ | .member _ _ _ _ => .simple (simple_raise trivial)

def evaluateAll : (exprs : List Expr) →
    Composition loops Activation.world fun calls => EntityScript.evaluateAll calls exprs
  | [] => .simple (simple_pure _)
  | expr :: rest =>
      .bind (evaluate expr) fun _ =>
        .bind (evaluateAll rest) fun _ => .simple (simple_pure _)

end

def countRounds (permitted : loops = true) {body : Calls → Float → Script σ Unit}
    (round : ∀ counter, Composition loops view fun calls => body calls counter)
    (bound : Float) : (rounds : Nat) → (counter : Float) →
    Composition loops view fun calls =>
      EntityScript.countRounds (body calls) bound rounds counter
  | 0, _ => .endless permitted
  | rounds + 1, counter =>
      .either _ (.bind (round counter) fun _ => countRounds permitted round bound rounds _)
        (.simple (simple_pure _))

mutual

def exec : (stmt : Stmt) → Permitted loops stmt.loopFree →
    Composition loops Activation.world fun calls => EntityScript.exec calls stmt
  | .define name value span, _ => .statement (.define name value span) <|
      .bind (evaluate value) fun _ => .simple (simple_changeFrame _)
  | .assign target op value span, _ => .statement (.assign target op value span) <|
      .bind (evaluate value) fun value => .simple (by
        split
        · exact writePlace_simple target value
        · apply simple_bind (readPlace_simple target)
          intro current
          apply simple_bind (simple_ofAttempt (Value.binary_failsPlainly _ current value))
          intro updated
          exact writePlace_simple target updated)
  | .expr value, _ => .statement (.expr value) <|
      .bind (evaluate value) fun _ => .simple (simple_pure _)
  | .choice branches none span, permitted => .statement (.choice branches none span) <|
      .bind (execBranches branches permitted) fun _ => .simple (simple_pure _)
  | .choice branches (some otherwise) span, permitted =>
      .statement (.choice branches (some otherwise) span) <|
      .bind (execBranches branches permitted.left) fun _ =>
        .either _ (.simple (simple_pure _)) (.inScope (execAll otherwise permitted.right))
  | .loop counter start bound stmts span, permitted =>
      .statement (.loop counter start bound stmts span) <|
      .bind (evaluate start) fun start =>
      .bind (.simple (simple_ofAttempt start.asNumber_failsPlainly)) fun start =>
      .bind (evaluate bound) fun bound =>
      .bind (.simple (simple_ofAttempt bound.asNumber_failsPlainly)) fun bound =>
      countRounds permitted.loop (fun _ => .inScope <|
        .bind (.simple (simple_changeFrame _)) fun _ =>
          .inScope (execAll stmts (.inl permitted.loop))) bound maxRounds start

def execAll : (stmts : List Stmt) → Permitted loops (allLoopFree stmts) →
    Composition loops Activation.world fun calls => EntityScript.execAll calls stmts
  | [], _ => .simple (simple_pure _)
  | stmt :: rest, permitted =>
      .bind (exec stmt permitted.left) fun _ => execAll rest permitted.right

def execBranches : (branches : List (Expr × List Stmt)) →
    Permitted loops (branchesLoopFree branches) →
    Composition loops Activation.world fun calls => EntityScript.execBranches calls branches
  | [], _ => .simple (simple_pure _)
  | (condition, stmts) :: rest, permitted =>
      .bind (evaluate condition) fun _ =>
        .either _
          (.bind (.inScope (execAll stmts permitted.left)) fun _ => .simple (simple_pure _))
          (execBranches rest permitted.right)

end

def runBody (frame : Frame) (stmts : List Stmt) (permitted : Permitted loops (allLoopFree stmts)) :
    Composition loops id fun calls => EntityScript.runBody calls frame stmts :=
  .inFrame frame (.inScope (execAll stmts permitted))

def declare (ref : EntityRef) (name : String) (value : Value)
    {rest : Calls → Script Activation Unit} (next : Composition loops Activation.world rest) :
    Composition loops Activation.world fun calls => (do
      EntityScript.onWorld fun _ => do
        modify fun world => world.setField ref.id name value
        note (.declared ref name)
      rest calls) :=
  .bind (.onWorld fun _ =>
    .bind (.simple (simple_modify fun _ => .silent rfl .wrote)) fun _ =>
      .simple (simple_modify fun _ => .noted rfl .declared)) fun _ => next

def declareProperties (ref : EntityRef) : (initializers : List Initializer) →
    Composition loops Activation.world fun calls =>
      EntityScript.declareProperties calls ref initializers
  | [] => .simple (simple_pure _)
  | ⟨name, none⟩ :: rest =>
      .bind (.simple (simple_pure _)) fun value =>
        declare ref name value (declareProperties ref rest)
  | ⟨name, some expr⟩ :: rest =>
      .bind (evaluate expr) fun value =>
        declare ref name value (declareProperties ref rest)

def setUp (type : EntityType) (ref : EntityRef) (arguments : List Value)
    (permitted : Permitted loops (allLoopFree type.constructor.body)) :
    Composition loops id fun calls => EntityScript.setUp calls type ref arguments :=
  .inFrame _ <| .bind (declareProperties ref type.initializers) fun _ =>
    .inScope (execAll type.constructor.body permitted)

end Composition

end EntityScript
