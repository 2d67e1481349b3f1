import EntityScript.Proofs.History
import EntityScript.Script.Dispatch

/-!
Expressions read the frame that they are evaluated in and leave it as it is, whatever they start and
however they end.  What an expression comes to in a frame is therefore a computation on the world
alone, and so are the initializers of an entity.
-/

namespace EntityScript

open Script

section OnWorld

variable {α β : Type}

theorem onWorld_bind (first : Frame → Script World α) (next : Frame → α → Script World β) :
    onWorld (fun frame => first frame >>= next frame) =
      onWorld first >>= fun value => onWorld fun frame => next frame value := by
  funext ⟨frame, world⟩
  simp only [onWorld, bind_eq]
  cases first frame world <;> rfl

theorem onWorld_pure (value : α) : onWorld (fun _ => pure value) = pure value := rfl

theorem onWorld_raise (error : ScriptError) :
    onWorld (fun _ => raise error : Frame → Script World α) = raise error := rfl

theorem onWorld_ofAttempt (attempt : Attempt α) :
    onWorld (fun _ => ofAttempt attempt) = ofAttempt attempt := by
  cases attempt <;> rfl

theorem onWorld_ite (condition : Prop) [Decidable condition]
    (yes no : Frame → Script World α) :
    onWorld (fun frame => if condition then yes frame else no frame) =
      if condition then onWorld yes else onWorld no := by
  split <;> rfl

theorem onWorld_returned {script : Frame → Script World α} {frame : Frame} {world after : World}
    {value : α} (ran : script frame world = .returned value after) :
    onWorld script ⟨frame, world⟩ = .returned value ⟨frame, after⟩ := by
  rw [onWorld, ran]

theorem state?_onWorld {script : Frame → Script World α} {frame : Frame} {world after : World}
    (ends : (script frame world).state? = some after) :
    (onWorld script ⟨frame, world⟩).state? = some ⟨frame, after⟩ := by
  cases ran : script frame world <;> simp_all [onWorld, Outcome.state?]

end OnWorld

mutual

/-- What an expression comes to in a frame. -/
def eval (calls : Calls) (frame : Frame) : Expr → Script World Value
  | .number value _ => pure (.number value)
  | .text content _ => pure (.text content)
  | .bool value _ => pure (.bool value)
  | .unset _ => pure .unset
  | .this _ => ofAttempt frame.this
  | .ident name _ => ofAttempt (frame.lookup name)
  | .binary .and left right _ => do
      let left ← eval calls frame left
      if left.holds then eval calls frame right else pure left
  | .binary .or left right _ => do
      let left ← eval calls frame left
      if left.holds then pure left else eval calls frame right
  | .binary op left right _ => do
      let left ← eval calls frame left
      let right ← eval calls frame right
      ofAttempt (Value.binary op left right)
  | .unary op operand _ => do
      let operand ← eval calls frame operand
      ofAttempt (Value.unary op operand)
  | .field object name _ => do
      let object ← eval calls frame object
      let world ← get
      ofAttempt (world.readField object name)
  | .method object name arguments _ => do
      let object ← eval calls frame object
      let arguments ← evalAll calls frame arguments
      callMethod object name arguments
  | .spawn type arguments _ => do
      let arguments ← evalAll calls frame arguments
      let ref ← calls.spawn type arguments
      pure (.entity ref)
  | .builtin member arguments _ => do
      let arguments ← evalAll calls frame arguments
      callBuiltin member arguments
  | .global function arguments _ => do
      let arguments ← evalAll calls frame arguments
      callGlobal calls function arguments
  | .call name _ _ => raise (.unknownMethod "global scope" name)
  | .member library name _ _ => raise (.unknownMethod library name)

def evalAll (calls : Calls) (frame : Frame) : List Expr → Script World (List Value)
  | [] => pure []
  | expr :: rest => do
      let value ← eval calls frame expr
      let values ← evalAll calls frame rest
      pure (value :: values)

end

section Expressions

variable (calls : Calls)

mutual

/-- Evaluation hands on the frame that it is given. -/
theorem evaluate_eq : ∀ expr, evaluate calls expr = onWorld fun frame => eval calls frame expr
  | .number value _ | .text content _ | .bool value _ | .unset _ => by
      simp only [evaluate, eval, onWorld_pure]
  | .this _ | .ident name _ => by
      simp only [evaluate, eval]
  | .binary op left right _ => by
      cases op <;>
        simp only [evaluate, eval, onWorld_bind, onWorld_ite, onWorld_pure, onWorld_ofAttempt,
          evaluate_eq left, evaluate_eq right]
  | .unary op operand _ => by
      simp only [evaluate, eval, onWorld_bind, onWorld_ofAttempt, evaluate_eq operand]
  | .field object name _ => by
      rw [evaluate, evaluate_eq object]
      simp only [eval, onWorld_bind]
  | .method object name arguments _ => by
      simp only [evaluate, eval, onWorld_bind, evaluate_eq object, evaluateAll_eq arguments]
  | .spawn type arguments _ => by
      simp only [evaluate, eval, onWorld_bind, onWorld_pure, evaluateAll_eq arguments]
  | .builtin member arguments _ => by
      simp only [evaluate, eval, onWorld_bind, evaluateAll_eq arguments]
  | .global function arguments _ => by
      simp only [evaluate, eval, onWorld_bind, evaluateAll_eq arguments]
  | .call name _ _ | .member library name _ _ => by
      simp only [evaluate, eval, onWorld_raise]

theorem evaluateAll_eq :
    ∀ exprs, evaluateAll calls exprs = onWorld fun frame => evalAll calls frame exprs
  | [] => by
      simp only [evaluateAll, evalAll, onWorld_pure]
  | expr :: rest => by
      simp only [evaluateAll, evalAll, onWorld_bind, onWorld_pure, evaluate_eq expr,
        evaluateAll_eq rest]

end

variable {calls} {frame : Frame} {world after : World}

theorem evaluate_of_eval {expr : Expr} {value : Value}
    (ran : eval calls frame expr world = .returned value after) :
    evaluate calls expr ⟨frame, world⟩ = .returned value ⟨frame, after⟩ := by
  rw [evaluate_eq]
  exact onWorld_returned ran

theorem evaluateAll_of_evalAll {exprs : List Expr} {values : List Value}
    (ran : evalAll calls frame exprs world = .returned values after) :
    evaluateAll calls exprs ⟨frame, world⟩ = .returned values ⟨frame, after⟩ := by
  rw [evaluateAll_eq]
  exact onWorld_returned ran

end Expressions

/-- What the initializers of an entity come to in a frame. -/
def runInitializers (calls : Calls) (frame : Frame) (ref : EntityRef) :
    List Initializer → Script World Unit
  | [] => pure ()
  | initializer :: rest => do
      let value ← match initializer.value with
        | some expr => eval calls frame expr
        | none => pure .unset
      modify fun world => world.setField ref.id initializer.name value
      note (.declared ref initializer.name)
      runInitializers calls frame ref rest

theorem declareProperties_eq (calls : Calls) (ref : EntityRef) (initializers : List Initializer) :
    declareProperties calls ref initializers =
      onWorld fun frame => runInitializers calls frame ref initializers := by
  induction initializers with
  | nil => rfl
  | cons initializer rest inductionHypothesis =>
      obtain ⟨name, value⟩ := initializer
      rw [declareProperties, inductionHypothesis]
      cases value with
      | none => simp only [runInitializers, onWorld_bind, onWorld_pure, Script.bind_assoc]
      | some expr =>
          simp only [runInitializers, onWorld_bind, evaluate_eq, Script.bind_assoc]

theorem declareProperties_of_runInitializers {calls : Calls} {frame : Frame} {ref : EntityRef}
    {initializers : List Initializer} {world after : World}
    (ran : runInitializers calls frame ref initializers world = .returned () after) :
    declareProperties calls ref initializers ⟨frame, world⟩ = .returned () ⟨frame, after⟩ := by
  rw [declareProperties_eq]
  exact onWorld_returned ran

theorem inFrame_onWorld_bind (frame : Frame) (first : Frame → Script World Unit)
    (next : Script Activation Unit) :
    inFrame frame (onWorld first >>= fun _ => next) = (do
      first frame
      inFrame frame next) := by
  funext world
  rw [bind_eq, inFrame, bind_eq, onWorld]
  cases first frame world <;> rfl

theorem setUp_eq (calls : Calls) (type : EntityType) (ref : EntityRef) (arguments : List Value) :
    setUp calls type ref arguments = (do
      let frame := Frame.ofCall ref type.constructor.parameters arguments
      runInitializers calls frame ref type.initializers
      runBody calls frame type.constructor.body) := by
  rw [setUp, declareProperties_eq]
  exact inFrame_onWorld_bind _ _ _

end EntityScript
