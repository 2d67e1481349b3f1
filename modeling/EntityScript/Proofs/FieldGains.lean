import Mathlib.Data.List.Infix
import EntityScript.Proofs.Assignments
import EntityScript.Proofs.Evaluation
import EntityScript.Proofs.Fields

/-!
What evaluation does by itself, between the calls that it starts, brings up at most one field at a
time: an assignment writes one field, whatever its path, and a property is declared by writing it.
-/

namespace EntityScript

open Script

namespace World

/-- At most one field comes up, behind those that its entity has. -/
inductive Gains (world after : World) : Prop
  | nothing : after.fieldNames = world.fieldNames → Gains world after
  | field {id name} : name ∉ world.fieldNames id →
      after.fieldNames id = world.fieldNames id ++ [name] →
      (∀ other, other ≠ id → after.fieldNames other = world.fieldNames other) →
      Gains world after

/-- Fields stay where they are. -/
theorem Gains.grows {world after : World} (gains : world.Gains after) (id : EntityId) :
    world.fieldNames id <+: after.fieldNames id := by
  cases gains with
  | nothing names => rw [names]
  | @field holder name _ gained others =>
      by_cases own : id = holder
      · subst own
        rw [gained]
        exact List.prefix_append _ _
      · rw [others id own]

theorem fieldNames_setField (world : World) (id other : Nat) (name : String) (value : Value) :
    (world.setField id name value).fieldNames other =
      if other = id ∧ id < world.entities.size ∧ name ∉ world.fieldNames id then
        world.fieldNames id ++ [name]
      else world.fieldNames other := by
  unfold fieldNames
  rw [fields_setField]
  by_cases here : other = id ∧ id < world.entities.size
  · obtain ⟨rfl, made⟩ := here
    rw [if_pos ⟨rfl, made⟩, Bindings.names_insert]
    by_cases known : name ∈ (world.fields other).names <;> simp [known, made]
  · rw [if_neg here, if_neg fun fresh => here ⟨fresh.1, fresh.2.1⟩]

theorem gains_setField (world : World) (id : Nat) (name : String) (value : Value) :
    world.Gains (world.setField id name value) := by
  by_cases fresh : id < world.entities.size ∧ name ∉ world.fieldNames id
  · refine .field fresh.2 ?_ fun other apart => ?_
    · rw [fieldNames_setField, if_pos ⟨rfl, fresh⟩]
    · rw [fieldNames_setField, if_neg fun same => apart same.1]
  · apply Gains.nothing
    funext other
    rw [fieldNames_setField, if_neg fun same => fresh same.2]

end World

/-- At most one field comes up in the computation. -/
def Gaining {σ α : Type} (view : σ → World) (script : Script σ α) : Prop :=
  ∀ state after, (script state).state? = some after → (view state).Gains (view after)

section Gaining

variable {σ α β : Type} {view : σ → World}

theorem gaining_of_unwriting {script : Script σ α} (unwriting : Follows view Unwriting script) :
    Gaining view script := by
  intro state after ends
  obtain ⟨_, _, same⟩ := unwriting state after ends
  exact .nothing (World.fieldNames_congr same.fields)

theorem gaining_pure (value : α) : Gaining view (pure value : Script σ α) :=
  gaining_of_unwriting (follows_pure Unwriting.composes value)

theorem gaining_ofAttempt (attempt : Attempt α) : Gaining view (ofAttempt attempt : Script σ α) :=
  gaining_of_unwriting (unwriting_ofAttempt attempt)

theorem gaining_changeFrame (change : Frame → Frame) :
    Gaining Activation.world (changeFrame change) :=
  gaining_of_unwriting
    (follows_modify fun activation => .refl Unwriting.composes activation.world)

/-- What comes before may do anything but write fields. -/
theorem gaining_bind {script : Script σ α} {next : α → Script σ β}
    (unwriting : Follows view Unwriting script) (rest : ∀ value, Gaining view (next value)) :
    Gaining view (script >>= next) := by
  intro state after ends
  rcases ends_bind ends with ⟨value, middle, ran, endsRest⟩ | ⟨error, failed⟩
  · obtain ⟨_, _, same⟩ := unwriting state middle (by rw [ran]; rfl)
    have names := World.fieldNames_congr same.fields
    cases rest value middle after endsRest with
    | nothing kept => exact .nothing (kept.trans names)
    | field fresh gained kept =>
        rw [names] at fresh gained kept
        exact .field fresh gained kept
  · exact gaining_of_unwriting unwriting state after (by rw [failed]; rfl)

theorem unwriting_onWorld {script : Frame → Script World α}
    (unwriting : ∀ frame, Follows id Unwriting (script frame)) :
    Follows Activation.world Unwriting (onWorld script) :=
  (onWorld_tracks (P := fun _ => True) fun frame => tracks_same (unwriting frame)).follows

theorem unwriting_readPlace (place : Place) :
    Follows Activation.world Unwriting (readPlace place) := by
  have composes := Unwriting.composes
  apply unwriting_onWorld
  intro frame
  apply follows_bind composes (unwriting_ofAttempt _)
  intro root
  exact follows_bind composes (follows_get composes) fun world => unwriting_ofAttempt _

/-- Whatever the path, an assignment to a field writes one field at most. -/
theorem gains_writePath {root value updated : Value} {path : List String} {world after : World}
    (further : path ≠ []) (wrote : writePath root path value world = .returned updated after) :
    world.Gains after := by
  by_cases plain : root.kind ≠ .entity
  · have same : after = world := writePath_keeps plain (by rw [wrote]; rfl)
    exact .nothing (by rw [same])
  · cases root with
    | entity first =>
        obtain ⟨count, ref, last⟩ := exists_lastEntity first further
        obtain ⟨_, name, _, new, _, _, undone, done⟩ := writePath_last last wrote
        by_cases visited : Revisits world (.entity first) path count ref
        · rw [undone visited]
          exact .nothing rfl
        · rw [done visited]
          exact world.gains_setField ref.id name new
    | _ => exact absurd (by simp [Value.kind]) plain

theorem gaining_writePlace (place : Place) (value : Value) :
    Gaining Activation.world (writePlace place value) := by
  by_cases empty : place.fields = []
  · obtain ⟨start, fields⟩ := place
    obtain rfl : fields = [] := empty
    cases start with
    | this => exact gaining_of_unwriting (follows_raise Unwriting.composes _)
    | ident name =>
        exact gaining_bind (unwriting_onWorld fun frame => unwriting_ofAttempt _) fun _ =>
          gaining_changeFrame _
  · rintro ⟨frame, world⟩ after ends
    rw [writePlace_of_fields empty] at ends
    cases found : frame.root place.root with
    | error error =>
        rw [found] at ends
        cases ends
        exact .nothing rfl
    | ok root =>
        rw [found] at ends
        dsimp only at ends
        cases wrote : writePath root place.fields value world with
        | returned updated reached =>
            rw [wrote] at ends
            cases ends
            exact gains_writePath empty wrote
        | raised error reached =>
            rw [wrote] at ends
            cases ends
            obtain rfl := writePath_raised wrote
            exact .nothing rfl
        | endless =>
            rw [wrote] at ends
            cases ends

end Gaining

namespace Composition

variable {loops : Bool}

/-- In every part of the composition that starts no calls, at most one field comes up. -/
def Gradual : {σ α : Type} → {view : σ → World} → {script : Calls → Script σ α} →
    Composition loops view script → Prop
  | _, _, _, _, @simple _ _ _ view script _ => Gaining view script
  | _, _, _, _, endless _ => True
  | _, _, _, _, bind first rest => first.Gradual ∧ ∀ value, (rest value).Gradual
  | _, _, _, _, onWorld script => ∀ frame, (script frame).Gradual
  | _, _, _, _, inScope script => script.Gradual
  | _, _, _, _, statement _ script => script.Gradual
  | _, _, _, _, inFrame _ script => script.Gradual
  | _, _, _, _, spawn _ _ => True
  | _, _, _, _, emit _ _ => True

theorem gradual_either {σ α : Type} {view : σ → World} {condition : Prop}
    [decided : Decidable condition] {first second : Calls → Script σ α}
    {yes : Composition loops view first} {no : Composition loops view second}
    (gradualYes : yes.Gradual) (gradualNo : no.Gradual) : (either condition yes no).Gradual := by
  cases decided with
  | isTrue _ => exact gradualYes
  | isFalse _ => exact gradualNo

theorem gradual_callGlobal (function : Global) (arguments : List Value) :
    (callGlobal function arguments : Composition loops id _).Gradual := by
  cases function with
  | emit => exact ⟨gaining_ofAttempt _, fun _ => ⟨trivial, fun _ => gaining_pure _⟩⟩
  | destroy =>
      change Gaining id (EntityScript.callGlobal (.ofLevels 0) .destroy arguments)
      exact gaining_of_unwriting (unwriting_callGlobal _ (by decide) arguments)
  | print =>
      change Gaining id (EntityScript.callGlobal (.ofLevels 0) .print arguments)
      exact gaining_of_unwriting (unwriting_callGlobal _ (by decide) arguments)

mutual

theorem gradual_evaluate : ∀ expr : Expr,
    (evaluate expr : Composition loops Activation.world _).Gradual
  | .number _ _ | .text _ _ | .bool _ _ | .unset _ => gaining_pure _
  | .this _ =>
      gaining_of_unwriting (unwriting_onWorld fun frame => unwriting_ofAttempt frame.this)
  | .ident name _ =>
      gaining_of_unwriting (unwriting_onWorld fun frame =>
        unwriting_ofAttempt (frame.lookup name))
  | .binary op left right _ => by
      have first : (evaluate left : Composition loops _ _).Gradual := gradual_evaluate left
      have second : (evaluate right : Composition loops _ _).Gradual := gradual_evaluate right
      cases op
      case and => exact ⟨first, fun value => gradual_either second (gaining_pure value)⟩
      case or => exact ⟨first, fun value => gradual_either (gaining_pure value) second⟩
      all_goals exact ⟨first, fun _ => ⟨second, fun _ => gaining_ofAttempt _⟩⟩
  | .unary _ operand _ => ⟨gradual_evaluate operand, fun _ => gaining_ofAttempt _⟩
  | .field object name _ =>
      ⟨gradual_evaluate object, fun object =>
        gaining_of_unwriting (unwriting_onWorld fun _ => unwriting_readField object name)⟩
  | .method object name arguments _ =>
      ⟨gradual_evaluate object, fun object => ⟨gradual_evaluateAll arguments, fun _ =>
        gaining_of_unwriting (unwriting_onWorld fun _ => unwriting_callMethod object name _)⟩⟩
  | .spawn _ arguments _ =>
      ⟨gradual_evaluateAll arguments, fun _ => ⟨fun _ => trivial, fun _ => gaining_pure _⟩⟩
  | .builtin member arguments _ =>
      ⟨gradual_evaluateAll arguments, fun _ =>
        gaining_of_unwriting (unwriting_onWorld fun _ => unwriting_callBuiltin member _)⟩
  | .global function arguments _ =>
      ⟨gradual_evaluateAll arguments, fun values _ => gradual_callGlobal function values⟩
  | .call _ _ _ | .member _ _ _ _ =>
      gaining_of_unwriting (follows_raise Unwriting.composes _)

theorem gradual_evaluateAll : ∀ exprs : List Expr,
    (evaluateAll exprs : Composition loops Activation.world _).Gradual
  | [] => gaining_pure _
  | expr :: rest =>
      ⟨gradual_evaluate expr, fun _ => ⟨gradual_evaluateAll rest, fun _ => gaining_pure _⟩⟩

end

theorem gradual_countRounds (permitted : loops = true) {σ : Type} {view : σ → World}
    {body : Calls → Float → Script σ Unit}
    {round : ∀ counter, Composition loops view fun calls => body calls counter}
    (gradual : ∀ counter, (round counter).Gradual) (bound : Float) :
    ∀ rounds counter, (countRounds permitted round bound rounds counter).Gradual
  | 0, _ => trivial
  | rounds + 1, counter =>
      gradual_either
        ⟨gradual counter, fun _ => gradual_countRounds permitted gradual bound rounds _⟩
        (gaining_pure _)

mutual

theorem gradual_exec : ∀ (stmt : Stmt) (permitted : Permitted loops stmt.loopFree),
    (exec stmt permitted).Gradual
  | .define _ value _, _ => ⟨gradual_evaluate value, fun _ => gaining_changeFrame _⟩
  | .assign target op value _, _ => ⟨gradual_evaluate value, fun value => by
      unfold Gradual
      split
      · exact gaining_writePlace target value
      · apply gaining_bind (unwriting_readPlace target)
        intro current
        apply gaining_bind (unwriting_ofAttempt _)
        intro updated
        exact gaining_writePlace target updated⟩
  | .expr value, _ => ⟨gradual_evaluate value, fun _ => gaining_pure _⟩
  | .choice branches none _, permitted =>
      ⟨gradual_execBranches branches permitted, fun _ => gaining_pure _⟩
  | .choice branches (some otherwise) _, permitted =>
      ⟨gradual_execBranches branches permitted.left, fun _ =>
        gradual_either (gaining_pure _) (gradual_execAll otherwise permitted.right)⟩
  | .loop counter start bound stmts _, permitted => by
      refine ⟨gradual_evaluate start, fun _ => ⟨gaining_ofAttempt _, fun _ =>
        ⟨gradual_evaluate bound, fun _ => ⟨gaining_ofAttempt _, fun _ => ?_⟩⟩⟩⟩
      apply gradual_countRounds
      intro count
      exact ⟨gaining_changeFrame _, fun _ => gradual_execAll stmts (.inl permitted.loop)⟩

theorem gradual_execAll : ∀ (stmts : List Stmt) (permitted : Permitted loops (allLoopFree stmts)),
    (execAll stmts permitted).Gradual
  | [], _ => gaining_pure _
  | stmt :: rest, permitted =>
      ⟨gradual_exec stmt permitted.left, fun _ => gradual_execAll rest permitted.right⟩

theorem gradual_execBranches : ∀ (branches : List (Expr × List Stmt))
    (permitted : Permitted loops (branchesLoopFree branches)),
    (execBranches branches permitted).Gradual
  | [], _ => gaining_pure _
  | (condition, stmts) :: rest, permitted =>
      ⟨gradual_evaluate condition, fun _ => gradual_either
        ⟨gradual_execAll stmts permitted.left, fun _ => gaining_pure _⟩
        (gradual_execBranches rest permitted.right)⟩

end

theorem gradual_runBody (frame : Frame) (stmts : List Stmt)
    (permitted : Permitted loops (allLoopFree stmts)) : (runBody frame stmts permitted).Gradual :=
  gradual_execAll stmts permitted

theorem gradual_declare {ref : EntityRef} {name : String} {value : Value}
    {rest : Calls → Script Activation Unit} {next : Composition loops Activation.world rest}
    (gradual : next.Gradual) : (declare ref name value next).Gradual := by
  refine ⟨fun _ => ⟨?_, fun _ => ?_⟩, fun _ => gradual⟩
  · intro world after ends
    cases ends
    exact world.gains_setField ref.id name value
  · exact gaining_of_unwriting (follows_modify fun _ => .noted rfl ⟨rfl⟩)

theorem gradual_declareProperties (ref : EntityRef) : ∀ initializers : List Initializer,
    (declareProperties ref initializers : Composition loops Activation.world _).Gradual
  | [] => gaining_pure _
  | ⟨_, none⟩ :: rest =>
      ⟨gaining_pure _, fun _ => gradual_declare (gradual_declareProperties ref rest)⟩
  | ⟨_, some expr⟩ :: rest =>
      ⟨gradual_evaluate expr, fun _ => gradual_declare (gradual_declareProperties ref rest)⟩

theorem gradual_setUp (type : EntityType) (ref : EntityRef) (arguments : List Value)
    (permitted : Permitted loops (allLoopFree type.constructor.body)) :
    (setUp type ref arguments permitted).Gradual :=
  ⟨gradual_declareProperties ref type.initializers, fun _ =>
    gradual_execAll type.constructor.body permitted⟩

end Composition

end EntityScript
