import EntityScript.Proofs.Assignments
import EntityScript.Proofs.Expressions
import EntityScript.Proofs.Loads
import EntityScript.Proofs.Operations
import EntityScript.Proofs.Palettes

/-!
Scripts keep to a palette.  If the world, the frame and the arguments that code runs with have
colors of a palette only, then so have the values that it computes and the frame and the world that
it leaves behind, whether it fails or not.
-/

namespace EntityScript

open Script

variable {palette : Palette}

namespace World

variable {world after : World}

theorem Within.congr (within : world.Within palette) (fields : after.fields = world.fields)
    (canvas : after.canvas = world.canvas) : after.Within palette where
  fields := fields ▸ within.fields
  canvas := canvas ▸ within.canvas

theorem within_initial (closed : palette.Closed) (settings : Settings) (hasKeys : Bool) :
    (World.initial settings hasKeys).Within palette where
  fields id := by simp [World.fields, entity?, World.initial, Bindings.within_empty]
  canvas := Canvas.within_ofSize closed _ _

theorem Within.setField (within : world.Within palette) (id : EntityId) (name : String)
    {value : Value} (good : value.Within palette) :
    (world.setField id name value).Within palette where
  fields other := by
    rw [fields_setField]
    split
    · exact (within.fields id).insert good
    · exact within.fields other
  canvas := within.canvas

theorem Within.destroy (within : world.Within palette) (ref : EntityRef) :
    (world.destroy ref).Within palette := by
  refine within.congr (world.fields_destroy ref) ?_
  unfold World.destroy
  split <;> rfl

theorem Within.make (within : world.Within palette) (type : EntityType) :
    (world.make type).Within palette :=
  within.congr (world.fields_make type) rfl

theorem Within.removeDestroyed (within : world.Within palette) :
    world.removeDestroyed.Within palette := by
  refine within.congr (fields_congr world.entities_removeDestroyed) ?_
  unfold World.removeDestroyed
  dsimp only
  split <;> rfl

theorem Within.install (within : world.Within palette) (program : Program) :
    (world.install program).Within palette := by
  have same := world.silent_install program
  have entities := congrArg entities same
  have canvas := congrArg World.canvas same
  exact within.congr (fields_congr entities) canvas

theorem Within.loadAll (within : world.Within palette) (items : List Provided) :
    (world.loadAll items).1.Within palette := by
  have same := (loadFrom_outcomes items world .empty).1.trans (world.silent_installAll _)
  have entities := congrArg entities same
  have canvas := congrArg World.canvas same
  exact within.congr (fields_congr entities) canvas

theorem Within.load (within : world.Within palette) {loaded : World} {unit : SourceUnit}
    (load : world.load unit = .ok loaded) : loaded.Within palette := by
  unfold World.load at load
  split at load
  · cases load
  · cases load
    exact (within.install _).congr rfl rfl

theorem Within.readField (within : world.Within palette) {target : Value} (name : String) :
    Yields (Value.Within palette) (world.readField target name) := by
  intro value read
  by_cases plain : target.kind ≠ .entity
  · -- Only fields of entities hold colors.
    rcases kind_of_readField plain read with kind | kind <;> cases value <;> cases kind <;> trivial
  · cases target with
    | entity ref =>
        have found := field?_of_readField read
        rw [field?_eq_get?] at found
        exact (within.fields ref.id).get? found
    | _ => exact absurd (by simp [Value.kind]) plain

theorem Within.readPath (within : world.Within palette) {target : Value}
    (good : target.Within palette) (path : List String) :
    Yields (Value.Within palette) (world.readPath target path) := by
  induction path generalizing target with
  | nil => exact yields_ok.mpr good
  | cons name rest inductionHypothesis =>
      exact (within.readField name).bind fun _ => inductionHypothesis

end World

section Writes

variable (closed : palette.Closed) {value : Value}

include closed

theorem Color.yields_withComponent (color : Color) (name : String) (value : Value) :
    Yields palette (color.withComponent name value) := by
  unfold withComponent
  rw [yields_bind]
  intro number _
  dsimp only
  split <;> simp [closed.ofChannels, closed.withAlpha]

theorem upholds_writeField (target : Value) (good : value.Within palette) (name : String) :
    Upholds (World.Within palette) (Value.Within palette) (writeField target name value) := by
  unfold writeField
  split
  · apply upholds_bind (upholds_modify fun world within => within.setField _ name good)
    exact fun _ _ => upholds_pure trivial
  · rw [← bind_pure_comp]
    apply upholds_bind (upholds_ofAttempt (Q := fun _ => True) fun _ _ => trivial)
    exact fun _ _ => upholds_pure trivial
  · rw [← bind_pure_comp]
    apply upholds_bind (upholds_ofAttempt (Color.yields_withComponent closed _ name value))
    exact fun _ fits => upholds_pure fits
  · exact upholds_raise

theorem upholds_writePath (target : Value) (good : value.Within palette) (path : List String) :
    Upholds (World.Within palette) (Value.Within palette) (writePath target path value) := by
  fun_induction writePath target path value with
  | case1 => exact upholds_pure good
  | case2 target name => exact upholds_writeField closed target good name
  | case3 target name rest _ inductionHypothesis =>
      apply upholds_bind upholds_get
      intro world within
      apply upholds_bind (upholds_ofAttempt (within.readField name))
      intro inner _
      apply upholds_bind (inductionHypothesis inner)
      intro updated fits
      exact upholds_writeField closed target fits name

end Writes

/-- What calls start keeps to the palette if what it is started with does. -/
structure Calls.Uphold (palette : Palette) (calls : Calls) : Prop where
  spawn (typeName : String) {arguments : List Value}
    (good : ∀ value ∈ arguments, value.Within palette) :
    Upholds (World.Within palette) (fun _ => True) (calls.spawn typeName arguments)
  emit (event : String) {payload : Value} (good : payload.Within palette) :
    Upholds (World.Within palette) (fun _ => True) (calls.emit event payload)

section Members

variable {arguments : List Value}

theorem upholds_callBuiltin (closed : palette.Closed)
    (good : ∀ value ∈ arguments, value.Within palette) (builtin : Builtin) :
    Upholds (World.Within palette) (Value.Within palette) (callBuiltin builtin arguments) := by
  refine upholds_of_ends (callBuiltin_ends builtin arguments) (fun value => ?_) ?_ trivial
  · exact Builtin.Answers.within (fun _ _ => closed.ofHex) fun _ _ _ _ _ _ => closed.ofChannels ..
  · rintro world after within ⟨call, given, rfl⟩
    refine ⟨within.fields, ?_⟩
    exact Canvas.Call.within_perform closed within.canvas (Canvas.Call.within_of_from good given)

theorem upholds_callMethod (closed : palette.Closed) (target : Value) (method : String)
    (arguments : List Value) :
    Upholds (World.Within palette) (Value.Within palette) (callMethod target method arguments) := by
  refine upholds_of_ends (callMethod_ends target method arguments) (fun value => ?_) ?_ trivial
  · exact MethodAnswers.within fun _ _ _ _ => closed.withAlpha _
  · rintro world after within ⟨ref, rfl⟩
    exact within.destroy ref

theorem upholds_callGlobal {calls : Calls} (nested : calls.Uphold palette)
    (good : ∀ value ∈ arguments, value.Within palette) (function : Global) :
    Upholds (World.Within palette) (Value.Within palette)
      (callGlobal calls function arguments) := by
  have anything {α : Type} {attempt : Attempt α} :
      Upholds (World.Within palette) (fun _ => True) (ofAttempt attempt) :=
    upholds_ofAttempt fun _ _ => trivial
  cases function with
  | emit =>
      apply upholds_bind anything
      intro event _
      apply upholds_bind (nested.emit event (Value.within_getD good 1))
      exact fun _ _ => upholds_pure trivial
  | destroy =>
      apply upholds_bind anything
      intro target _
      apply upholds_bind anything
      intro ref _
      apply upholds_bind (upholds_modify fun world within => within.destroy ref)
      exact fun _ _ => upholds_pure trivial
  | print =>
      apply upholds_bind anything
      intro value _
      apply upholds_bind (upholds_modify fun world within => within.congr rfl rfl)
      exact fun _ _ => upholds_pure trivial

end Members

section Code

variable {calls : Calls} {frame : Frame}

mutual

theorem upholds_eval (closed : palette.Closed) (nested : calls.Uphold palette)
    (within : frame.Within palette) : (expr : Expr) →
    Upholds (World.Within palette) (Value.Within palette) (eval calls frame expr)
  | .number _ _ | .text _ _ | .bool _ _ | .unset _ => upholds_pure trivial
  | .this _ => upholds_ofAttempt frame.yields_this
  | .ident name _ => upholds_ofAttempt (within.lookup name)
  | .binary op left right _ => by
      have first := upholds_eval closed nested within left
      have second := upholds_eval closed nested within right
      cases op
      case and =>
        apply upholds_bind first
        intro value fits
        split
        · exact second
        · exact upholds_pure fits
      case or =>
        apply upholds_bind first
        intro value fits
        split
        · exact upholds_pure fits
        · exact second
      all_goals
        exact upholds_bind first fun left fits => upholds_bind second fun right fitsToo =>
          upholds_ofAttempt (Value.yields_binary fits fitsToo _)
  | .unary op operand _ =>
      upholds_bind (upholds_eval closed nested within operand) fun value _ =>
        upholds_ofAttempt (value.yields_unary op)
  | .field object name _ =>
      upholds_bind (upholds_eval closed nested within object) fun _ _ =>
        upholds_bind upholds_get fun _ here => upholds_ofAttempt (here.readField name)
  | .method object name arguments _ =>
      upholds_bind (upholds_eval closed nested within object) fun target _ =>
        upholds_bind (upholds_evalAll closed nested within arguments) fun values _ =>
          upholds_callMethod closed target name values
  | .spawn type arguments _ =>
      upholds_bind (upholds_evalAll closed nested within arguments) fun _ fit =>
        upholds_bind (nested.spawn type fit) fun _ _ => upholds_pure trivial
  | .builtin member arguments _ =>
      upholds_bind (upholds_evalAll closed nested within arguments) fun _ fit =>
        upholds_callBuiltin closed fit member
  | .global function arguments _ =>
      upholds_bind (upholds_evalAll closed nested within arguments) fun _ fit =>
        upholds_callGlobal nested fit function
  | .call _ _ _ | .member _ _ _ _ => upholds_raise

theorem upholds_evalAll (closed : palette.Closed) (nested : calls.Uphold palette)
    (within : frame.Within palette) : (exprs : List Expr) →
    Upholds (World.Within palette) (fun values => ∀ value ∈ values, value.Within palette)
      (evalAll calls frame exprs)
  | [] => upholds_pure nofun
  | expr :: rest =>
      upholds_bind (upholds_eval closed nested within expr) fun _ fits =>
        upholds_bind (upholds_evalAll closed nested within rest) fun _ fit =>
          upholds_pure (List.forall_mem_cons.mpr ⟨fits, fit⟩)

end

section Activations

variable {α : Type} {Q : α → Prop}

theorem upholds_onWorld {script : Frame → Script World α}
    (upholds : ∀ frame : Frame, frame.Within palette →
      Upholds (World.Within palette) Q (script frame)) :
    Upholds (Activation.Within palette) Q (onWorld script) := by
  rintro ⟨frame, world⟩ ⟨names, within⟩
  have upheld := upholds frame names world within
  unfold onWorld
  dsimp only
  cases ran : script frame world with
  | returned value middle =>
      rw [ran] at upheld
      exact ⟨⟨names, upheld.1⟩, upheld.2⟩
  | raised error middle =>
      rw [ran] at upheld
      exact ⟨names, upheld⟩
  | endless => trivial

theorem upholds_changeFrame {change : Frame → Frame}
    (keeps : ∀ frame : Frame, frame.Within palette → (change frame).Within palette) :
    Upholds (Activation.Within palette) (fun _ => True) (changeFrame change) :=
  upholds_modify fun activation within => ⟨keeps activation.frame within.frame, within.world⟩

theorem upholds_withScope {script : Script Activation α}
    (upholds : Upholds (Activation.Within palette) Q script) :
    Upholds (Activation.Within palette) Q (withScope script) :=
  upholds_bind (upholds_changeFrame fun _ names => names.push) fun _ _ =>
    upholds_andThen upholds fun _ _ within => ⟨within.frame.pop, within.world⟩

end Activations

theorem upholds_readPlace (place : Place) :
    Upholds (Activation.Within palette) (Value.Within palette) (readPlace place) := by
  apply upholds_onWorld
  intro frame names
  apply upholds_bind (upholds_ofAttempt (names.root place.root))
  intro root fits
  apply upholds_bind upholds_get
  intro world within
  exact upholds_ofAttempt (within.readPath fits place.fields)

theorem upholds_writePlace (closed : palette.Closed) (place : Place) {value : Value}
    (good : value.Within palette) :
    Upholds (Activation.Within palette) (fun _ => True) (writePlace place value) := by
  unfold writePlace
  split
  · exact upholds_raise
  · apply upholds_bind (upholds_onWorld fun frame names => upholds_ofAttempt (names.lookup _))
    exact fun _ _ => upholds_changeFrame fun _ names => names.assign _ good
  · apply upholds_bind (P := Value.Within palette)
    · apply upholds_onWorld
      intro frame names
      apply upholds_bind (upholds_ofAttempt (names.root _))
      exact fun target _ => upholds_writePath closed target good _
    · intro updated fits
      split
      · exact upholds_changeFrame fun _ names => names.assign _ fits
      · exact upholds_pure trivial

theorem upholds_countRounds {σ : Type} {I : σ → Prop} {body : Float → Script σ Unit} {bound : Float}
    (round : ∀ counter, Upholds I (fun _ => True) (body counter)) (rounds : Nat) (counter : Float) :
    Upholds I (fun _ => True) (countRounds body bound rounds counter) := by
  induction rounds generalizing counter with
  | zero => exact upholds_endless
  | succ rounds inductionHypothesis =>
      unfold countRounds
      split
      · exact upholds_bind (round counter) fun _ _ => inductionHypothesis (counter + 1)
      · exact upholds_pure trivial

theorem upholds_evaluate (closed : palette.Closed) (nested : calls.Uphold palette) (expr : Expr) :
    Upholds (Activation.Within palette) (Value.Within palette) (evaluate calls expr) := by
  rw [evaluate_eq]
  exact upholds_onWorld fun _ names => upholds_eval closed nested names expr

mutual

theorem upholds_exec (closed : palette.Closed) (nested : calls.Uphold palette) : (stmt : Stmt) →
    Upholds (Activation.Within palette) (fun _ => True) (exec calls stmt)
  | .define name value _ =>
      upholds_bind (upholds_evaluate closed nested value) fun _ fits =>
        upholds_changeFrame fun _ names => names.define name fits
  | .assign target op value _ =>
      upholds_bind (upholds_evaluate closed nested value) fun value fits => by
        split
        · exact upholds_writePlace closed target fits
        next operator _ =>
          apply upholds_bind (upholds_readPlace target)
          intro current fitsToo
          apply upholds_bind (upholds_ofAttempt (Value.yields_binary fitsToo fits operator))
          intro updated good
          exact upholds_writePlace closed target good
  | .expr value =>
      upholds_bind (upholds_evaluate closed nested value) fun _ _ => upholds_pure trivial
  | .choice branches none _ =>
      upholds_bind (upholds_execBranches closed nested branches) fun _ _ => upholds_pure trivial
  | .choice branches (some otherwise) _ =>
      upholds_bind (upholds_execBranches closed nested branches) fun taken _ => by
        split
        · exact upholds_pure trivial
        · exact upholds_withScope (upholds_execAll closed nested otherwise)
  | .loop counter start bound body _ => by
      have anything {attempt : Attempt Float} :
          Upholds (Activation.Within palette) (fun _ => True) (ofAttempt attempt) :=
        upholds_ofAttempt fun _ _ => trivial
      have round (count : Float) : Upholds (Activation.Within palette) (fun _ => True)
          (withScope do
            changeFrame (·.define counter (.number count))
            withScope (execAll calls body)) :=
        upholds_withScope <| upholds_bind
          (upholds_changeFrame fun _ names => names.define counter trivial) fun _ _ =>
            upholds_withScope (upholds_execAll closed nested body)
      apply upholds_bind (upholds_evaluate closed nested start)
      intro _ _
      apply upholds_bind anything
      intro first _
      apply upholds_bind (upholds_evaluate closed nested bound)
      intro _ _
      apply upholds_bind anything
      intro last _
      exact upholds_countRounds round maxRounds first

theorem upholds_execAll (closed : palette.Closed) (nested : calls.Uphold palette) :
    (stmts : List Stmt) →
    Upholds (Activation.Within palette) (fun _ => True) (execAll calls stmts)
  | [] => upholds_pure trivial
  | stmt :: rest =>
      upholds_bind (upholds_exec closed nested stmt) fun _ _ =>
        upholds_execAll closed nested rest

theorem upholds_execBranches (closed : palette.Closed) (nested : calls.Uphold palette) :
    (branches : List (Expr × List Stmt)) →
    Upholds (Activation.Within palette) (fun _ => True) (execBranches calls branches)
  | [] => upholds_pure trivial
  | (condition, body) :: rest =>
      upholds_bind (upholds_evaluate closed nested condition) fun value _ => by
        split
        · apply upholds_bind (upholds_withScope (upholds_execAll closed nested body))
          exact fun _ _ => upholds_pure trivial
        · exact upholds_execBranches closed nested rest

end

theorem upholds_runBody (closed : palette.Closed) (nested : calls.Uphold palette)
    (names : frame.Within palette) (body : List Stmt) :
    Upholds (World.Within palette) (fun _ => True) (runBody calls frame body) := by
  intro world within
  have block := upholds_withScope (upholds_execAll closed nested body)
  have upheld := block ⟨frame, world⟩ ⟨names, within⟩
  unfold runBody inFrame execBlock
  cases ran : withScope (execAll calls body) ⟨frame, world⟩ with
  | returned value last =>
      rw [ran] at upheld
      exact ⟨upheld.1.world, trivial⟩
  | raised error last =>
      rw [ran] at upheld
      exact upheld.world
  | endless => trivial

end Code

end EntityScript
