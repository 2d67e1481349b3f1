import EntityScript.Proofs.MemberCalls
import EntityScript.Script.Eval
import EntityScript.World.Changes

/-!
What evaluation does by itself, when it starts no calls, is little: it writes fields, paints,
prints and marks entities for removal.  It always ends, and when it fails it does so with an
error of its own, which is neither a refused call nor the failure of another entity.
-/

namespace EntityScript

open Script

/-- The error is not about calls. -/
def ScriptError.Plain : ScriptError → Prop
  | recursionLimit _ | inEntity .. => False
  | _ => True

def FailsPlainly {α : Type} (attempt : Attempt α) : Prop :=
  ∀ error, attempt = .error error → error.Plain

theorem ScriptError.OfKinds.plain {error : ScriptError} (kinds : error.OfKinds) : error.Plain := by
  cases error <;> trivial

/-! ### Attempts -/

section Attempts

variable {α β : Type}

@[simp]
theorem failsPlainly_ok (value : α) : FailsPlainly (.ok value) := nofun

@[simp]
theorem failsPlainly_pure (value : α) : FailsPlainly (pure value : Attempt α) := nofun

@[simp]
theorem failsPlainly_error (error : ScriptError) :
    FailsPlainly (.error error : Attempt α) ↔ error.Plain := by
  simp [FailsPlainly]

@[simp]
theorem failsPlainly_bind (attempt : Attempt α) (next : α → Attempt β) :
    FailsPlainly (attempt >>= next) ↔
      FailsPlainly attempt ∧ ∀ value, attempt = .ok value → FailsPlainly (next value) := by
  cases attempt <;> simp [FailsPlainly, bind, Except.bind]

@[simp]
theorem failsPlainly_map (attempt : Attempt α) (f : α → β) :
    FailsPlainly (f <$> attempt) ↔ FailsPlainly attempt := by
  cases attempt <;> simp [FailsPlainly, Functor.map, Except.map]

section Values

variable (value : Value)

@[simp]
theorem Value.mismatch_failsPlainly (wanted : Kind) :
    FailsPlainly (value.mismatch wanted : Attempt α) := by
  simp [mismatch, ScriptError.Plain]

@[simp]
theorem Value.asNumber_failsPlainly : FailsPlainly value.asNumber := by
  cases value <;> simp [asNumber, ScriptError.Plain]

@[simp]
theorem Value.asVector_failsPlainly : FailsPlainly value.asVector := by
  cases value <;> simp [asVector]

@[simp]
theorem Value.asColor_failsPlainly : FailsPlainly value.asColor := by
  cases value <;> simp [asColor]

@[simp]
theorem Value.asText_failsPlainly : FailsPlainly value.asText := by
  cases value <;> simp [asText]

@[simp]
theorem Value.asImage_failsPlainly : FailsPlainly value.asImage := by
  cases value <;> simp [asImage]

@[simp]
theorem Value.asEntity_failsPlainly : FailsPlainly value.asEntity := by
  cases value <;> simp [asEntity]

theorem Value.unary_failsPlainly (op : UnaryOp) : FailsPlainly (Value.unary op value) := by
  cases op <;> cases value <;> simp [Value.unary, ScriptError.Plain]

theorem Value.binary_failsPlainly (op : BinaryOp) (left right : Value) :
    FailsPlainly (Value.binary op left right) := by
  unfold Value.binary
  split
  all_goals try exact failsPlainly_ok _
  split
  · simp [ScriptError.Plain]
  · split <;> simp [ScriptError.Plain]

end Values

section Arguments

variable (function : String) (arguments : List Value)

@[simp]
theorem argument_failsPlainly (position : Nat) :
    FailsPlainly (argument function arguments position) := by
  unfold argument
  split <;> simp [ScriptError.Plain]

@[simp]
theorem numberArgument_failsPlainly (position : Nat) :
    FailsPlainly (numberArgument function arguments position) := by
  simp [numberArgument]

@[simp]
theorem vectorArgument_failsPlainly (position : Nat) :
    FailsPlainly (vectorArgument function arguments position) := by
  simp [vectorArgument]

@[simp]
theorem colorArgument_failsPlainly (position : Nat) :
    FailsPlainly (colorArgument function arguments position) := by
  simp [colorArgument]

@[simp]
theorem textArgument_failsPlainly (position : Nat) :
    FailsPlainly (textArgument function arguments position) := by
  simp [textArgument]

@[simp]
theorem requireCount_failsPlainly (count : Nat) :
    FailsPlainly (requireCount function arguments count) := by
  unfold requireCount
  split <;> simp [ScriptError.Plain]

end Arguments

section Fields

variable (world : World) (name : String)

@[simp]
theorem World.image_failsPlainly : FailsPlainly (world.image name) := by
  unfold World.image
  split <;> simp [ScriptError.Plain]

@[simp]
theorem World.readField_failsPlainly (target : Value) :
    FailsPlainly (world.readField target name) := by
  cases target with
  | entity ref =>
      unfold World.readField World.field
      dsimp only
      split <;> simp [ScriptError.Plain]
  | vector vector =>
      unfold World.readField Vector.component
      dsimp only
      split <;> simp [ScriptError.Plain]
  | color color =>
      unfold World.readField Color.component
      dsimp only
      split <;> simp [ScriptError.Plain]
  | image image =>
      unfold World.readField Image.component
      dsimp only
      split <;> simp [ScriptError.Plain]
  | text content =>
      unfold World.readField
      dsimp only
      split <;> simp [ScriptError.Plain]
  | unset | bool _ | number _ => simp [World.readField, ScriptError.Plain]

theorem World.readPath_failsPlainly (target : Value) (path : List String) :
    FailsPlainly (world.readPath target path) := by
  induction path generalizing target with
  | nil => exact failsPlainly_ok _
  | cons name rest inductionHypothesis => simp [World.readPath, inductionHypothesis]

@[simp]
theorem Vector.withComponent_failsPlainly (vector : Vector) (value : Value) :
    FailsPlainly (vector.withComponent name value) := by
  unfold Vector.withComponent
  split <;> simp [ScriptError.Plain]

@[simp]
theorem Color.withComponent_failsPlainly (color : Color) (value : Value) :
    FailsPlainly (color.withComponent name value) := by
  unfold Color.withComponent
  simp only [failsPlainly_bind, Value.asNumber_failsPlainly, true_and]
  intro number _
  split <;> simp [ScriptError.Plain]

theorem Frame.this_failsPlainly (frame : Frame) : FailsPlainly frame.this := by
  unfold Frame.this
  split <;> simp [ScriptError.Plain]

theorem Frame.lookup_failsPlainly (frame : Frame) : FailsPlainly (frame.lookup name) := by
  unfold Frame.lookup
  split <;> simp [ScriptError.Plain]

theorem Frame.root_failsPlainly (frame : Frame) (root : PlaceRoot) :
    FailsPlainly (frame.root root) := by
  cases root with
  | ident name => exact frame.lookup_failsPlainly name
  | this => exact frame.this_failsPlainly

end Fields

end Attempts

/-! ### Simple computations -/

namespace History

/-- The history covers each change that evaluation makes by itself, and what it notes of a
declared property. -/
structure CoversEvaluation (R : History) : Prop extends Composes R where
  wrote {world id name value} : R world [] (world.setField id name value)
  painted {world : World} {canvas} : R world [] { world with canvas }
  printed {world text} : R world [.logged (.print text)] (world.log (.print text))
  destroyed {world : World} {ref entity} :
    world.entity? ref.id = some entity → entity.destroyed = false →
      R world [.logged (.destroyed ref)] (world.destroy ref)
  declared {world ref name} : R world [.declared ref name] (world.note (.declared ref name))

/-- Marking an entity is noted the first time, and after that does nothing. -/
theorem CoversEvaluation.destroy {R : History} (covers : R.CoversEvaluation) (world : World)
    (ref : EntityRef) : R.Links world (world.destroy ref) := by
  by_cases unmarked : ∃ entity, world.entity? ref.id = some entity ∧ entity.destroyed = false
  · obtain ⟨entity, found, unmarked⟩ := unmarked
    exact .noted (world.journal_destroy ref found unmarked) (covers.destroyed found unmarked)
  · have same : world.destroy ref = world := by
      apply world.destroy_eq_self ref
      intro entity found
      cases marked : entity.destroyed with
      | true => rfl
      | false => exact absurd ⟨entity, found, marked⟩ unmarked
    rw [same]
    exact .refl covers.toComposes world

end History

/-- The changes that evaluation makes by itself, those that set up an entity included, and no
others. -/
inductive Slight : History where
  | idle {world} : Slight world [] world
  | append {first second third events more} :
      Slight first events second → Slight second more third →
      Slight first (events ++ more) third
  | wrote {world id name value} : Slight world [] (world.setField id name value)
  | painted {world canvas} : Slight world [] { world with canvas }
  | printed {world text} : Slight world [.logged (.print text)] (world.log (.print text))
  | destroyed {world ref entity} :
      world.entity? ref.id = some entity → entity.destroyed = false →
      Slight world [.logged (.destroyed ref)] (world.destroy ref)
  | declared {world ref name} :
      Slight world [.declared ref name] (world.note (.declared ref name))

theorem Slight.covers : History.CoversEvaluation Slight where
  idle := .idle
  append := .append
  wrote := .wrote
  painted := .painted
  printed := .printed
  destroyed := .destroyed
  declared := .declared

theorem Slight.covered {R : History} (covers : R.CoversEvaluation) {world after : World}
    {events : List Event} (slight : Slight world events after) : R world events after := by
  induction slight with
  | idle => exact covers.idle
  | append _ _ first rest => exact covers.append first rest
  | wrote => exact covers.wrote
  | painted => exact covers.painted
  | printed => exact covers.printed
  | destroyed found unmarked => exact covers.destroyed found unmarked
  | declared => exact covers.declared

/-- A computation that starts no calls. -/
structure Simple {σ α : Type} (view : σ → World) (script : Script σ α) : Prop where
  follows : Follows view Slight script
  ends (state : σ) : script state ≠ .endless
  plain {state after : σ} {error : ScriptError} :
    script state = .raised error after → error.Plain

section Simple

variable {σ α β : Type} {view : σ → World}

theorem simple_pure (value : α) : Simple view (pure value : Script σ α) where
  follows := follows_pure Slight.covers.toComposes value
  ends := nofun
  plain := nofun

theorem simple_raise {error : ScriptError} (plain : error.Plain) :
    Simple view (raise error : Script σ α) where
  follows := follows_raise Slight.covers.toComposes error
  ends := nofun
  plain raised := by
    cases raised
    exact plain

theorem simple_get : Simple view (get : Script σ σ) where
  follows := follows_get Slight.covers.toComposes
  ends := nofun
  plain := nofun

theorem simple_modify {change : σ → σ}
    (links : ∀ state, History.Links Slight (view state) (view (change state))) :
    Simple view (modify change) where
  follows := follows_modify links
  ends := nofun
  plain := nofun

theorem simple_ofAttempt {attempt : Attempt α} (plainly : FailsPlainly attempt) :
    Simple view (ofAttempt attempt : Script σ α) := by
  cases attempt with
  | ok value => exact simple_pure value
  | error error => exact simple_raise (plainly error rfl)

theorem simple_bind {script : Script σ α} {next : α → Script σ β} (first : Simple view script)
    (rest : ∀ value, Simple view (next value)) : Simple view (script >>= next) where
  follows := follows_bind Slight.covers.toComposes first.follows fun value => (rest value).follows
  ends state := by
    rw [bind_eq]
    cases ran : script state with
    | returned value middle => exact (rest value).ends middle
    | raised error middle => simp
    | endless => exact absurd ran (first.ends state)
  plain {state after error} raised := by
    rcases raised_bind raised with ⟨value, middle, _, failed⟩ | failed
    · exact (rest value).plain failed
    · exact first.plain failed

theorem simple_onWorld {script : Frame → Script World α}
    (simple : ∀ frame, Simple id (script frame)) : Simple Activation.world (onWorld script) where
  follows := by
    rintro ⟨frame, world⟩ after ends
    cases ran : script frame world with
    | returned value later =>
        simp only [onWorld, ran, Outcome.state?, Option.some.injEq] at ends
        subst ends
        exact (simple frame).follows world later (by rw [ran]; rfl)
    | raised error later =>
        simp only [onWorld, ran, Outcome.state?, Option.some.injEq] at ends
        subst ends
        exact (simple frame).follows world later (by rw [ran]; rfl)
    | endless => exact absurd ran ((simple frame).ends world)
  ends := by
    rintro ⟨frame, world⟩
    cases ran : script frame world with
    | returned value later => simp [onWorld, ran]
    | raised error later => simp [onWorld, ran]
    | endless => exact absurd ran ((simple frame).ends world)
  plain := by
    rintro ⟨frame, world⟩ after error raised
    cases ran : script frame world with
    | returned value later => simp [onWorld, ran] at raised
    | raised other later =>
        simp only [onWorld, ran, Outcome.raised.injEq] at raised
        exact (simple frame).plain (ran.trans (by rw [raised.1]))
    | endless => exact absurd ran ((simple frame).ends world)

theorem simple_changeFrame (change : Frame → Frame) :
    Simple Activation.world (changeFrame change) :=
  simple_modify fun activation => .refl Slight.covers.toComposes activation.world

theorem simple_of_ends {refuses : ScriptError → Prop} {answers : Value → Prop}
    {changes : World → World → Prop} {script : Script World Value}
    (ends : ∀ world, CallEnds refuses answers changes world (script world))
    (plain : ∀ error, refuses error → error.Plain)
    (links : ∀ world after, changes world after → History.Links Slight world after) :
    Simple id script where
  follows := follows_of_ends Slight.covers.toComposes ends links
  ends world endless := by
    have ending := ends world
    rw [endless] at ending
    cases ending
  plain {world after error} raised := plain error ((ends world).refuses_of_raised raised)

theorem simple_destroy (ref : EntityRef) : Simple id (modify fun world => world.destroy ref) :=
  simple_modify fun world => Slight.covers.destroy world ref

end Simple

/-! ### What evaluation does without calls -/

theorem Builtin.Refuses.plain {builtin : Builtin} {arguments : List Value} {error : ScriptError}
    (refuses : builtin.Refuses arguments error) : error.Plain := by
  cases refuses with
  | mistaken kinds => exact kinds.plain
  | missing | colorless | imageless => trivial

theorem MethodRefuses.plain {error : ScriptError} (refuses : MethodRefuses error) :
    error.Plain := by
  cases refuses with
  | mistaken kinds => exact kinds.plain
  | count | unknown => trivial

theorem callMethod_simple (target : Value) (method : String) (arguments : List Value) :
    Simple id (callMethod target method arguments) := by
  apply simple_of_ends (callMethod_ends target method arguments) fun _ => MethodRefuses.plain
  rintro world after ⟨ref, rfl⟩
  exact Slight.covers.destroy world ref

theorem callBuiltin_simple (builtin : Builtin) (arguments : List Value) :
    Simple id (callBuiltin builtin arguments) := by
  apply simple_of_ends (callBuiltin_ends builtin arguments) fun _ => Builtin.Refuses.plain
  rintro world after ⟨call, _, rfl⟩
  exact .silent rfl .painted

theorem writeField_simple (target : Value) (name : String) (value : Value) :
    Simple id (writeField target name value) := by
  cases target with
  | entity ref =>
      refine simple_bind (simple_modify fun world => ?_) fun _ => simple_pure _
      exact .silent rfl .wrote
  | vector vector =>
      exact simple_bind (simple_ofAttempt (vector.withComponent_failsPlainly _ _)) fun _ =>
        simple_pure _
  | color color =>
      exact simple_bind (simple_ofAttempt (color.withComponent_failsPlainly _ _)) fun _ =>
        simple_pure _
  | unset | bool _ | number _ | text _ | image _ => exact simple_raise trivial

theorem writePath_simple (target : Value) (path : List String) (value : Value) :
    Simple id (writePath target path value) := by
  fun_induction writePath target path value with
  | case1 => exact simple_pure _
  | case2 => exact writeField_simple _ _ _
  | case3 target name rest _ inductionHypothesis =>
      apply simple_bind simple_get
      intro world
      apply simple_bind (simple_ofAttempt (world.readField_failsPlainly _ _))
      intro inner
      apply simple_bind (inductionHypothesis inner)
      intro updated
      exact writeField_simple _ _ _

theorem readPlace_simple (place : Place) : Simple Activation.world (readPlace place) := by
  apply simple_onWorld
  intro frame
  apply simple_bind (simple_ofAttempt (frame.root_failsPlainly _))
  intro root
  apply simple_bind simple_get
  intro world
  exact simple_ofAttempt (world.readPath_failsPlainly _ _)

theorem writePlace_simple (place : Place) (value : Value) :
    Simple Activation.world (writePlace place value) := by
  unfold writePlace
  split
  · exact simple_raise trivial
  · apply simple_bind (simple_onWorld fun frame => simple_ofAttempt (frame.lookup_failsPlainly _))
    intro _
    exact simple_changeFrame _
  · apply simple_bind (simple_onWorld fun frame => ?_)
    · intro updated
      split
      · exact simple_changeFrame _
      · exact simple_pure _
    · apply simple_bind (simple_ofAttempt (frame.root_failsPlainly _))
      intro target
      exact writePath_simple target _ value

end EntityScript
