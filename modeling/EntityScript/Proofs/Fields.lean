import EntityScript.Proofs.MemberCalls
import EntityScript.Script.Eval
import EntityScript.World.Changes

/-!
The fields of entities, in the order in which they came up.  Of all the changes of a world only
one, writing a field, does anything to them, and it adds at most one name.
-/

namespace EntityScript

open Script

namespace World

/-- The fields of an entity, none if there is no such entity. -/
def fields (world : World) (id : EntityId) : Bindings Value :=
  ((world.entity? id).map (·.fields)).getD .empty

def fieldNames (world : World) (id : EntityId) : List String := (world.fields id).names

theorem field?_eq_get? (world : World) (id : EntityId) (name : String) :
    world.field? id name = (world.fields id).get? name := by
  unfold field? fields
  cases world.entity? id <;> rfl

theorem fields_congr {world after : World} (entities : after.entities = world.entities) :
    after.fields = world.fields := by
  funext id
  simp only [fields, entity?, entities]

section Same

variable {world after : World} (same : after.fields = world.fields)

include same

theorem fieldNames_congr : after.fieldNames = world.fieldNames := by
  funext id
  rw [fieldNames, fieldNames, same]

/-- What can be read from a value depends on the fields alone. -/
theorem readField_congr (target : Value) (name : String) :
    after.readField target name = world.readField target name := by
  cases target with
  | entity ref => rw [readField, readField, field, field, field?_eq_get?, field?_eq_get?, same]
  | _ => rfl

theorem readPath_congr (target : Value) (path : List String) :
    after.readPath target path = world.readPath target path := by
  induction path generalizing target with
  | nil => rfl
  | cons name rest inductionHypothesis =>
      rw [readPath, readPath, readField_congr same]
      congr 1
      funext inner
      exact inductionHypothesis inner

end Same

variable (world : World)

@[simp]
theorem fields_make (type : EntityType) : (world.make type).fields = world.fields := by
  funext id
  simp only [fields, entity?, entities_make, Array.getElem?_push]
  split
  · rename_i last
    subst last
    simp
  · rfl

@[simp]
theorem fields_destroy (ref : EntityRef) : (world.destroy ref).fields = world.fields := by
  funext other
  unfold destroy
  split
  · rfl
  · simp only [fields, entity?, entities_log, Array.getElem?_modify]
    split
    · cases world.entities[other]? <;> rfl
    · rfl

theorem fields_setField (id other : Nat) (name : String) (value : Value) :
    (world.setField id name value).fields other =
      if other = id ∧ id < world.entities.size then (world.fields id).insert name value
      else world.fields other := by
  simp only [fields, entity?, setField, Array.getElem?_modify]
  by_cases same : id = other
  · subst same
    by_cases made : id < world.entities.size
    · simp [made]
    · simp [made]
  · simp [same, Ne.symm same]

end World

/-- No field is written or comes up. -/
structure Unwriting (world : World) (_ : List Event) (after : World) : Prop where
  fields : after.fields = world.fields

namespace Unwriting

theorem composes : History.Composes Unwriting where
  idle := ⟨rfl⟩
  append first rest := ⟨rest.fields.trans first.fields⟩

theorem links_destroy (world : World) (ref : EntityRef) :
    History.Links Unwriting world (world.destroy ref) := by
  by_cases marked : (world.entity? ref.id).all (·.destroyed) = true
  · have same : world.destroy ref = world := by
      rw [World.destroy, if_pos marked]
    rw [same]
    exact .refl composes world
  · have noted : (world.destroy ref).journal =
        world.journal.push (.logged (.destroyed ref)) := by
      rw [World.destroy, if_neg marked]
      rfl
    exact .noted noted ⟨world.fields_destroy ref⟩

end Unwriting

section Leaves

variable {σ α : Type} {view : σ → World}

theorem unwriting_ofAttempt (attempt : Attempt α) :
    Follows view Unwriting (ofAttempt attempt : Script σ α) := by
  cases attempt with
  | ok value => exact follows_pure Unwriting.composes value
  | error error => exact follows_raise Unwriting.composes error

theorem unwriting_callMethod (target : Value) (method : String) (arguments : List Value) :
    Follows id Unwriting (callMethod target method arguments) := by
  apply follows_of_ends Unwriting.composes (callMethod_ends target method arguments)
  rintro world after ⟨ref, rfl⟩
  exact Unwriting.links_destroy world ref

theorem unwriting_callBuiltin (builtin : Builtin) (arguments : List Value) :
    Follows id Unwriting (callBuiltin builtin arguments) := by
  apply follows_of_ends Unwriting.composes (callBuiltin_ends builtin arguments)
  rintro world after ⟨call, _, rfl⟩
  exact .silent rfl ⟨rfl⟩

/-- Of the global functions only `emit` starts calls. -/
theorem unwriting_callGlobal (calls : Calls) {function : Global} (silent : function ≠ .emit)
    (arguments : List Value) : Follows id Unwriting (callGlobal calls function arguments) := by
  have composes := Unwriting.composes
  cases function with
  | emit => exact absurd rfl silent
  | destroy =>
      apply follows_bind composes (unwriting_ofAttempt _)
      intro target
      apply follows_bind composes (unwriting_ofAttempt _)
      intro ref
      refine follows_bind composes (follows_modify fun world => ?_) fun _ =>
        follows_pure composes _
      exact Unwriting.links_destroy world ref
  | print =>
      apply follows_bind composes (unwriting_ofAttempt _)
      intro value
      refine follows_bind composes (follows_modify fun world => ?_) fun _ =>
        follows_pure composes _
      exact .noted rfl ⟨rfl⟩

theorem unwriting_readField (object : Value) (name : String) :
    Follows id Unwriting (do
      let world ← get
      ofAttempt (world.readField object name)) :=
  follows_bind Unwriting.composes (follows_get Unwriting.composes) fun _ => unwriting_ofAttempt _

end Leaves

end EntityScript
