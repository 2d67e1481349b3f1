import EntityScript.Proofs.Operations

/-!
Declared properties.  A field that an entity has is never taken from it, so when the initializers
have run the entity has all its declared properties, and has them from then on.
-/

namespace EntityScript

open Script

namespace World

def HasField (world : World) (id : EntityId) (name : String) : Prop :=
  (world.field? id name).isSome

variable {world after : World} {id : Nat} {name : String}

theorem hasField_iff : world.HasField id name ↔
    ∃ entity, world.entity? id = some entity ∧ (entity.fields.get? name).isSome := by
  unfold HasField field?
  cases world.entity? id <;> simp

theorem hasField_congr (entities : after.entities = world.entities)
    (has : world.HasField id name) : after.HasField id name := by
  rw [hasField_iff, entity?, entities]
  exact hasField_iff.mp has

theorem hasField_make (type : EntityType) (has : world.HasField id name) :
    (world.make type).HasField id name := by
  obtain ⟨entity, found, field⟩ := hasField_iff.mp has
  obtain ⟨made, _⟩ := Array.getElem?_eq_some_iff.mp found
  refine hasField_iff.mpr ⟨entity, ?_, field⟩
  rw [entity?, entities_make, Array.getElem?_push, if_neg (Nat.ne_of_lt made)]
  exact found

theorem hasField_modify {other : Nat} {change : Entity → Entity}
    (entities : after.entities = world.entities.modify other change)
    (keeps : ∀ entity, (entity.fields.get? name).isSome →
      ((change entity).fields.get? name).isSome)
    (has : world.HasField id name) : after.HasField id name := by
  obtain ⟨entity, found, field⟩ := hasField_iff.mp has
  unfold entity? at found
  rw [hasField_iff, entity?, entities, Array.getElem?_modify, found]
  split
  · exact ⟨change entity, rfl, keeps entity field⟩
  · exact ⟨entity, rfl, field⟩

theorem hasField_setField (other : Nat) (set : String) (value : Value)
    (has : world.HasField id name) :
    (world.setField other set value).HasField id name := by
  have entities : (world.setField other set value).entities =
      world.entities.modify other fun entity =>
        { entity with fields := entity.fields.insert set value } := rfl
  refine hasField_modify entities (fun entity field => ?_) has
  rw [Bindings.get?_insert]
  split
  · rfl
  · exact field

theorem hasField_destroy (ref : EntityRef) {entity : Entity}
    (found : world.entity? ref.id = some entity) (unmarked : entity.destroyed = false)
    (has : world.HasField id name) : (world.destroy ref).HasField id name := by
  have entities : (world.destroy ref).entities =
      world.entities.modify ref.id fun entity => { entity with destroyed := true } := by
    rw [world.destroy_eq ref found unmarked]
    rfl
  exact hasField_modify entities (fun _ field => field) has

theorem hasField_setField_self (value : Value) (made : id < world.entities.size) :
    (world.setField id name value).HasField id name := by
  have found : world.entity? id = some world.entities[id] := Array.getElem?_eq_getElem made
  unfold entity? at found
  rw [hasField_iff, entity?, setField, Array.getElem?_modify, if_pos rfl, found]
  exact ⟨_, rfl, by rw [Bindings.get?_insert, if_pos rfl]; rfl⟩

end World

/-- Entities keep their types and the fields that they have. -/
structure Retains (world after : World) : Prop where
  size : world.entities.size ≤ after.entities.size
  types {id type} : world.type? id = some type → after.type? id = some type
  fields {id name} : world.HasField id name → after.HasField id name

namespace Retains

variable {world after : World}

theorem of_entities (entities : after.entities = world.entities) : Retains world after where
  size := Nat.le_of_eq (by rw [entities])
  types found := by rwa [World.type?_congr entities]
  fields := World.hasField_congr entities

theorem trans {first second third : World} (before : Retains first second)
    (rest : Retains second third) : Retains first third where
  size := Nat.le_trans before.size rest.size
  types found := rest.types (before.types found)
  fields has := rest.fields (before.fields has)

theorem make (world : World) (type : EntityType) : Retains world (world.make type) where
  size := by
    rw [World.entities_make, Array.size_push]
    exact Nat.le_succ _
  types found := World.type?_make _ _ found
  fields has := World.hasField_make type has

/-- An activity by itself changes no entity. -/
theorem activity {activity : Activity} (inside : Retains (world.enter activity) after)
    (succeeded : Bool) : Retains world (after.leave activity succeeded) := by
  have entered : Retains world (world.enter activity) := .of_entities rfl
  exact (entered.trans inside).trans (.of_entities rfl)

end Retains

/-- While scripts run, entities stay registered and retain what they have. -/
structure Retaining (world : World) (_ : List Event) (after : World) : Prop extends
    Retains world after where
  registered {id} : id ∈ world.registry → id ∈ after.registry

namespace Retaining

variable {world after : World} {events : List Event}

theorem of_same (registry : after.registry = world.registry)
    (entities : after.entities = world.entities) : Retaining world events after where
  toRetains := .of_entities entities
  registered here := by rwa [registry]

theorem append {second third : World} {more : List Event}
    (first : Retaining world events second) (rest : Retaining second more third) :
    Retaining world (events ++ more) third where
  toRetains := first.toRetains.trans rest.toRetains
  registered here := rest.registered (first.registered here)

theorem composes : History.Composes Retaining where
  idle := .of_same rfl rfl
  append first rest := first.append rest

theorem construction {type : EntityType} {ref : EntityRef}
    (inside : Retaining ((world.enter (.construction ref)).make type) events after)
    (succeeded : Bool) :
    Retaining world
      (.entered (.construction ref) :: events ++ [.left (.construction ref) succeeded])
      (after.leave (.construction ref) succeeded) where
  toRetains := ((Retains.make _ type).trans inside.toRetains).activity succeeded
  registered := inside.registered

theorem turn {call : EntityCall} {id : EntityId}
    (taken : TurnTaken Retaining call id world events after) : Retaining world events after := by
  refine taken.covered composes (.of_same rfl rfl) fun _ attempted => ?_
  cases attempted with
  | refused => exact .of_same rfl rfl
  | ran inside => exact ⟨inside.toRetains.activity _, inside.registered⟩

end Retaining

theorem retaining_frames : History.CoversFrames Retaining where
  toComposes := Retaining.composes
  wrote := ⟨⟨by simp [World.setField], by simp, World.hasField_setField _ _ _⟩, id⟩
  painted := .of_same rfl rfl
  printed := .of_same rfl rfl
  destroyed {world ref _} found unmarked :=
    ⟨⟨by simp, by simp, World.hasField_destroy ref found unmarked⟩, by simp⟩
  declared := .of_same rfl rfl
  refused := .of_same rfl rfl
  constructed {world type ref events after} _ inside := by
    have registered : Retaining after [.logged (.spawned ref)] (after.register ref) :=
      ⟨.of_entities rfl, by simp +contextual⟩
    have whole := (inside.append registered).construction true
    simpa using whole
  abandoned _ inside := inside.construction false
  handled _ taken := Retaining.turn taken
  registered related := related.registered
  unmoved _ _ registry entities _ := .of_same registry entities
  turn _ taken := Retaining.turn taken

theorem Retaining.declared (ref : EntityRef) (name : String) (value : Value) (world : World) :
    History.Links Retaining world
      ((world.setField ref.id name value).note (.declared ref name)) := by
  have wrote : History.Links Retaining world (world.setField ref.id name value) :=
    .silent rfl retaining_frames.wrote
  exact wrote.trans Retaining.composes (.noted rfl retaining_frames.declared)

/-- The value that a declared property has at first. -/
def Initializer.compute (calls : Calls) (frame : Frame) (initializer : Initializer) :
    Script World Value :=
  match initializer.value with
  | some expr => eval calls frame expr
  | none => pure .unset

/-- Initializers run one after another: each is evaluated in the world that those before it have
left, and its value becomes that of the property. -/
inductive Initialized (calls : Calls) (frame : Frame) (ref : EntityRef) :
    List Initializer → World → World → Prop where
  | finished {world} : Initialized calls frame ref [] world world
  | declared {initializer rest world value evaluated after} :
      initializer.compute calls frame world = .returned value evaluated →
      Initialized calls frame ref rest
        ((evaluated.setField ref.id initializer.name value).note (.declared ref initializer.name))
        after →
      Initialized calls frame ref (initializer :: rest) world after

/-- The entity has a field for every property that is declared. -/
def World.HasAll (world : World) (id : EntityId) (initializers : List Initializer) : Prop :=
  ∀ initializer ∈ initializers, world.HasField id initializer.name

/-- Every property that the type declares can be read from the entity. -/
def World.Readable (world : World) (id : EntityId) (type : EntityType) : Prop :=
  ∀ initializer ∈ type.initializers, ∀ typeName, ∃ value,
    world.readField (.entity ⟨id, typeName⟩) initializer.name = .ok value

namespace World.HasAll

variable {world after : World} {id : EntityId}

theorem kept {initializers : List Initializer} (has : world.HasAll id initializers)
    (retains : Retains world after) : after.HasAll id initializers :=
  fun initializer declared => retains.fields (has initializer declared)

theorem readable {type : EntityType} (has : world.HasAll id type.initializers) :
    world.Readable id type := by
  intro initializer declared typeName
  obtain ⟨value, found⟩ := Option.isSome_iff_exists.mp (has initializer declared)
  exact ⟨value, by simp [World.readField, World.field, found]⟩

end World.HasAll

section Initializers

variable {calls : Calls} {frame : Frame} {ref : EntityRef} {initializers : List Initializer}
  {world after : World}

theorem runInitializers_cons (initializer : Initializer) :
    runInitializers calls frame ref (initializer :: initializers) =
      (do
        let value ← initializer.compute calls frame
        modify fun world => world.setField ref.id initializer.name value
        note (.declared ref initializer.name)
        runInitializers calls frame ref initializers) := by
  obtain ⟨name, _ | expr⟩ := initializer <;> rfl

theorem initialized_of_returned
    (ran : runInitializers calls frame ref initializers world = .returned () after) :
    Initialized calls frame ref initializers world after := by
  induction initializers generalizing world with
  | nil =>
      cases ran
      exact .finished
  | cons initializer rest inductionHypothesis =>
      rw [runInitializers_cons] at ran
      obtain ⟨value, evaluated, computed, ranRest⟩ := returned_bind ran
      exact .declared computed (inductionHypothesis ranRest)

variable (nested : calls.Follow Retaining)

include nested

theorem Initializer.compute_follows (initializer : Initializer) :
    Follows id Retaining (initializer.compute calls frame) := by
  unfold compute
  split
  · exact eval_follows retaining_frames.toCoversEvaluation nested frame _
  · exact follows_pure Retaining.composes _

theorem Initialized.retaining (initialized : Initialized calls frame ref initializers world after) :
    History.Links Retaining world after := by
  have composes := Retaining.composes
  induction initialized with
  | finished => exact .refl composes _
  | @declared initializer _ world value evaluated _ computed _ rest =>
      have first : History.Links Retaining world evaluated :=
        initializer.compute_follows nested world evaluated (by rw [computed]; rfl)
      have declared := Retaining.declared ref initializer.name value evaluated
      exact (first.trans composes declared).trans composes rest

/-- When the initializers have run, the entity has all the properties that are declared. -/
theorem Initialized.hasAll (initialized : Initialized calls frame ref initializers world after)
    (made : ref.id < world.entities.size) : after.HasAll ref.id initializers := by
  induction initialized with
  | finished => exact List.forall_mem_nil _
  | @declared initializer _ world value evaluated _ computed initialized rest =>
      obtain ⟨_, _, first⟩ :=
        initializer.compute_follows nested world evaluated (by rw [computed]; rfl)
      have madeStill : ref.id < evaluated.entities.size := Nat.lt_of_lt_of_le made first.size
      have set : (evaluated.setField ref.id initializer.name value).HasField ref.id
          initializer.name := World.hasField_setField_self value madeStill
      obtain ⟨_, _, retaining⟩ := initialized.retaining nested
      refine List.forall_mem_cons.mpr ⟨retaining.fields set, rest ?_⟩
      simpa [World.setField] using madeStill

end Initializers

end EntityScript
