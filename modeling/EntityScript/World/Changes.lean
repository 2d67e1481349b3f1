import EntityScript.World

/-!
What each change of a world does to its journal, its registry, its entities and its depth.
All but a few leave most of them as they were.
-/

namespace EntityScript.World

section Same

variable {world after : World} (entities : after.entities = world.entities)

include entities

/-- Which entities are marked depends on the entities alone, and so does of which types they
are. -/
theorem isDestroyed_congr : after.isDestroyed = world.isDestroyed := by
  funext id
  simp [isDestroyed, entity?, entities]

theorem type?_congr : after.type? = world.type? := by
  funext id
  simp [type?, entity?, entities]

end Same

variable (world : World)

section Note

variable (event : Event) (entry : LogEntry)

@[simp]
theorem journal_note : (world.note event).journal = world.journal.push event := rfl

@[simp]
theorem registry_note : (world.note event).registry = world.registry := rfl

@[simp]
theorem entities_note : (world.note event).entities = world.entities := rfl

@[simp]
theorem depth_note : (world.note event).depth = world.depth := rfl

@[simp]
theorem settings_note : (world.note event).settings = world.settings := rfl

@[simp]
theorem type?_note : (world.note event).type? = world.type? := rfl

@[simp]
theorem isDestroyed_note : (world.note event).isDestroyed = world.isDestroyed := rfl

@[simp]
theorem journal_log : (world.log entry).journal = world.journal.push (.logged entry) := rfl

@[simp]
theorem registry_log : (world.log entry).registry = world.registry := rfl

@[simp]
theorem entities_log : (world.log entry).entities = world.entities := rfl

@[simp]
theorem depth_log : (world.log entry).depth = world.depth := rfl

@[simp]
theorem settings_log : (world.log entry).settings = world.settings := rfl

@[simp]
theorem type?_log : (world.log entry).type? = world.type? := rfl

@[simp]
theorem isDestroyed_log : (world.log entry).isDestroyed = world.isDestroyed := rfl

end Note

section Activity

variable (activity : Activity) (succeeded : Bool)

@[simp]
theorem journal_enter :
    (world.enter activity).journal = world.journal.push (.entered activity) := rfl

@[simp]
theorem registry_enter : (world.enter activity).registry = world.registry := rfl

@[simp]
theorem entities_enter : (world.enter activity).entities = world.entities := rfl

@[simp]
theorem depth_enter : (world.enter activity).depth = world.depth + 1 := rfl

@[simp]
theorem settings_enter : (world.enter activity).settings = world.settings := rfl

@[simp]
theorem type?_enter : (world.enter activity).type? = world.type? := rfl

@[simp]
theorem isDestroyed_enter : (world.enter activity).isDestroyed = world.isDestroyed := rfl

@[simp]
theorem journal_leave :
    (world.leave activity succeeded).journal = world.journal.push (.left activity succeeded) :=
  rfl

@[simp]
theorem registry_leave : (world.leave activity succeeded).registry = world.registry := rfl

@[simp]
theorem entities_leave : (world.leave activity succeeded).entities = world.entities := rfl

@[simp]
theorem depth_leave : (world.leave activity succeeded).depth = world.depth - 1 := rfl

@[simp]
theorem settings_leave : (world.leave activity succeeded).settings = world.settings := rfl

@[simp]
theorem type?_leave : (world.leave activity succeeded).type? = world.type? := rfl

@[simp]
theorem isDestroyed_leave : (world.leave activity succeeded).isDestroyed = world.isDestroyed := rfl

end Activity

section Entity

variable (type : EntityType) (ref : EntityRef) (id : EntityId) (name : String) (value : Value)

@[simp]
theorem journal_make : (world.make type).journal = world.journal := rfl

@[simp]
theorem registry_make : (world.make type).registry = world.registry := rfl

@[simp]
theorem entities_make :
    (world.make type).entities = world.entities.push ⟨type, .empty, false⟩ := rfl

@[simp]
theorem depth_make : (world.make type).depth = world.depth := rfl

@[simp]
theorem settings_make : (world.make type).settings = world.settings := rfl

@[simp]
theorem journal_register :
    (world.register ref).journal = world.journal.push (.logged (.spawned ref)) := rfl

@[simp]
theorem registry_register : (world.register ref).registry = world.registry ++ [ref.id] := rfl

@[simp]
theorem entities_register : (world.register ref).entities = world.entities := rfl

@[simp]
theorem depth_register : (world.register ref).depth = world.depth := rfl

@[simp]
theorem settings_register : (world.register ref).settings = world.settings := rfl

@[simp]
theorem type?_register : (world.register ref).type? = world.type? := rfl

@[simp]
theorem isDestroyed_register : (world.register ref).isDestroyed = world.isDestroyed := rfl

@[simp]
theorem journal_setField : (world.setField id name value).journal = world.journal := rfl

@[simp]
theorem registry_setField : (world.setField id name value).registry = world.registry := rfl

@[simp]
theorem size_setField :
    (world.setField id name value).entities.size = world.entities.size := by
  simp [setField]

@[simp]
theorem depth_setField : (world.setField id name value).depth = world.depth := rfl

@[simp]
theorem settings_setField : (world.setField id name value).settings = world.settings := rfl

@[simp]
theorem registry_destroy : (world.destroy ref).registry = world.registry := by
  unfold destroy
  split <;> rfl

@[simp]
theorem size_destroy : (world.destroy ref).entities.size = world.entities.size := by
  unfold destroy
  split
  · rfl
  · simp [log, note]

@[simp]
theorem depth_destroy : (world.destroy ref).depth = world.depth := by
  unfold destroy
  split <;> rfl

@[simp]
theorem settings_destroy : (world.destroy ref).settings = world.settings := by
  unfold destroy
  split <;> rfl

@[simp]
theorem type?_setField : (world.setField id name value).type? = world.type? := by
  funext other
  simp only [type?, entity?, setField, Array.getElem?_modify]
  split
  · simp [Function.comp_def]
  · rfl

@[simp]
theorem isDestroyed_setField :
    (world.setField id name value).isDestroyed = world.isDestroyed := by
  funext other
  simp only [isDestroyed, entity?, setField, Array.getElem?_modify]
  split
  · cases world.entities[other]? <;> rfl
  · rfl

theorem field?_setField (other : EntityId) (field : String) :
    (world.setField id name value).field? other field =
      if other = id ∧ field = name ∧ id < world.entities.size then some value
      else world.field? other field := by
  simp only [field?, entity?, setField, Array.getElem?_modify]
  by_cases same : id = other
  · subst same
    by_cases made : id < world.entities.size
    · by_cases hit : name = field
      · simp [hit, made]
      · simp [hit, made, Ne.symm hit]
    · simp [made]
  · simp [same, Ne.symm same]

theorem setField_setField (first second : Value) :
    (world.setField id name first).setField id name second = world.setField id name second := by
  have entities : (world.entities.modify id fun entity =>
        { entity with fields := entity.fields.insert name first }).modify id (fun entity =>
        { entity with fields := entity.fields.insert name second }) =
      world.entities.modify id fun entity =>
        { entity with fields := entity.fields.insert name second } := by
    apply Array.ext_getElem?
    intro other
    simp only [Array.getElem?_modify]
    by_cases same : id = other
    · simp [same, Function.comp_def, Bindings.insert_insert]
    · simp [same]
  simp only [setField, entities]

/-- To give a field the value it has does nothing. -/
theorem setField_eq_self {world : World} {id : EntityId} {name : String} {value : Value}
    (found : world.field? id name = some value) : world.setField id name value = world := by
  obtain ⟨entity, made, field⟩ := Option.bind_eq_some_iff.mp found
  have entities : (world.entities.modify id fun entity =>
      { entity with fields := entity.fields.insert name value }) = world.entities := by
    apply Array.ext_getElem?
    intro other
    rw [Array.getElem?_modify]
    by_cases same : id = other
    · subst same
      unfold entity? at made
      simp [made, Bindings.insert_eq_self field]
    · rw [if_neg same]
  simp only [setField, entities]

theorem type?_make_size : (world.make type).type? world.entities.size = some type := by
  simp [type?, entity?]

theorem type?_make {id : EntityId} {known : EntityType} (found : world.type? id = some known) :
    (world.make type).type? id = some known := by
  obtain ⟨entity, foundEntity, rfl⟩ := Option.map_eq_some_iff.mp found
  have within : id < world.entities.size := (Array.getElem?_eq_some_iff.mp foundEntity).1
  simp only [type?, entity?, entities_make] at found ⊢
  rw [Array.getElem?_push_lt within, ← found, Array.getElem?_eq_getElem within]

@[simp]
theorem isDestroyed_make : (world.make type).isDestroyed = world.isDestroyed := by
  funext other
  simp only [isDestroyed, entity?, entities_make, Array.getElem?_push]
  split <;> simp_all

/-- Marking does nothing to an entity that is marked, or that there is not. -/
theorem destroy_eq_self (marked : ∀ entity, world.entity? ref.id = some entity →
    entity.destroyed = true) : world.destroy ref = world := by
  cases found : world.entity? ref.id with
  | none => simp [destroy, found]
  | some entity => simp [destroy, found, marked entity found]

@[simp]
theorem type?_destroy : (world.destroy ref).type? = world.type? := by
  funext other
  unfold destroy
  split
  · rfl
  · change ((world.entities.modify ref.id _)[other]?).map Entity.type = _
    rw [Array.getElem?_modify]
    split
    · simp [type?, entity?, Function.comp_def]
    · rfl

section Mark

variable {entity : Entity} (found : world.entity? ref.id = some entity)
  (unmarked : entity.destroyed = false)

include found unmarked

theorem destroy_eq :
    world.destroy ref =
      { world with entities := world.entities.modify ref.id fun entity =>
          { entity with destroyed := true } }.log (.destroyed ref) := by
  simp [destroy, found, unmarked]

theorem journal_destroy :
    (world.destroy ref).journal = world.journal.push (.logged (.destroyed ref)) := by
  rw [world.destroy_eq ref found unmarked]
  rfl

theorem isDestroyed_destroy (other : EntityId) :
    (world.destroy ref).isDestroyed other = true ↔
      world.isDestroyed other = true ∨ other = ref.id := by
  rw [world.destroy_eq ref found unmarked]
  simp only [isDestroyed, entity?, log, note, Array.getElem?_modify] at found ⊢
  by_cases same : ref.id = other
  · subst same
    simp [found]
  · simp [same, Ne.symm same]

end Mark

end Entity

section Removal

@[simp]
theorem registry_removeDestroyed :
    world.removeDestroyed.registry = world.registry.filter fun id => !world.isDestroyed id := by
  unfold removeDestroyed
  dsimp only
  split <;> rfl

@[simp]
theorem entities_removeDestroyed : world.removeDestroyed.entities = world.entities := by
  unfold removeDestroyed
  dsimp only
  split <;> rfl

@[simp]
theorem depth_removeDestroyed : world.removeDestroyed.depth = world.depth := by
  unfold removeDestroyed
  dsimp only
  split <;> rfl

@[simp]
theorem settings_removeDestroyed : world.removeDestroyed.settings = world.settings := by
  unfold removeDestroyed
  dsimp only
  split <;> rfl

@[simp]
theorem isDestroyed_removeDestroyed : world.removeDestroyed.isDestroyed = world.isDestroyed :=
  isDestroyed_congr world.entities_removeDestroyed

@[simp]
theorem type?_removeDestroyed : world.removeDestroyed.type? = world.type? :=
  type?_congr world.entities_removeDestroyed

/-- Only the number of the entities that are taken out is noted. -/
theorem journal_removeDestroyed :
    world.removeDestroyed.journal = world.journal ∨
      ∃ count, world.removeDestroyed.journal =
        world.journal.push (.logged (.removed count)) := by
  unfold removeDestroyed
  dsimp only
  split
  · exact .inl rfl
  · exact .inr ⟨_, rfl⟩

end Removal

end EntityScript.World
