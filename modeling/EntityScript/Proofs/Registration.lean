import EntityScript.Proofs.Account
import EntityScript.Proofs.Dispatch

/-!
The registry grows by the entities whose constructions are completed, in the order in which
they are, and identities are handed out one after another.  Constructions nest, so what is
completed first need not have been begun first.
-/

namespace EntityScript

/-- The registry grows from a world to a later one. -/
structure Grows (world : World) (events : List Event) (after : World) : Prop where
  registry : after.registry = world.registry ++ events.filterMap Event.completed?
  begun : ∃ count, after.entities.size = world.entities.size + count ∧
    events.filterMap Event.begun? = List.range' world.entities.size count
  fresh {id : Nat} : id ∈ events.filterMap Event.completed? →
    world.entities.size ≤ id ∧ id < after.entities.size
  distinct : (events.filterMap Event.completed?).Nodup

namespace Grows

variable {world after : World} {events : List Event}

theorem of_same (registry : after.registry = world.registry)
    (size : after.entities.size = world.entities.size)
    (begun : events.filterMap Event.begun? = [])
    (completed : events.filterMap Event.completed? = []) : Grows world events after where
  registry := by simp [registry, completed]
  begun := ⟨0, by simp [size], by simp [begun]⟩
  fresh := by simp [completed]
  distinct := by simp [completed]

theorem size_le (grows : Grows world events after) :
    world.entities.size ≤ after.entities.size := by
  obtain ⟨count, size, _⟩ := grows.begun
  omega

/-- Only entities that were made are registered, if that was so before. -/
theorem made (grows : Grows world events after)
    (made : ∀ id : Nat, id ∈ world.registry → id < world.entities.size) :
    ∀ id : Nat, id ∈ after.registry → id < after.entities.size := by
  intro id here
  rw [grows.registry, List.mem_append] at here
  rcases here with old | new
  · exact Nat.lt_of_lt_of_le (made id old) grows.size_le
  · exact (grows.fresh new).2

theorem append {second third : World} {more : List Event} (first : Grows world events second)
    (rest : Grows second more third) : Grows world (events ++ more) third where
  registry := by
    rw [rest.registry, first.registry, List.filterMap_append, List.append_assoc]
  begun := by
    obtain ⟨count, size, begun⟩ := first.begun
    obtain ⟨countRest, sizeRest, begunRest⟩ := rest.begun
    refine ⟨count + countRest, by omega, ?_⟩
    rw [List.filterMap_append, begun, begunRest, size, List.range'_append_1]
  fresh {id} completed := by
    rw [List.filterMap_append, List.mem_append] at completed
    rcases completed with inFirst | inRest
    · have bounds := first.fresh inFirst
      have grown := rest.size_le
      omega
    · have bounds := rest.fresh inRest
      have grown := first.size_le
      omega
  distinct := by
    rw [List.filterMap_append]
    refine List.nodup_append.mpr ⟨first.distinct, rest.distinct, ?_⟩
    intro early inFirst late inRest
    have before := (first.fresh inFirst).2
    have later := (rest.fresh inRest).1
    exact Nat.ne_of_lt (Nat.lt_of_lt_of_le before later)

theorem composes : History.Composes Grows where
  idle := .of_same rfl rfl rfl rfl
  append first rest := first.append rest

theorem attempted {ref : EntityRef} {call : EntityCall}
    (attempted : Attempted Grows (.call ref call) world events after) :
    Grows world events after := by
  cases attempted with
  | refused => exact .of_same rfl rfl rfl rfl
  | ran inside =>
      exact
        { registry := by simpa [List.filterMap_cons, Event.completed?] using inside.registry
          begun := by simpa [List.filterMap_cons, Event.begun?] using inside.begun
          fresh := by
            intro id completed
            apply inside.fresh
            simpa [List.filterMap_cons, Event.completed?] using completed
          distinct := by simpa [List.filterMap_cons, Event.completed?] using inside.distinct }

theorem turn {call : EntityCall} {id : EntityId}
    (taken : TurnTaken Grows call id world events after) : Grows world events after :=
  taken.covered composes (.of_same rfl rfl rfl rfl) fun _ => attempted

/-- Constructions that nest in one get later identities. -/
theorem construction {type : EntityType} {ref : EntityRef}
    (named : ref = ⟨world.entities.size, type.name⟩)
    (inside : Grows ((world.enter (.construction ref)).make type) events after) :
    (∃ count, after.entities.size = world.entities.size + (count + 1) ∧
      ref.id :: events.filterMap Event.begun? = List.range' world.entities.size (count + 1)) ∧
    ∀ id : Nat, id ∈ events.filterMap Event.completed? →
      world.entities.size < id ∧ id < after.entities.size := by
  subst named
  constructor
  · obtain ⟨count, size, begun⟩ := inside.begun
    simp only [World.entities_make, World.entities_enter, Array.size_push] at size begun
    exact ⟨count, by omega, by rw [begun, List.range'_succ]⟩
  · intro id completed
    have bounds := inside.fresh completed
    simp only [World.entities_make, World.entities_enter, Array.size_push] at bounds
    exact ⟨bounds.1, bounds.2⟩

theorem constructed {type : EntityType} {ref : EntityRef}
    (named : ref = ⟨world.entities.size, type.name⟩)
    (inside : Grows ((world.enter (.construction ref)).make type) events after) :
    Grows world
      (.entered (.construction ref) :: events ++
        [.logged (.spawned ref), .left (.construction ref) true])
      ((after.register ref).leave (.construction ref) true) := by
  obtain ⟨⟨count, size, begun⟩, later⟩ := inside.construction named
  have first : world.entities.size = ref.id := by rw [named]
  have completed : (Event.entered (.construction ref) :: events ++
      [Event.logged (.spawned ref), Event.left (.construction ref) true]).filterMap
        Event.completed? = events.filterMap Event.completed? ++ [ref.id] := by
    simp [List.filterMap_cons, Event.completed?]
  refine ⟨?_, ⟨count + 1, size, ?_⟩, ?_, ?_⟩
  · rw [completed, ← List.append_assoc]
    simp [inside.registry]
  · simpa [List.filterMap_cons, Event.begun?] using begun
  · intro id member
    rw [completed, List.mem_append, List.mem_singleton] at member
    rcases member with nested | rfl
    · have bounds := later id nested
      exact ⟨by omega, bounds.2⟩
    · simp only [World.entities_leave, World.entities_register]
      omega
  · rw [completed, List.nodup_append]
    refine ⟨inside.distinct, by simp, ?_⟩
    intro other nested same member
    rw [List.mem_singleton.mp member, ← first]
    exact Nat.ne_of_gt (later other nested).1

theorem abandoned {type : EntityType} {ref : EntityRef}
    (named : ref = ⟨world.entities.size, type.name⟩)
    (inside : Grows ((world.enter (.construction ref)).make type) events after) :
    Grows world (.entered (.construction ref) :: events ++ [.left (.construction ref) false])
      (after.leave (.construction ref) false) := by
  obtain ⟨⟨count, size, begun⟩, later⟩ := inside.construction named
  have first : world.entities.size = ref.id := by rw [named]
  have completed : (Event.entered (.construction ref) :: events ++
      [Event.left (.construction ref) false]).filterMap Event.completed? =
        events.filterMap Event.completed? := by
    simp [List.filterMap_cons, Event.completed?]
  refine ⟨?_, ⟨count + 1, size, ?_⟩, ?_, ?_⟩
  · rw [completed]
    simp [inside.registry]
  · simpa [List.filterMap_cons, Event.begun?] using begun
  · intro id member
    rw [completed] at member
    have bounds := later id member
    exact ⟨by omega, bounds.2⟩
  · rw [completed]
    exact inside.distinct

end Grows

theorem grows_covers : History.Covers Grows where
  toComposes := Grows.composes
  wrote := .of_same rfl (by simp [World.setField]) rfl rfl
  painted := .of_same rfl rfl rfl rfl
  printed := .of_same rfl rfl rfl rfl
  destroyed _ _ := .of_same (by simp) (by simp) rfl rfl
  declared := .of_same rfl rfl rfl rfl
  refused := .of_same rfl rfl rfl rfl
  constructed := Grows.constructed
  abandoned := Grows.abandoned
  handled _ taken := Grows.turn taken
  registered related here := by
    rw [related.registry]
    exact List.mem_append_left _ here

end EntityScript
