import EntityScript.Proofs.Account
import EntityScript.Proofs.Dispatch

/-!
Entities persist.  Whatever scripts do, an entity keeps its type, a mark for removal is never
taken back and is noted when it is set, and the settings and the call depth are in the end
what they were.
-/

namespace EntityScript

/-- The entities of a world persist in a later one. -/
structure Persists (world : World) (events : List Event) (after : World) : Prop where
  settings : after.settings = world.settings
  depth : after.depth = world.depth
  registered {id} : id ∈ world.registry → id ∈ after.registry
  types {id type} : world.type? id = some type → after.type? id = some type
  marks {id} : after.isDestroyed id = true ↔
    world.isDestroyed id = true ∨ id ∈ events.filterMap Event.marked?

namespace Persists

variable {world after : World} {events : List Event}

theorem of_same (settings : after.settings = world.settings) (depth : after.depth = world.depth)
    (registry : after.registry = world.registry) (types : after.type? = world.type?)
    (marks : after.isDestroyed = world.isDestroyed)
    (unmarked : events.filterMap Event.marked? = []) : Persists world events after where
  settings
  depth
  registered here := by rwa [registry]
  types found := by rw [types, found]
  marks := by simp [marks, unmarked]

theorem append {second third : World} {more : List Event} (first : Persists world events second)
    (rest : Persists second more third) : Persists world (events ++ more) third where
  settings := rest.settings.trans first.settings
  depth := rest.depth.trans first.depth
  registered here := rest.registered (first.registered here)
  types found := rest.types (first.types found)
  marks {id} := by
    rw [rest.marks, first.marks, List.filterMap_append, List.mem_append, or_assoc]

theorem composes : History.Composes Persists where
  idle := .of_same rfl rfl rfl rfl rfl rfl
  append first rest := first.append rest

theorem attempted {ref : EntityRef} {call : EntityCall}
    (attempted : Attempted Persists (.call ref call) world events after) :
    Persists world events after := by
  cases attempted with
  | refused => exact .of_same rfl rfl rfl rfl rfl rfl
  | ran inside =>
      exact
        { settings := inside.settings
          depth := by simp [inside.depth]
          registered := inside.registered
          types := inside.types
          marks := by
            intro id
            have marks := @inside.marks id
            simpa [Event.marked?] using marks }

theorem turn {call : EntityCall} {id : EntityId}
    (taken : TurnTaken Persists call id world events after) : Persists world events after :=
  taken.covered composes (.of_same rfl rfl rfl rfl rfl rfl) fun _ => attempted

theorem construction {type : EntityType} {ref : EntityRef}
    (inside : Persists ((world.enter (.construction ref)).make type) events after)
    (succeeded : Bool) :
    Persists world (.entered (.construction ref) :: events ++ [.left (.construction ref) succeeded])
      (after.leave (.construction ref) succeeded) where
  settings := inside.settings
  depth := by simp [inside.depth]
  registered := inside.registered
  types found := inside.types (World.type?_make _ _ found)
  marks {id} := by
    have marks := @inside.marks id
    simpa [Event.marked?] using marks

end Persists

theorem persists_covers : History.Covers Persists where
  toComposes := Persists.composes
  wrote := .of_same rfl rfl rfl (by simp) (by simp) rfl
  painted := .of_same rfl rfl rfl rfl rfl rfl
  printed := .of_same rfl rfl rfl rfl rfl rfl
  destroyed found unmarked :=
    { settings := by simp
      depth := by simp
      registered := by simp
      types := by simp
      marks := by simp [World.isDestroyed_destroy _ _ found unmarked, Event.marked?] }
  declared := .of_same rfl rfl rfl rfl rfl rfl
  refused := .of_same rfl rfl rfl rfl rfl rfl
  constructed {world type ref events after} _ inside := by
    have registered : Persists after [.logged (.spawned ref)] (after.register ref) :=
      { settings := rfl
        depth := rfl
        registered := by simp +contextual
        types := id
        marks := by simp [Event.marked?] }
    have whole := (inside.append registered).construction true
    simpa using whole
  abandoned _ inside := inside.construction false
  handled _ taken := Persists.turn taken
  registered related := related.registered

end EntityScript
