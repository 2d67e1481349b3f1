import EntityScript.Proofs.Registry

/-!
Scripts call nothing but handlers, and only of entities that are registered.  Ticks and renders
are started by the phases of a frame alone.
-/

namespace EntityScript

/-- Only handlers of registered entities are called, and no phase begins or ends. -/
structure Handles (world : World) (events : List Event) (after : World) : Prop where
  registered {id} : id ∈ world.registry → id ∈ after.registry
  attempts {id phase} : (id, phase) ∈ events.filterMap Event.attempted? →
    phase = .handler ∧ id ∈ after.registry
  inside : ∀ event ∈ events, ¬ event.Boundary

namespace Handles

variable {world after : World} {events : List Event}

theorem of_same (registry : after.registry = world.registry)
    (attempts : events.filterMap Event.attempted? = [])
    (inside : ∀ event ∈ events, ¬ event.Boundary) : Handles world events after where
  registered here := by rwa [registry]
  attempts called := by simp [attempts] at called
  inside

theorem append {second third : World} {more : List Event} (first : Handles world events second)
    (rest : Handles second more third) : Handles world (events ++ more) third where
  registered here := rest.registered (first.registered here)
  attempts {id phase} called := by
    rw [List.filterMap_append, List.mem_append] at called
    rcases called with inFirst | inRest
    · obtain ⟨handler, here⟩ := first.attempts inFirst
      exact ⟨handler, rest.registered here⟩
    · exact rest.attempts inRest
  inside event member := by
    rcases List.mem_append.mp member with inFirst | inRest
    · exact first.inside event inFirst
    · exact rest.inside event inRest

theorem composes : History.Composes Handles where
  idle := .of_same rfl rfl (by simp)
  append first rest := first.append rest

theorem construction {type : EntityType} {ref : EntityRef}
    (inside : Handles ((world.enter (.construction ref)).make type) events after)
    (succeeded : Bool) :
    Handles world
      (.entered (.construction ref) :: events ++ [.left (.construction ref) succeeded])
      (after.leave (.construction ref) succeeded) where
  registered := inside.registered
  attempts {id phase} called := by
    apply inside.attempts
    simpa [List.filterMap_cons, Event.attempted?] using called
  inside event member := by
    simp only [List.cons_append, List.mem_cons, List.mem_append, List.not_mem_nil,
      or_false] at member
    rcases member with rfl | nested | rfl
    · simp [Event.Boundary]
    · exact inside.inside event nested
    · simp [Event.Boundary]

theorem attempted {ref : EntityRef} {event : String} {payload : Value}
    (registered : ref.id ∈ world.registry)
    (attempted : Attempted Handles (.call ref (.handler event payload)) world events after) :
    Handles world events after := by
  cases attempted with
  | refused =>
      refine ⟨id, ?_, by simp [Event.Boundary]⟩
      intro id phase called
      obtain ⟨rfl, rfl⟩ : id = ref.id ∧ phase = .handler := by
        simpa [Event.attempted?, EntityCall.phase] using called
      exact ⟨rfl, registered⟩
  | ran inside =>
      refine ⟨inside.registered, ?_, ?_⟩
      · intro id phase called
        simp only [List.cons_append, List.filterMap_cons, Event.attempted?, EntityCall.phase,
          List.filterMap_append, List.filterMap_nil, List.append_nil, List.mem_cons,
          Prod.mk.injEq] at called
        rcases called with ⟨rfl, rfl⟩ | nested
        · exact ⟨rfl, inside.registered registered⟩
        · exact inside.attempts nested
      · intro event member
        simp only [List.cons_append, List.mem_cons, List.mem_append, List.not_mem_nil,
          or_false] at member
        rcases member with rfl | nested | rfl
        · simp [Event.Boundary]
        · exact inside.inside event nested
        · simp [Event.Boundary]

end Handles

theorem World.id_of_ref? {world : World} {id : EntityId} {ref : EntityRef}
    (known : world.ref? id = some ref) : ref.id = id := by
  obtain ⟨entity, _, rfl⟩ := Option.map_eq_some_iff.mp known
  rfl

theorem handles_covers : History.Covers Handles where
  toComposes := Handles.composes
  wrote := .of_same rfl rfl (by simp)
  painted := .of_same rfl rfl (by simp)
  printed := .of_same rfl rfl (by simp [Event.Boundary])
  destroyed _ _ := .of_same (by simp) rfl (by simp [Event.Boundary])
  declared := .of_same rfl rfl (by simp [Event.Boundary])
  refused := .of_same rfl rfl (by simp [Event.Boundary])
  constructed {world type ref events after} _ inside := by
    have registered : Handles after [.logged (.spawned ref)] (after.register ref) :=
      { registered := by simp +contextual
        attempts := by simp [Event.attempted?]
        inside := by simp [Event.Boundary] }
    have whole := (inside.append registered).construction true
    simpa using whole
  abandoned _ inside := inside.construction false
  handled here taken := by
    apply taken.covered Handles.composes (.of_same rfl rfl (by simp [Event.Boundary]))
    intro ref events after known attempted
    exact Handles.attempted (by rwa [World.id_of_ref? known]) attempted
  registered related := related.registered

theorem handles_host : History.CoversHost Handles where
  toCovers := handles_covers
  quiet still := by
    refine .of_same still.registry (attempted?_eq_nil fun event member => ?_) ?_
    · exact .inl (still.plain event member)
    · rintro event member ⟨phase, rfl | rfl⟩ <;> obtain ⟨_, plain, _⟩ := still.plain _ member <;>
        cases plain

end EntityScript
