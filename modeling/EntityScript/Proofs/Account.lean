import EntityScript.Journal

/-!
What the events of a journal tell about entities: which constructions started and which were
completed, which entities were marked for removal, and which calls were made into them.
-/

namespace EntityScript

namespace Event

/-- The entity whose construction the event starts. -/
def begun? : Event → Option EntityId
  | entered (.construction ref) => some ref.id
  | _ => none

/-- The entity whose construction the event completes. -/
def completed? : Event → Option EntityId
  | left (.construction ref) true => some ref.id
  | _ => none

/-- The entity that the event marks for removal. -/
def marked? : Event → Option EntityId
  | logged (.destroyed ref) => some ref.id
  | _ => none

/-- The call into an entity that the event attempts, whether or not there is a level of call
depth left for it. -/
def attempted? : Event → Option (EntityId × Phase)
  | entered (.call ref call) => some (ref.id, call.phase)
  | refused (.call ref call) => some (ref.id, call.phase)
  | _ => none

/-- The entity into which the event starts a call of a kind. -/
def started? (phase : Phase) : Event → Option EntityId
  | entered (.call ref call) => if call.phase = phase then some ref.id else none
  | _ => none

theorem attempted?_of_started? {phase : Phase} {event : Event} {id : EntityId}
    (starts : event.started? phase = some id) : event.attempted? = some (id, phase) := by
  unfold started? at starts
  split at starts
  · split at starts
    · rename_i same
      obtain rfl := Option.some.inj starts
      rw [attempted?, same]
    · cases starts
  · cases starts

/-- The entity that the event attempts to tick. -/
def ticked? (event : Event) : Option EntityId :=
  event.attempted?.bind fun (id, phase) => if phase = .tick then some id else none

/-- The event is an entry of the log, and not about a mark for removal. -/
def Plain (event : Event) : Prop :=
  ∃ entry, event = .logged entry ∧ ∀ ref, entry ≠ .destroyed ref

/-- The event is where a phase of a frame begins or ends. -/
def Boundary (event : Event) : Prop := ∃ phase, event = .began phase ∨ event = .ended phase

end Event

end EntityScript
