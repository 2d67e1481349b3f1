import EntityScript.Proofs.Activities

/-!
Traces are faithful.  Of constructions and calls that are entered, refused and left the journal
has what the trace has, in the same order, so nothing is missing from a trace.
-/

namespace EntityScript

/-- Whether the event is that an activity is entered, refused or left. -/
def Event.passes : Event → Bool
  | entered _ | refused _ | left _ _ => true
  | _ => false

/-- The activities that are entered, refused and left at the moment. -/
def Moment.passages (moment : Moment) : List Event :=
  match moment.act with
  | .spawn _ _ (.ok ref) => [.entered (.construction ref)]
  | .spawn typeName arguments (.error _) =>
      match moment.world.constructible typeName arguments with
      | .ok type => [.refused (.construction ⟨moment.world.entities.size, type.name⟩)]
      | .error _ => []
  | .call ref call (.ok _) => [.entered (.call ref call)]
  | .call ref call (.error _) => [.refused (.call ref call)]
  | .leave activity succeeded => [.left activity succeeded]
  | _ => []

namespace World

/-- The activities that were entered, refused and left. -/
def passages (world : World) : List Event := world.journal.toList.filter Event.passes

variable {world after : World}

theorem passages_of_noted {events : List Event}
    (noted : after.journal.toList = world.journal.toList ++ events) :
    after.passages = world.passages ++ events.filter Event.passes := by
  rw [passages, noted, List.filter_append, passages]

theorem passages_of_silent {events : List Event}
    (noted : after.journal.toList = world.journal.toList ++ events)
    (silent : ∀ event ∈ events, event.passes = false) : after.passages = world.passages := by
  have none : events.filter Event.passes = [] :=
    List.filter_eq_nil_iff.mpr fun event member => by simp [silent event member]
  rw [passages_of_noted noted, none, List.append_nil]

theorem passages_note (world : World) (event : Event) :
    (world.note event).passages = world.passages ++ [event].filter Event.passes :=
  passages_of_noted (by simp)

@[simp]
theorem passages_enter (activity : Activity) :
    (world.enter activity).passages = world.passages ++ [.entered activity] :=
  passages_of_noted (show _ = _ ++ [Event.entered activity] by simp)

@[simp]
theorem passages_leave (activity : Activity) (succeeded : Bool) :
    (world.leave activity succeeded).passages = world.passages ++ [.left activity succeeded] :=
  passages_of_noted (show _ = _ ++ [Event.left activity succeeded] by simp)

@[simp]
theorem passages_register (ref : EntityRef) : (world.register ref).passages = world.passages := by
  have noted : (world.register ref).journal.toList =
      world.journal.toList ++ [.logged (.spawned ref)] := by simp
  exact (passages_of_noted noted).trans (List.append_nil _)

@[simp]
theorem passages_make (type : EntityType) : (world.make type).passages = world.passages := rfl

end World

theorem Slight.silent {world after : World} {events : List Event}
    (slight : Slight world events after) : ∀ event ∈ events, event.passes = false := by
  induction slight with
  | append _ _ first rest => exact List.forall_mem_append.mpr ⟨first, rest⟩
  | idle | wrote | painted => exact List.forall_mem_nil _
  | printed | destroyed | declared => exact List.forall_mem_singleton.mpr rfl

theorem passages_of_slight {world after : World} (links : History.Links Slight world after) :
    after.passages = world.passages := by
  obtain ⟨events, noted, slight⟩ := links
  exact World.passages_of_silent noted slight.silent

theorem passages_of_plain {world after : World} {events : List Event}
    (noted : after.journal.toList = world.journal.toList ++ events)
    (plain : ∀ event ∈ events, event.Plain) : after.passages = world.passages := by
  refine World.passages_of_silent noted fun event member => ?_
  obtain ⟨_, rfl, _⟩ := plain event member
  rfl

namespace Outcome

variable {outcome : Outcome World Unit} {after : World}

theorem passages_left {activity : Activity} (ends : (outcome.left activity).state? = some after) :
    ∃ last, outcome.state? = some last ∧
      after.passages =
        last.passages ++ (outcome.leaving activity).flatMap Moment.passages := by
  cases outcome with
  | returned _ last | raised _ last =>
      cases ends
      exact ⟨last, rfl, last.passages_leave activity _⟩
  | endless => cases ends

theorem passages_isolating {ref : EntityRef} {phase : Phase} :
    (outcome.isolating ref phase).flatMap Moment.passages = [] := by
  refine List.flatMap_eq_nil_iff.mpr fun moment member => ?_
  obtain ⟨error, last, _, rfl⟩ := mem_isolating member
  cases last.settings.isolateErrors <;> rfl

theorem passages_isolated {ref : EntityRef} {phase : Phase}
    (ends : (outcome.isolated ref phase).state? = some after) :
    ∃ last, outcome.state? = some last ∧ after.passages = last.passages := by
  obtain ⟨last, reached, rfl | ⟨error, rfl⟩⟩ := state?_isolated ends
  · exact ⟨_, reached, rfl⟩
  · exact ⟨last, reached, (last.passages_note _).trans (List.append_nil _)⟩

end Outcome

/-- What the journal tells of activities after a course is what its moments tell. -/
theorem Course.passages {levels : Nat} {world after : World} {moments : List Moment}
    {outcome : Outcome World Unit} (course : Course levels world moments outcome)
    (ends : outcome.state? = some after) :
    after.passages = world.passages ++ moments.flatMap Moment.passages := by
  induction course generalizing after with
  | idle =>
      cases ends
      exact (List.append_nil _).symm
  | endless => cases ends
  | append _ _ first rest =>
      rw [rest ends, first rfl, List.flatMap_append, List.append_assoc]
  | worked slight | failed slight _ =>
      cases ends
      exact (passages_of_slight slight).trans (List.append_nil _).symm
  | executed _ inside => exact inside ends
  | unspawned unknown =>
      cases ends
      simp [Moment.passages, unknown]
  | refusedSpawn known =>
      cases ends
      simp only [List.flatMap_cons, List.flatMap_nil, Moment.passages, known]
      exact World.passages_note _ _
  | @spawned _ world typeName arguments type ref moments outcome _ _ _ _ inside =>
      obtain ⟨ready, reached, passages⟩ := Outcome.passages_left ends
      obtain ⟨last, lastReached, same⟩ := Outcome.state?_registered reached
      have registered : ready.passages = last.passages := by
        rcases same with rfl | rfl
        · exact World.passages_register ref
        · rfl
      rw [passages, registered, inside lastReached, World.passages_make, World.passages_enter]
      simp [Moment.passages]
  | @refusedCall world ref call _ _ _ =>
      obtain ⟨last, reached, passages⟩ := Outcome.passages_isolated ends
      cases reached
      rw [passages, List.flatMap_cons, Outcome.passages_isolating, List.append_nil]
      exact World.passages_note _ _
  | @called _ world ref call moments outcome _ _ _ _ inside =>
      obtain ⟨left, reached, passages⟩ := Outcome.passages_isolated ends
      obtain ⟨last, lastReached, passagesLeft⟩ := Outcome.passages_left reached
      rw [passages, passagesLeft, inside lastReached, World.passages_enter, List.flatMap_append,
        Outcome.passages_isolating]
      simp [Moment.passages]
  | quiet links =>
      cases ends
      obtain ⟨_, noted, still⟩ := links
      exact (passages_of_plain noted still.plain).trans (List.append_nil _).symm
  | began =>
      cases ends
      exact World.passages_note _ _
  | ended _ inside =>
      obtain ⟨last, reached, rfl⟩ := Outcome.state?_ended ends
      rw [World.passages_note, inside reached]
      exact List.append_nil _

theorem World.passages_cleared (world : World) : world.cleared.passages = world.passages := by
  obtain ⟨removal, noted, plain⟩ := (world.note (.began .tick)).removeDestroyed_notes
  rw [cleared, passages_of_plain noted plain, passages_note]
  exact List.append_nil _

theorem Operation.passages_entry (operation : Operation) (world : World) :
    (operation.entry world).passages = world.passages := by
  cases operation with
  | tickPhase delta => exact world.passages_cleared
  | step elapsed => exact world.pumpInput.passages_cleared
  | frameAt now => exact world.pumpInput.passages_cleared
  | _ => rfl

namespace Session

theorem Leads.passages {session after : Session} {operation : Operation}
    (leads : session.Leads operation after) :
    after.world.passages =
      session.world.passages ++ (operation.trace session).flatMap Moment.passages := by
  rw [(operation.course session).passages leads.ends, operation.passages_entry]

/-- What the journal tells of activities after operations in a row is what their trace tells. -/
theorem passages_through {operations : List Operation} {session last : Session}
    (reached : through operations session = some last) :
    last.world.passages =
      session.world.passages ++ (trace operations session).flatMap Moment.passages := by
  induction operations generalizing session with
  | nil =>
      cases reached
      exact (List.append_nil _).symm
  | cons operation rest inductionHypothesis =>
      obtain ⟨middle, leads, reachedRest⟩ := Option.bind_eq_some_iff.mp reached
      have first := Leads.passages (show session.Leads operation middle from leads)
      rw [inductionHypothesis reachedRest, first, trace, leads, List.flatMap_append,
        List.append_assoc]

end Session

end EntityScript
