import EntityScript.Proofs.Tracing

/-!
The constructions and calls that are active.  They are a stack, which the journal tells: what is
entered comes on top and what is left goes away.  Whatever runs leaves the stack as it found it,
whether it fails or not.
-/

namespace EntityScript

open Script

/-- The active constructions and calls after an event, the innermost first. -/
def Event.stack (active : List Activity) : Event → List Activity
  | entered activity => activity :: active
  | left _ _ => active.tail
  | _ => active

namespace World

/-- The constructions and calls that were entered and not left yet, the innermost first. -/
def active (world : World) : List Activity := world.journal.toList.foldl Event.stack []

variable {world after : World}

theorem active_of_noted {events : List Event}
    (noted : after.journal.toList = world.journal.toList ++ events) :
    after.active = events.foldl Event.stack world.active := by
  rw [active, noted, List.foldl_append, active]

@[simp]
theorem active_enter (activity : Activity) :
    (world.enter activity).active = activity :: world.active :=
  active_of_noted (show _ = _ ++ [Event.entered activity] by simp)

@[simp]
theorem active_leave (activity : Activity) (succeeded : Bool) :
    (world.leave activity succeeded).active = world.active.tail :=
  active_of_noted (show _ = _ ++ [Event.left activity succeeded] by simp)

@[simp]
theorem active_register (ref : EntityRef) : (world.register ref).active = world.active :=
  active_of_noted (show _ = _ ++ [Event.logged (.spawned ref)] by simp)

@[simp]
theorem active_make (type : EntityType) : (world.make type).active = world.active := rfl

end World

/-- The events leave as many constructions and calls as they enter. -/
structure Balanced (world : World) (events : List Event) (after : World) : Prop where
  registered {id} : id ∈ world.registry → id ∈ after.registry
  stack (active : List Activity) : events.foldl Event.stack active = active

namespace Balanced

variable {world after : World} {events : List Event}

theorem of_same (registry : after.registry = world.registry)
    (stack : ∀ active, events.foldl Event.stack active = active) :
    Balanced world events after where
  registered here := by rwa [registry]
  stack

theorem append {second third : World} {more : List Event} (first : Balanced world events second)
    (rest : Balanced second more third) : Balanced world (events ++ more) third where
  registered here := rest.registered (first.registered here)
  stack active := by rw [List.foldl_append, first.stack, rest.stack]

theorem composes : History.Composes Balanced where
  idle := .of_same rfl fun _ => rfl
  append first rest := first.append rest

theorem activity {start last : World} {activity : Activity} {succeeded : Bool}
    (registered : ∀ {id}, id ∈ world.registry → id ∈ after.registry)
    (inside : Balanced start events last) :
    Balanced world (.entered activity :: events ++ [.left activity succeeded]) after where
  registered
  stack active := by
    rw [List.cons_append, List.foldl_cons, List.foldl_append, inside.stack]
    rfl

theorem turn {call : EntityCall} {id : EntityId}
    (taken : TurnTaken Balanced call id world events after) : Balanced world events after := by
  refine taken.covered composes (.of_same rfl fun _ => rfl) fun _ attempted => ?_
  cases attempted with
  | refused => exact .of_same rfl fun _ => rfl
  | ran inside => exact inside.activity inside.registered

end Balanced

theorem balanced_frames : History.CoversFrames Balanced where
  toComposes := Balanced.composes
  wrote := .of_same rfl fun _ => rfl
  painted := .of_same rfl fun _ => rfl
  printed := .of_same rfl fun _ => rfl
  destroyed _ _ := .of_same (by simp) fun _ => rfl
  declared := .of_same rfl fun _ => rfl
  refused := .of_same rfl fun _ => rfl
  constructed {world type ref events after} _ inside := by
    have registered : Balanced after [.logged (.spawned ref)] (after.register ref) :=
      ⟨by simp +contextual, fun _ => rfl⟩
    have built := inside.append registered
    have whole : Balanced world _ ((after.register ref).leave (.construction ref) true) :=
      @Balanced.activity world _ _ _ _ (.construction ref) true built.registered built
    simpa using whole
  abandoned _ inside := inside.activity inside.registered
  handled _ taken := Balanced.turn taken
  registered related := related.registered
  unmoved {_ events _} idle _ registry _ _ := by
    refine .of_same registry fun active => ?_
    induction events with
    | nil => rfl
    | cons event rest inductionHypothesis =>
        obtain ⟨here, others⟩ := List.forall_mem_cons.mp idle
        have same : event.stack active = active := by
          rcases here with ⟨entry, rfl, _⟩ | ⟨phase, rfl | rfl⟩ <;> rfl
        rw [List.foldl_cons, same, inductionHypothesis others]
  turn _ taken := Balanced.turn taken

/-- What is as it was when something has run, however it ended. -/
structure Steady (world after : World) : Prop where
  settings : after.settings = world.settings
  depth : after.depth = world.depth
  active : after.active = world.active

theorem Steady.trans {first second third : World} (before : Steady first second)
    (rest : Steady second third) : Steady first third where
  settings := rest.settings.trans before.settings
  depth := rest.depth.trans before.depth
  active := rest.active.trans before.active

theorem Steady.noted (world : World) {event : Event}
    (silent : ∀ active, event.stack active = active) : Steady world (world.note event) := by
  refine ⟨rfl, rfl, ?_⟩
  have noted : (world.note event).journal.toList = world.journal.toList ++ [event] := by simp
  exact (World.active_of_noted noted).trans (silent world.active)

theorem Course.steady {levels : Nat} {world after : World} {moments : List Moment}
    {outcome : Outcome World Unit} (course : Course levels world moments outcome)
    (ends : outcome.state? = some after) : Steady world after := by
  obtain ⟨_, _, persists⟩ := course.links persists_frames ends
  obtain ⟨events, noted, balanced⟩ := course.links balanced_frames ends
  exact ⟨persists.settings, persists.depth,
    (World.active_of_noted noted).trans (balanced.stack world.active)⟩

namespace Outcome

variable {α : Type} {ref : EntityRef} {moment : Moment}

theorem mem_leaving {outcome : Outcome World α} {activity : Activity}
    (member : moment ∈ outcome.leaving activity) :
    ∃ succeeded last, outcome.state? = some last ∧ moment = ⟨.leave activity succeeded, last⟩ := by
  cases outcome with
  | returned _ last => exact ⟨true, last, rfl, List.mem_singleton.mp member⟩
  | raised _ last => exact ⟨false, last, rfl, List.mem_singleton.mp member⟩
  | endless => cases member

theorem mem_isolating {outcome : Outcome World α} {phase : Phase}
    (member : moment ∈ outcome.isolating ref phase) :
    ∃ error last, outcome = .raised error last ∧
      moment = ⟨if last.settings.isolateErrors then .absorb ref phase error
        else .blame ref phase error, last⟩ := by
  cases outcome with
  | returned _ last => cases member
  | raised error last => exact ⟨error, last, rfl, List.mem_singleton.mp member⟩
  | endless => cases member

variable {outcome : Outcome World Unit} {last : World}

theorem state?_registered (ends : (outcome.registered ref).state? = some last) :
    ∃ ready, outcome.state? = some ready ∧ (last = ready.register ref ∨ last = ready) := by
  cases outcome with
  | returned _ ready =>
      cases ends
      exact ⟨ready, rfl, .inl rfl⟩
  | raised _ ready =>
      cases ends
      exact ⟨_, rfl, .inr rfl⟩
  | endless => cases ends

theorem state?_left {activity : Activity} (ends : (outcome.left activity).state? = some last) :
    ∃ middle succeeded, outcome.state? = some middle ∧
      last = middle.leave activity succeeded := by
  cases outcome with
  | returned _ middle =>
      cases ends
      exact ⟨middle, true, rfl, rfl⟩
  | raised _ middle =>
      cases ends
      exact ⟨middle, false, rfl, rfl⟩
  | endless => cases ends

theorem state?_ended {phase : Phase} (ends : (outcome.ended phase).state? = some last) :
    ∃ middle, outcome.state? = some middle ∧ last = middle.note (.ended phase) := by
  cases outcome with
  | returned _ middle | raised _ middle =>
      cases ends
      exact ⟨middle, rfl, rfl⟩
  | endless => cases ends

theorem state?_isolated {phase : Phase}
    (ends : (outcome.isolated ref phase).state? = some last) :
    ∃ middle, outcome.state? = some middle ∧
      (last = middle ∨ ∃ error, last = middle.log (.callFailed ref phase error)) := by
  cases outcome with
  | returned _ middle =>
      cases ends
      exact ⟨_, rfl, .inl rfl⟩
  | raised error middle =>
      refine ⟨middle, rfl, ?_⟩
      unfold isolated at ends
      dsimp only at ends
      split at ends
      · cases ends
        exact .inr ⟨error, rfl⟩
      · cases ends
        exact .inl rfl
  | endless => cases ends

end Outcome

/-- While a construction runs, also when what it made is registered, it is the innermost of what
is active. -/
theorem Course.steady_registered {levels : Nat} {world last : World} {moments : List Moment}
    {outcome : Outcome World Unit} {ref : EntityRef}
    (course : Course levels world moments outcome)
    (ends : (outcome.registered ref).state? = some last) : Steady world last := by
  obtain ⟨ready, reached, rfl | rfl⟩ := Outcome.state?_registered ends
  · have steady := course.steady reached
    exact ⟨steady.settings, steady.depth, by rw [World.active_register, steady.active]⟩
  · exact course.steady reached

theorem Course.steady_left {levels : Nat} {world last : World} {moments : List Moment}
    {outcome : Outcome World Unit} {activity : Activity}
    (course : Course levels (world.enter activity) moments outcome)
    (ends : (outcome.left activity).state? = some last) : Steady world last := by
  obtain ⟨middle, succeeded, reached, rfl⟩ := Outcome.state?_left ends
  have steady := course.steady reached
  refine ⟨steady.settings, ?_, ?_⟩
  · rw [World.depth_leave, steady.depth, World.depth_enter, Nat.add_sub_cancel]
  · rw [World.active_leave, steady.active, World.active_enter, List.tail_cons]

theorem World.steady_cleared (world : World) : Steady world world.cleared := by
  have begun : Steady world (world.note (.began .tick)) := .noted world fun _ => rfl
  refine begun.trans ?_
  obtain ⟨removal, noted, plain⟩ := (world.note (.began .tick)).removeDestroyed_notes
  refine ⟨settings_removeDestroyed _, depth_removeDestroyed _, ?_⟩
  have still : Balanced (world.note (.began .tick)) removal (world.note (.began .tick)) :=
    balanced_frames.unmoved (fun event member => .inl (plain event member)) rfl rfl rfl rfl
  exact (active_of_noted noted).trans (still.stack _)

theorem Operation.steady_entry (operation : Operation) (world : World) :
    Steady world (operation.entry world) := by
  have pumped : Steady world world.pumpInput := ⟨rfl, rfl, rfl⟩
  cases operation with
  | tickPhase delta => exact world.steady_cleared
  | step elapsed => exact pumped.trans world.pumpInput.steady_cleared
  | frameAt now => exact pumped.trans world.pumpInput.steady_cleared
  | _ => exact ⟨rfl, rfl, rfl⟩

theorem Session.Leads.ends {session after : Session} {operation : Operation}
    (leads : session.Leads operation after) :
    ((operation.perform session).over Session.world).state? = some after.world := by
  unfold Session.Leads at leads
  cases ran : operation.perform session <;> rw [ran] at leads <;> cases leads <;> rfl

theorem Session.Leads.steady {session after : Session} {operation : Operation}
    (leads : session.Leads operation after) : Steady session.world after.world :=
  (operation.steady_entry session.world).trans ((operation.course session).steady leads.ends)

theorem Session.Reachable.inactive {session : Session} (reachable : session.Reachable) :
    session.world.active = [] := by
  obtain ⟨settings, hasKeys, reaches⟩ := reachable
  induction reaches with
  | refl => rfl
  | step _ leads inductionHypothesis => exact leads.steady.active.trans inductionHypothesis

end EntityScript
