import EntityScript.Proofs.Depth
import EntityScript.Proofs.Lifecycle

/-!
Turns where failures do not go further.  One entity after another has its turn, whatever the
calls do and whether they fail: nothing but a body that never ends keeps the turns from coming
to an end.
-/

namespace EntityScript

open Script

namespace World

/-- Run a method of an entity, a level deeper and in a frame of its own.  What it starts is
what the host would start with the world as it is then. -/
def runMethod (world : World) (ref : EntityRef) (call : EntityCall) (method : Method) :
    Outcome World Unit :=
  runBody .current (Frame.ofCall ref method.parameters call.arguments) method.body
    (world.enter (.call ref call))

/-- A call is made into an entity when its turn comes, and the body that it starts never ends. -/
structure Hangs (world : World) (call : EntityCall) (id : EntityId) : Prop where
  due : world.due call id = true
  room : world.depth < maxCallDepth
  endless : ∃ ref method, world.ref? id = some ref ∧ world.method? call id = some method ∧
    world.runMethod ref call method = .endless

end World

/-- The turn of an entity: the world when it comes, what is noted in it, and the world after. -/
structure Turn where
  id : EntityId
  before : World
  events : List Event
  after : World

/-- How a turn goes.  An entity that is not due is passed over.  One that is due is refused at
the limit of call depth, and below it its method runs; in any case a failure is noted. -/
inductive Turn.Taken (call : EntityCall) : Turn → Prop where
  | passed {id world} : world.due call id = false → Taken call ⟨id, world, [], world⟩
  | refused {id world ref} :
      world.due call id = true → world.ref? id = some ref → maxCallDepth ≤ world.depth →
      Taken call ⟨id, world,
        [.refused (.call ref call),
          .logged (.callFailed ref call.phase (.recursionLimit maxCallDepth))],
        (world.note (.refused (.call ref call))).log
          (.callFailed ref call.phase (.recursionLimit maxCallDepth))⟩
  | returned {id world ref method nested last} :
      world.due call id = true → world.ref? id = some ref → world.depth < maxCallDepth →
      world.method? call id = some method →
      world.runMethod ref call method = .returned () last →
      last.journal.toList = (world.enter (.call ref call)).journal.toList ++ nested →
      Taken call ⟨id, world,
        .entered (.call ref call) :: nested ++ [.left (.call ref call) true],
        last.leave (.call ref call) true⟩
  | failed {id world ref method nested error last} :
      world.due call id = true → world.ref? id = some ref → world.depth < maxCallDepth →
      world.method? call id = some method →
      world.runMethod ref call method = .raised error last →
      last.journal.toList = (world.enter (.call ref call)).journal.toList ++ nested →
      Taken call ⟨id, world,
        .entered (.call ref call) :: nested ++
          [.left (.call ref call) false, .logged (.callFailed ref call.phase error)],
        (last.leave (.call ref call) false).log (.callFailed ref call.phase error)⟩

inductive Turns (call : EntityCall) : World → List Turn → World → Prop where
  | finished {world} : Turns call world [] world
  | turn {turn turns last} :
      turn.Taken call → Turns call turn.after turns last →
      Turns call turn.before (turn :: turns) last

/-- The turns of some entities, of which one hangs. -/
def World.HangsAmong (world : World) (call : EntityCall) (ids : List EntityId) : Prop :=
  ∃ turns middle id rest, ids = turns.map Turn.id ++ id :: rest ∧
    Turns call world turns middle ∧ middle.Hangs call id

namespace World

variable {R : History} {world after : World} {ref : EntityRef} {call : EntityCall}
  {method : Method}

theorem runMethod_links (covers : R.Covers)
    (ends : (world.runMethod ref call method).state? = some after) :
    R.Links (world.enter (.call ref call)) after := by
  rw [runMethod, ← runBody_current] at ends
  exact runBody_follows covers.toCoversEvaluation (calls_follow covers _) _ _ _ _ ends

theorem runMethod_nested (covers : R.Covers) {nested : List Event}
    (ends : (world.runMethod ref call method).state? = some after)
    (noted : after.journal.toList = (world.enter (.call ref call)).journal.toList ++ nested) :
    R (world.enter (.call ref call)) nested after := by
  obtain ⟨events, notedEvents, related⟩ := runMethod_links covers ends
  obtain rfl := List.append_cancel_left (noted.symm.trans notedEvents)
  exact related

theorem inner_of_room (room : world.depth < maxCallDepth) (activity : Activity) :
    world.inner = some (world.enter activity).calls := by
  obtain ⟨levels, left⟩ : ∃ levels, maxCallDepth - world.depth = levels + 1 :=
    ⟨maxCallDepth - world.depth - 1, by omega⟩
  have leftInside : maxCallDepth - (world.enter activity).depth = levels := by
    rw [depth_enter]
    omega
  rw [calls, inner, inner, left, leftInside, Calls.inside]

theorem inner_of_full (full : maxCallDepth ≤ world.depth) : world.inner = none := by
  rw [inner, Nat.sub_eq_zero_of_le full, Calls.inside]

theorem invoke_of_full (full : maxCallDepth ≤ world.depth) :
    invoke world.inner ref call method world =
      .raised (.recursionLimit maxCallDepth) (world.note (.refused (.call ref call))) := by
  rw [inner_of_full full]
  rfl

theorem invoke_of_room (room : world.depth < maxCallDepth) :
    invoke world.inner ref call method world =
      match world.runMethod ref call method with
      | .returned _ last => .returned () (last.leave (.call ref call) true)
      | .raised error last => .raised error (last.leave (.call ref call) false)
      | .endless => .endless := by
  rw [inner_of_room room (.call ref call), invoke, enter_some]
  unfold andThen runMethod
  rw [runBody_current]
  generalize runBody .current _ _ (world.enter (.call ref call)) = outcome
  cases outcome <;> rfl

end World

theorem World.inner_congr {world after : World} (depth : after.depth = world.depth) :
    after.inner = world.inner := by
  rw [inner, inner, depth]

/-- What a turn notes, and that it is a turn like any other. -/
theorem Turn.Taken.links {R : History} (covers : R.Covers) {call : EntityCall} {turn : Turn}
    (taken : turn.Taken call) :
    turn.after.journal.toList = turn.before.journal.toList ++ turn.events ∧
      TurnTaken R call turn.id turn.before turn.events turn.after := by
  cases taken with
  | passed notDue => exact ⟨by simp, .passed notDue⟩
  | refused due known _ => exact ⟨by simp, .failed due known .refused⟩
  | returned due known _ _ ran noted =>
      have related := World.runMethod_nested covers (by rw [ran]; rfl) noted
      exact ⟨by simp [noted], .called due known (.ran related)⟩
  | @failed id world ref method nested error last due known _ _ ran noted =>
      have related := World.runMethod_nested covers (by rw [ran]; rfl) noted
      have attempted : Attempted R (.call ref call) world
          (.entered (.call ref call) :: nested ++ [.left (.call ref call) false])
          (last.leave (.call ref call) false) := .ran related
      have whole := @TurnTaken.failed R call id world ref _ _ error due known attempted
      rw [List.append_assoc] at whole
      exact ⟨by simp [noted], whole⟩

theorem Turn.Taken.persists {call : EntityCall} {turn : Turn} (taken : turn.Taken call) :
    Persists turn.before turn.events turn.after :=
  Persists.turn (taken.links persists_covers).2

section Isolated

variable {world : World} (isolated : world.settings.isolateErrors = true)

include isolated

/-- A turn is taken, or the body that it starts never ends. -/
theorem deliver_isolated (call : EntityCall) (id : EntityId) :
    (∃ events after, Turn.Taken call ⟨id, world, events, after⟩ ∧
      deliver world.inner call id world = .returned (world.due call id) after) ∨
    world.Hangs call id ∧ deliver world.inner call id world = .endless := by
  cases due : world.due call id with
  | false => exact .inl ⟨[], world, .passed due, deliver_of_not_due due⟩
  | true =>
      obtain ⟨entity, method, found, answered, reached⟩ := World.method_of_due due
      have known : world.ref? id = some ⟨id, entity.type.name⟩ := by simp [World.ref?, found]
      have methodKnown : world.method? call id = some method := by
        simp [World.method?, World.type?, found, answered]
      rw [deliver_of_due found answered reached]
      rcases Nat.lt_or_ge world.depth maxCallDepth with room | full
      · rw [World.invoke_of_room room]
        cases ran : world.runMethod ⟨id, entity.type.name⟩ call method with
        | returned _ last =>
            obtain ⟨nested, noted, _⟩ := World.runMethod_links persists_covers
              (by rw [ran]; rfl)
            exact .inl ⟨_, _, .returned due known room methodKnown ran noted, rfl⟩
        | raised error last =>
            obtain ⟨nested, noted, persists⟩ := World.runMethod_links persists_covers
              (by rw [ran]; rfl)
            have stillIsolated : (last.leave (.call ⟨id, entity.type.name⟩ call)
                false).settings.isolateErrors = true := by
              rw [World.settings_leave, persists.settings]
              exact isolated
            refine .inl ⟨_, _, .failed due known room methodKnown ran noted, ?_⟩
            simp only [stillIsolated, if_true]
        | endless => exact .inr ⟨⟨due, room, _, _, known, methodKnown, ran⟩, rfl⟩
      · rw [World.invoke_of_full full]
        refine .inl ⟨_, _, .refused due known full, ?_⟩
        simp only [World.settings_note, isolated, if_true]

theorem deliverAll_isolated (call : EntityCall) (ids : List EntityId) :
    (∃ turns last, turns.map Turn.id = ids ∧ Turns call world turns last ∧
      deliverAll world.inner call ids world =
        .returned (turns.countP fun turn => turn.before.due call turn.id) last) ∨
    world.HangsAmong call ids ∧ deliverAll world.inner call ids world = .endless := by
  induction ids generalizing world with
  | nil => exact .inl ⟨[], world, rfl, .finished, rfl⟩
  | cons id rest inductionHypothesis =>
      change (∃ turns last, _ ∧ _ ∧ Script.bind (deliver world.inner call id) _ world = _) ∨
        _ ∧ Script.bind (deliver world.inner call id) _ world = _
      rcases deliver_isolated isolated call id with ⟨events, after, taken, ran⟩ | ⟨hangs, ran⟩
      · have persists := taken.persists
        have inner := World.inner_congr persists.depth
        have stillIsolated : after.settings.isolateErrors = true := by
          rw [persists.settings]
          exact isolated
        simp only [Script.bind, ran]
        change (∃ turns last, _ ∧ _ ∧ Script.bind (deliverAll world.inner call rest) _ after = _) ∨
          _ ∧ Script.bind (deliverAll world.inner call rest) _ after = _
        rw [← inner]
        rcases inductionHypothesis stillIsolated with
          ⟨turns, last, rfl, chain, ranRest⟩ |
          ⟨⟨turns, middle, other, others, rfl, chain, hangs⟩, ranRest⟩
        · refine .inl ⟨_ :: turns, last, rfl, .turn taken chain, ?_⟩
          simp only [Script.bind, ranRest, List.countP_cons]
          cases world.due call id <;> rfl
        · refine .inr ⟨⟨_ :: turns, middle, other, others, rfl, .turn taken chain, hangs⟩, ?_⟩
          simp only [Script.bind, ranRest]
      · refine .inr ⟨⟨[], world, id, rest, rfl, .finished, hangs⟩, ?_⟩
        simp only [Script.bind, ran]

end Isolated

section Turns

variable {call : EntityCall} {world last : World} {turns : List Turn}

theorem Turns.noted (chain : Turns call world turns last) :
    last.journal.toList = world.journal.toList ++ turns.flatMap Turn.events := by
  induction chain with
  | finished => simp
  | turn taken _ inductionHypothesis =>
      rw [inductionHypothesis, (taken.links persists_covers).1, List.flatMap_cons,
        List.append_assoc]

theorem Turns.taken (chain : Turns call world turns last) :
    ∀ turn ∈ turns, turn.Taken call := by
  induction chain with
  | finished => simp
  | turn taken _ inductionHypothesis => exact List.forall_mem_cons.mpr ⟨taken, inductionHypothesis⟩

theorem Turns.persists (chain : Turns call world turns last) :
    Persists world (turns.flatMap Turn.events) last := by
  induction chain with
  | finished => exact Persists.composes.idle
  | turn taken _ inductionHypothesis =>
      rw [List.flatMap_cons]
      exact taken.persists.append inductionHypothesis

theorem Turns.persists_before (chain : Turns call world turns last) :
    ∀ turn ∈ turns, ∃ events, Persists world events turn.before := by
  induction chain with
  | finished => simp
  | turn taken _ inductionHypothesis =>
      refine List.forall_mem_cons.mpr ⟨⟨[], Persists.composes.idle⟩, ?_⟩
      intro other member
      obtain ⟨events, persists⟩ := inductionHypothesis other member
      exact ⟨_, taken.persists.append persists⟩

end Turns

namespace Turn

variable {call : EntityCall} {turn : Turn}

/-- The call with which a turn begins, unless the entity is passed over. -/
def attempted? (turn : Turn) : Option (EntityId × Phase) :=
  turn.events.head?.bind Event.attempted?

theorem Taken.attempted?_eq (taken : turn.Taken call) :
    turn.attempted? =
      if turn.before.due call turn.id then some (turn.id, call.phase) else none := by
  cases taken with
  | passed notDue => simp [notDue, attempted?]
  | refused due known _ =>
      simp [due, attempted?, Event.attempted?, World.id_of_ref? known]
  | returned due known _ _ _ _ =>
      simp [due, attempted?, Event.attempted?, World.id_of_ref? known]
  | failed due known _ _ _ _ =>
      simp [due, attempted?, Event.attempted?, World.id_of_ref? known]

theorem Taken.entered (taken : turn.Taken call) (due : turn.before.due call turn.id = true)
    (room : turn.before.depth < maxCallDepth) :
    ∃ ref rest, turn.before.ref? turn.id = some ref ∧
      turn.events = .entered (.call ref call) :: rest := by
  cases taken with
  | passed notDue => simp [notDue] at due
  | refused _ _ full => exact absurd room (Nat.not_lt.mpr full)
  | returned _ known _ _ _ _ => exact ⟨_, _, known, rfl⟩
  | failed _ known _ _ _ _ => exact ⟨_, _, known, rfl⟩

theorem Taken.refusal (taken : turn.Taken call) (due : turn.before.due call turn.id = true)
    (full : maxCallDepth ≤ turn.before.depth) :
    ∃ ref, turn.before.ref? turn.id = some ref ∧
      turn.events = [.refused (.call ref call),
        .logged (.callFailed ref call.phase (.recursionLimit maxCallDepth))] := by
  cases taken with
  | passed notDue => simp [notDue] at due
  | refused _ known _ => exact ⟨_, known, rfl⟩
  | returned _ _ room _ _ _ => exact absurd room (Nat.not_lt.mpr full)
  | failed _ _ room _ _ _ => exact absurd room (Nat.not_lt.mpr full)

/-- Of the calls that are not to handlers a turn starts its own at the most. -/
theorem Taken.started (taken : turn.Taken call) (room : turn.before.depth < maxCallDepth)
    {phase : Phase} (apart : phase ≠ .handler) :
    turn.events.filterMap (Event.started? phase) =
      if turn.before.due call turn.id = true ∧ call.phase = phase then [turn.id] else [] := by
  have nothing : ∀ {world events after}, Handles world events after →
      events.filterMap (Event.started? phase) = [] := by
    intro world events after handles
    apply List.filterMap_eq_nil_iff.mpr
    intro event member
    cases found : event.started? phase with
    | none => rfl
    | some id =>
        have called := Event.attempted?_of_started? found
        exact absurd (handles.attempts (List.mem_filterMap.mpr ⟨event, member, called⟩)).1 apart
  have bracket : ∀ {id ref nested last rest}, turn.before.due call id = true →
      ref.id = id → Handles (turn.before.enter (.call ref call)) nested last →
      rest.filterMap (Event.started? phase) = [] →
      (Event.entered (.call ref call) :: nested ++ rest).filterMap (Event.started? phase) =
        if turn.before.due call id = true ∧ call.phase = phase then [id] else [] := by
    intro id ref nested last rest due same handles silent
    rw [List.cons_append, List.filterMap_cons, List.filterMap_append, nothing handles, silent]
    by_cases kind : call.phase = phase <;> simp [Event.started?, kind, due, same]
  cases taken with
  | passed notDue => simp [notDue]
  | refused _ _ full => exact absurd room (Nat.not_lt.mpr full)
  | returned due known _ _ ran noted =>
      exact bracket due (World.id_of_ref? known)
        (World.runMethod_nested handles_covers (by rw [ran]; rfl) noted) rfl
  | failed due known _ _ ran noted =>
      exact bracket due (World.id_of_ref? known)
        (World.runMethod_nested handles_covers (by rw [ran]; rfl) noted) rfl

end Turn

section Turns

variable {call : EntityCall} {world last : World} {turns : List Turn}

theorem Turns.attempted (chain : Turns call world turns last) :
    turns.filterMap Turn.attempted? =
      (turns.filter fun turn => turn.before.due call turn.id).map fun turn =>
        (turn.id, call.phase) := by
  induction chain with
  | finished => rfl
  | @turn turn _ _ taken _ inductionHypothesis =>
      have attempted := taken.attempted?_eq
      cases due : turn.before.due call turn.id <;>
        simp [due, attempted, inductionHypothesis]

section Started

variable (chain : Turns call world turns last) (room : world.depth < maxCallDepth)

include chain room

theorem Turns.started (apart : call.phase ≠ .handler) :
    (turns.flatMap Turn.events).filterMap (Event.started? call.phase) =
      (turns.filter fun turn => turn.before.due call turn.id).map Turn.id := by
  induction chain with
  | finished => rfl
  | @turn turn _ _ taken _ inductionHypothesis =>
      have others := inductionHypothesis (by rwa [taken.persists.depth])
      rw [List.flatMap_cons, List.filterMap_append, taken.started room apart, others]
      cases due : turn.before.due call turn.id <;> simp [due]

theorem Turns.started_other {phase : Phase} (apart : phase ≠ .handler)
    (other : call.phase ≠ phase) :
    (turns.flatMap Turn.events).filterMap (Event.started? phase) = [] := by
  induction chain with
  | finished => rfl
  | turn taken _ inductionHypothesis =>
      rw [List.flatMap_cons, List.filterMap_append, taken.started room apart,
        inductionHypothesis (by rwa [taken.persists.depth])]
      simp [other]

end Started

end Turns

theorem Persists.method? {world after : World} {events : List Event}
    (persists : Persists world events after) {id : Nat} (made : id < world.entities.size)
    (call : EntityCall) : after.method? call id = world.method? call id := by
  have known : world.type? id = some world.entities[id].type := by
    simp [World.type?, World.entity?, made]
  rw [World.method?, World.method?, persists.types known, known]

section Turns

variable {call : EntityCall} {world last : World} {turns : List Turn}
  (reaches : call.reachesDestroyed = true)
  (made : ∀ turn ∈ turns, turn.id < world.entities.size)

include reaches made

/-- A call that destroyed entities get as well is made into every entity that answers it. -/
theorem Turns.due_eq (chain : Turns call world turns last) :
    ∀ turn ∈ turns, turn.before.due call turn.id = world.answers call turn.id := by
  intro turn member
  obtain ⟨_, persists⟩ := chain.persists_before turn member
  simp [World.due, World.answers, reaches, persists.method? (made turn member)]

theorem Turns.due_ids (chain : Turns call world turns last) :
    (turns.filter fun turn => turn.before.due call turn.id).map Turn.id =
      (turns.map Turn.id).filter (world.answers call) := by
  rw [List.filter_map]
  congr 1
  exact List.filter_congr fun turn member => chain.due_eq reaches made turn member

end Turns

end EntityScript
