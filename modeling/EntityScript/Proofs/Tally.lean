import EntityScript.Proofs.Account

/-!
Reading a journal with an eye on entities that are marked for removal.  A tally keeps which
entities are marked and what the tick phase that goes on may still do.  It tells which calls
into entities and which constructions are in order, and a journal is lawful if it has no others.
-/

namespace EntityScript

/-- What a journal tells so far. -/
structure Tally where
  marked : List EntityId
  /-- The entities that were marked when the last tick phase began. -/
  removed : List EntityId
  /-- Whether a tick phase goes on. -/
  ticking : Bool
  /-- The entities ticked since the last tick phase began. -/
  ticked : List EntityId

namespace Tally

def start : Tally := ⟨[], [], false, []⟩

/-- The tally after an event more. -/
def read (tally : Tally) : Event → Tally
  | .began .tick => ⟨tally.marked, tally.marked, true, []⟩
  | .ended .tick => { tally with ticking := false }
  | event =>
      { tally with
        marked := tally.marked ++ event.marked?.toList
        ticked := tally.ticked ++ event.ticked?.toList }

def readAll (tally : Tally) (events : List Event) : Tally := events.foldl read tally

/-- A call into an entity is in order: the entity was not marked before the last tick phase
began, it is not marked at all if it is to render, and it is ticked once in a phase. -/
structure Allows (tally : Tally) (id : EntityId) (phase : Phase) : Prop where
  present : id ∉ tally.removed
  render : phase = .render → id ∉ tally.marked
  tick : phase = .tick → tally.ticking = true ∧ id ∉ tally.ticked

/-- A call that the event makes is in order, and no construction of a removed entity is
completed. -/
structure Admits (tally : Tally) (event : Event) : Prop where
  calls {id phase} : event.attempted? = some (id, phase) → tally.Allows id phase
  completes {id} : event.completed? = some id → id ∉ tally.removed

/-- Each of the events is in order when it happens. -/
def Lawful (tally : Tally) : List Event → Prop
  | [] => True
  | event :: rest => tally.Admits event ∧ (tally.read event).Lawful rest

variable {tally : Tally} {id : EntityId} {events more : List Event}

@[simp]
theorem readAll_nil (tally : Tally) : tally.readAll [] = tally := rfl

theorem readAll_cons (tally : Tally) (event : Event) (rest : List Event) :
    tally.readAll (event :: rest) = (tally.read event).readAll rest := rfl

theorem readAll_append (tally : Tally) (events more : List Event) :
    tally.readAll (events ++ more) = (tally.readAll events).readAll more :=
  List.foldl_append

theorem lawful_append :
    tally.Lawful (events ++ more) ↔
      tally.Lawful events ∧ (tally.readAll events).Lawful more := by
  induction events generalizing tally with
  | nil => simp [Lawful]
  | cons event rest inductionHypothesis =>
      simp only [List.cons_append, Lawful, readAll_cons, inductionHypothesis, and_assoc]

theorem read_of_inside {event : Event} (inside : ¬ event.Boundary) :
    tally.read event =
      { tally with
        marked := tally.marked ++ event.marked?.toList
        ticked := tally.ticked ++ event.ticked?.toList } := by
  cases event with
  | began phase => exact absurd ⟨phase, .inl rfl⟩ inside
  | ended phase => exact absurd ⟨phase, .inr rfl⟩ inside
  | _ => rfl

theorem marked_read (tally : Tally) (event : Event) :
    (tally.read event).marked = tally.marked ++ event.marked?.toList := by
  cases event with
  | began phase => cases phase <;> simp [read, Event.marked?]
  | ended phase => cases phase <;> simp [read, Event.marked?]
  | _ => rfl

theorem removed_read (event : Event) (marked : id ∈ tally.marked)
    (removed : id ∈ tally.removed) : id ∈ (tally.read event).removed := by
  cases event with
  | began phase =>
      cases phase with
      | tick => exact marked
      | _ => exact removed
  | ended phase => cases phase <;> exact removed
  | _ => exact removed

/-- The entity can be ticked no more in the tick phase that goes on, if one does. -/
def Spent (tally : Tally) (id : EntityId) : Prop :=
  tally.ticking = false ∨ id ∈ tally.ticked ∨ id ∈ tally.removed

theorem Spent.read (event : Event) (marked : id ∈ tally.marked) (spent : tally.Spent id) :
    (tally.read event).Spent id := by
  cases event with
  | began phase =>
      cases phase with
      | tick => exact .inr (.inr marked)
      | _ => simpa [Tally.read, Spent, Event.ticked?, Event.attempted?] using spent
  | ended phase =>
      cases phase with
      | tick => exact .inl rfl
      | _ => simpa [Tally.read, Spent, Event.ticked?, Event.attempted?] using spent
  | _ =>
      rcases spent with idle | ticked | removed
      · exact .inl idle
      · exact .inr (.inl (List.mem_append_left _ ticked))
      · exact .inr (.inr removed)

theorem marked_readAll (tally : Tally) (events : List Event) :
    (tally.readAll events).marked = tally.marked ++ events.filterMap Event.marked? := by
  induction events generalizing tally with
  | nil => simp
  | cons event rest inductionHypothesis =>
      rw [readAll_cons, inductionHypothesis, marked_read, List.append_assoc]
      cases found : event.marked? <;> simp [found]

theorem readAll_of_inside (inside : ∀ event ∈ events, ¬ event.Boundary) :
    tally.readAll events =
      { tally with
        marked := tally.marked ++ events.filterMap Event.marked?
        ticked := tally.ticked ++ events.filterMap Event.ticked? } := by
  induction events generalizing tally with
  | nil => simp
  | cons event rest inductionHypothesis =>
      rw [readAll_cons, inductionHypothesis fun other member => inside other (by simp [member]),
        read_of_inside (inside event (by simp))]
      cases marks : event.marked? <;> cases ticks : event.ticked? <;>
        simp [marks, ticks]

theorem removed_readAll (marked : id ∈ tally.marked) (removed : id ∈ tally.removed) :
    id ∈ (tally.readAll events).removed := by
  induction events generalizing tally with
  | nil => exact removed
  | cons event rest inductionHypothesis =>
      refine inductionHypothesis ?_ (removed_read event marked removed)
      rw [marked_read]
      exact List.mem_append_left _ marked

/-- Only the beginning of a tick phase removes entities. -/
theorem removed_readAll_eq (within : .began .tick ∉ events) :
    (tally.readAll events).removed = tally.removed := by
  induction events generalizing tally with
  | nil => rfl
  | cons event rest inductionHypothesis =>
      rw [readAll_cons, inductionHypothesis fun begins => within (by simp [begins])]
      cases event with
      | began phase =>
          cases phase with
          | tick => exact absurd (by simp) within
          | _ => rfl
      | ended phase => cases phase <;> rfl
      | _ => rfl

/-- A tick phase goes on if it went on before and no other began and none ended, or if it is
the last that began and has not ended. -/
theorem ticking_readAll (goesOn : (tally.readAll events).ticking = true) :
    tally.ticking = true ∧ .began .tick ∉ events ∧ .ended .tick ∉ events ∨
      ∃ outer inner, events = outer ++ .began .tick :: inner ∧
        .began .tick ∉ inner ∧ .ended .tick ∉ inner := by
  induction events generalizing tally with
  | nil => exact .inl ⟨goesOn, by simp, by simp⟩
  | cons event rest inductionHypothesis =>
      rcases inductionHypothesis goesOn with ⟨ticking, alone, lasting⟩ | ⟨outer, inner, rfl, last⟩
      · by_cases begins : event = .began .tick
        · exact .inr ⟨[], rest, by rw [begins]; rfl, alone, lasting⟩
        · by_cases ends : event = .ended .tick
          · subst ends
            simp [read] at ticking
          · refine .inl ⟨?_, by simp [Ne.symm begins, alone], by simp [Ne.symm ends, lasting]⟩
            cases event with
            | began phase => cases phase <;> first | exact ticking | exact absurd rfl begins
            | ended phase => cases phase <;> first | exact ticking | exact absurd rfl ends
            | _ => exact ticking
      · exact .inr ⟨event :: outer, inner, rfl, last⟩

theorem lawful_of_idle (uncalled : ∀ event ∈ events, event.attempted? = none)
    (uncompleted : ∀ event ∈ events, event.completed? = none) : tally.Lawful events := by
  induction events generalizing tally with
  | nil => trivial
  | cons event rest inductionHypothesis =>
      obtain ⟨callsNot, callNot⟩ := List.forall_mem_cons.mp uncalled
      obtain ⟨completesNot, completeNot⟩ := List.forall_mem_cons.mp uncompleted
      exact ⟨⟨by simp [callsNot], by simp [completesNot]⟩, inductionHypothesis callNot completeNot⟩

/-- Between the boundaries of phases, handlers and constructions of entities that are not removed
are lawful. -/
theorem lawful_of_inside (inside : ∀ event ∈ events, ¬ event.Boundary)
    (handlers : ∀ event ∈ events, ∀ id phase, event.attempted? = some (id, phase) →
      phase = .handler ∧ id ∉ tally.removed)
    (constructions : ∀ event ∈ events, ∀ id, event.completed? = some id → id ∉ tally.removed) :
    tally.Lawful events := by
  induction events generalizing tally with
  | nil => trivial
  | cons event rest inductionHypothesis =>
      obtain ⟨insideFirst, insideRest⟩ := List.forall_mem_cons.mp inside
      obtain ⟨handlersFirst, handlersRest⟩ := List.forall_mem_cons.mp handlers
      obtain ⟨constructionFirst, constructionsRest⟩ := List.forall_mem_cons.mp constructions
      refine ⟨⟨?_, constructionFirst _⟩, ?_⟩
      · intro id phase called
        obtain ⟨rfl, present⟩ := handlersFirst id phase called
        exact ⟨present, by simp, by simp⟩
      · apply inductionHypothesis insideRest
        · rw [read_of_inside insideFirst]
          exact handlersRest
        · rw [read_of_inside insideFirst]
          exact constructionsRest

theorem mem_marked_read (event : Event) (marked : id ∈ tally.marked) :
    id ∈ (tally.read event).marked := by
  rw [marked_read]
  exact List.mem_append_left _ marked

/-- Nothing is seen while events preserve what puts it out of order. -/
theorem Lawful.never {α : Type} {seen? : Event → Option α} {seen : α} (forbidden : Tally → Prop)
    (stays : ∀ {tally : Tally} (event : Event), forbidden tally → forbidden (tally.read event))
    (refuses : ∀ {tally : Tally} {event : Event}, forbidden tally → tally.Admits event →
      seen? event ≠ some seen)
    (lawful : tally.Lawful events) (holds : forbidden tally) : seen ∉ events.filterMap seen? := by
  induction events generalizing tally with
  | nil => simp
  | cons event rest inductionHypothesis =>
      rw [List.mem_filterMap]
      rintro ⟨other, member, sees⟩
      rcases List.mem_cons.mp member with rfl | inRest
      · exact refuses holds lawful.1 sees
      · exact inductionHypothesis lawful.2 (stays event holds)
          (List.mem_filterMap.mpr ⟨other, inRest, sees⟩)

theorem Lawful.unrendered (lawful : tally.Lawful events) (marked : id ∈ tally.marked) :
    (id, .render) ∉ events.filterMap Event.attempted? := by
  apply lawful.never (fun tally => id ∈ tally.marked) mem_marked_read ?_ marked
  intro tally event marked admits called
  exact (admits.calls called).render rfl marked

section Removed

variable (lawful : tally.Lawful events) (marked : id ∈ tally.marked)
  (removed : id ∈ tally.removed)

include lawful marked removed

theorem Lawful.uncalled (phase : Phase) : (id, phase) ∉ events.filterMap Event.attempted? := by
  apply lawful.never (fun tally => id ∈ tally.marked ∧ id ∈ tally.removed) ?_ ?_ ⟨marked, removed⟩
  · rintro tally event ⟨marked, removed⟩
    exact ⟨mem_marked_read event marked, removed_read event marked removed⟩
  · rintro tally event ⟨_, removed⟩ admits called
    exact (admits.calls called).present removed

theorem Lawful.uncompleted : id ∉ events.filterMap Event.completed? := by
  apply lawful.never (fun tally => id ∈ tally.marked ∧ id ∈ tally.removed) ?_ ?_ ⟨marked, removed⟩
  · rintro tally event ⟨marked, removed⟩
    exact ⟨mem_marked_read event marked, removed_read event marked removed⟩
  · rintro tally event ⟨_, removed⟩ admits completes
    exact admits.completes completes removed

end Removed

theorem Lawful.unticked (lawful : tally.Lawful events) (marked : id ∈ tally.marked)
    (spent : tally.Spent id) : (id, .tick) ∉ events.filterMap Event.attempted? := by
  apply lawful.never (fun tally => id ∈ tally.marked ∧ tally.Spent id) ?_ ?_ ⟨marked, spent⟩
  · rintro tally event ⟨marked, spent⟩
    exact ⟨mem_marked_read event marked, spent.read event marked⟩
  · rintro tally event ⟨_, idle | ticked | removed⟩ admits ticks
    · exact absurd ((admits.calls ticks).tick rfl).1 (by simp [idle])
    · exact ((admits.calls ticks).tick rfl).2 ticked
    · exact (admits.calls ticks).present removed

theorem spent_of_ticked {event : Event} (ticks : event.attempted? = some (id, .tick)) :
    (tally.read event).Spent id := by
  refine .inr (.inl ?_)
  have inside : ¬ event.Boundary := by
    rintro ⟨phase, rfl | rfl⟩ <;> cases ticks
  rw [read_of_inside inside]
  simp [Event.ticked?, ticks]

theorem Lawful.ticked_once (lawful : tally.Lawful events) (marked : id ∈ tally.marked) :
    (events.filterMap Event.attempted?).count (id, .tick) ≤ 1 := by
  induction events generalizing tally with
  | nil => simp
  | cons event rest inductionHypothesis =>
      have markedLater := mem_marked_read event marked
      by_cases ticks : event.attempted? = some (id, .tick)
      · have never : (rest.filterMap Event.attempted?).count (id, .tick) = 0 :=
          List.count_eq_zero_of_not_mem
            (lawful.2.unticked markedLater (spent_of_ticked ticks))
        rw [List.filterMap_cons_some ticks, List.count_cons_self]
        omega
      · have once := inductionHypothesis lawful.2 markedLater
        cases called : event.attempted? with
        | none => rwa [List.filterMap_cons_none called]
        | some other =>
            rw [List.filterMap_cons_some called, List.count_cons_of_ne]
            · exact once
            · rintro rfl
              exact ticks called

/-- When a marked entity is ticked, it is in a tick phase that has gone on all the while. -/
theorem Lawful.ticked_within {event : Event} {rest : List Event}
    (lawful : tally.Lawful (events ++ event :: rest)) (marked : id ∈ tally.marked)
    (ticks : event.attempted? = some (id, .tick)) :
    tally.ticking = true ∧ .began .tick ∉ events ∧ .ended .tick ∉ events := by
  have unspent : ∀ between more, events = between ++ more →
      ¬ (tally.readAll between).Spent id := by
    rintro between more rfl spent
    rw [List.append_assoc, lawful_append] at lawful
    have markedLater : id ∈ (tally.readAll between).marked := by
      rw [marked_readAll]
      exact List.mem_append_left _ marked
    refine lawful.2.unticked markedLater spent (List.mem_filterMap.mpr ⟨event, ?_, ticks⟩)
    simp
  refine ⟨?_, ?_, ?_⟩
  · cases ticking : tally.ticking with
    | true => rfl
    | false => exact absurd (.inl ticking) (unspent [] events rfl)
  · intro begins
    obtain ⟨between, more, rfl⟩ := List.append_of_mem begins
    apply unspent (between ++ [.began .tick]) more (by simp)
    rw [readAll_append]
    exact .inr (.inr (by simp [readAll_cons, read, marked_readAll, marked]))
  · intro ends
    obtain ⟨between, more, rfl⟩ := List.append_of_mem ends
    apply unspent (between ++ [.ended .tick]) more (by simp)
    rw [readAll_append]
    exact .inl rfl

end Tally

end EntityScript
