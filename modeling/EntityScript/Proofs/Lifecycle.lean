import EntityScript.Proofs.Handling
import EntityScript.Proofs.Tally

/-!
The life of an entity after it is marked for removal.  Journals are lawful: a marked entity
renders no more, it ticks once more at the most, in a tick phase that went on when it was
marked, and the next tick phase removes it for good.
-/

namespace EntityScript

open Session

/-- All that is known of what scripts do. -/
abbrev Scripted : History := History.And Grows (History.And Persists Handles)

theorem scripted_host : History.CoversHost Scripted :=
  grows_frames.toCoversHost.and (persists_frames.toCoversHost.and handles_host)

/-- The world is what a tally tells of it, and none of the removed entities is registered. -/
structure Orderly (tally : Tally) (world : World) : Prop where
  marked {id} : world.isDestroyed id = true ↔ id ∈ tally.marked
  removed {id} : id ∈ tally.removed → id ∈ tally.marked
  present {id} : id ∈ world.registry → id ∉ tally.removed

/-- A stretch of the turn of an entity: it is lawful, it leads to a world in order, and it leaves
what the tick phase may still do for other entities. -/
structure Stretch (tally : Tally) (id : EntityId) (events : List Event) (after : World) : Prop where
  lawful : tally.Lawful events
  orderly : Orderly (tally.readAll events) after
  ticking : (tally.readAll events).ticking = tally.ticking
  ticked {other} : other ∈ (tally.readAll events).ticked → other ∈ tally.ticked ∨ other = id

namespace Stretch

variable {tally : Tally} {id : EntityId} {world after : World} {events more : List Event}

theorem idle (orderly : Orderly tally world) : Stretch tally id [] world :=
  ⟨trivial, orderly, rfl, .inl⟩

theorem append (first : Stretch tally id events world)
    (rest : Stretch (tally.readAll events) id more after) :
    Stretch tally id (events ++ more) after where
  lawful := Tally.lawful_append.mpr ⟨first.lawful, rest.lawful⟩
  orderly := by
    rw [Tally.readAll_append]
    exact rest.orderly
  ticking := by rw [Tally.readAll_append, rest.ticking, first.ticking]
  ticked {other} ticked := by
    rw [Tally.readAll_append] at ticked
    rcases rest.ticked ticked with before | rfl
    · exact first.ticked before
    · exact .inr rfl

theorem single {event : Event} (orderly : Orderly tally world) (inside : ¬ event.Boundary)
    (unmarked : event.marked? = none) (uncompleted : event.completed? = none)
    (allowed : ∀ other phase, event.attempted? = some (other, phase) →
      other = id ∧ tally.Allows id phase)
    (registry : after.registry = world.registry) (marks : after.isDestroyed = world.isDestroyed) :
    Stretch tally id [event] after := by
  have tallied : tally.readAll [event] =
      { tally with ticked := tally.ticked ++ event.ticked?.toList } := by
    rw [Tally.readAll_cons, Tally.readAll_nil, Tally.read_of_inside inside]
    simp [unmarked]
  refine ⟨⟨⟨?_, by simp [uncompleted]⟩, trivial⟩, ?_, by rw [tallied], ?_⟩
  · intro other phase called
    obtain ⟨rfl, allows⟩ := allowed other phase called
    exact allows
  · rw [tallied]
    refine ⟨?_, orderly.removed, ?_⟩
    · intro other
      rw [marks]
      exact orderly.marked
    · intro other here
      rw [registry] at here
      exact orderly.present here
  · intro other ticked
    rw [tallied, List.mem_append] at ticked
    rcases ticked with before | now
    · exact .inl before
    · right
      obtain ⟨⟨called, phase⟩, attempted, ticks⟩ :=
        Option.bind_eq_some_iff.mp (Option.mem_toList.mp now)
      obtain ⟨rfl, _⟩ := allowed called phase attempted
      by_cases tick : phase = .tick
      · simpa [tick, eq_comm] using ticks
      · simp [tick] at ticks

end Stretch

theorem World.made_of_isDestroyed {world : World} {id : Nat}
    (marked : world.isDestroyed id = true) : id < world.entities.size := by
  cases found : world.entity? id with
  | none => simp [World.isDestroyed, found] at marked
  | some entity => exact (Array.getElem?_eq_some_iff.mp found).1

theorem Event.ticked?_eq_nil {events : List Event}
    (handlers : ∀ id phase, (id, phase) ∈ events.filterMap Event.attempted? →
      phase = .handler) : events.filterMap Event.ticked? = [] := by
  apply List.filterMap_eq_nil_iff.mpr
  intro event member
  cases called : event.attempted? with
  | none => simp [ticked?, called]
  | some attempt =>
      obtain ⟨id, phase⟩ := attempt
      obtain rfl := handlers id phase (List.mem_filterMap.mpr ⟨event, member, called⟩)
      simp [ticked?, called]

section

variable {tally : Tally} {id : EntityId} {world after : World} {events : List Event}

/-- Scripts are lawful: they call handlers of registered entities, and what they register has
not been marked. -/
theorem Orderly.scripts (orderly : Orderly tally world)
    (scripted : Scripted world events after) : Stretch tally id events after := by
  obtain ⟨grows, persists, handles⟩ := scripted
  have unticked := Event.ticked?_eq_nil fun _ _ called => (handles.attempts called).1
  have tallied := @Tally.readAll_of_inside tally events handles.inside
  rw [unticked, List.append_nil] at tallied
  have present : ∀ {other}, other ∈ after.registry → other ∉ tally.removed := by
    intro other here removed
    rw [grows.registry, List.mem_append] at here
    rcases here with old | new
    · exact orderly.present old removed
    · have fresh := (grows.fresh new).1
      have made := World.made_of_isDestroyed (orderly.marked.mpr (orderly.removed removed))
      omega
  refine ⟨Tally.lawful_of_inside handles.inside ?_ ?_, ⟨?_, ?_, ?_⟩, ?_, ?_⟩
  · intro event member other phase called
    obtain ⟨handler, here⟩ := handles.attempts (List.mem_filterMap.mpr ⟨event, member, called⟩)
    exact ⟨handler, present here⟩
  · intro event member other completed
    apply present
    rw [grows.registry]
    exact List.mem_append_right _ (List.mem_filterMap.mpr ⟨event, member, completed⟩)
  · intro other
    rw [persists.marks, orderly.marked, Tally.marked_readAll, List.mem_append]
  · intro other removed
    rw [tallied] at removed
    rw [Tally.marked_readAll]
    exact List.mem_append_left _ (orderly.removed removed)
  · intro other here
    rw [tallied]
    exact present here
  · rw [tallied]
  · intro other ticked
    rw [tallied] at ticked
    exact .inl ticked

theorem Orderly.turn (orderly : Orderly tally world) {call : EntityCall}
    (allowed : world.due call id = true → tally.Allows id call.phase)
    (taken : TurnTaken Scripted call id world events after) : Stretch tally id events after := by
  have attempted : ∀ {ref events after}, world.due call id = true → world.ref? id = some ref →
      Attempted Scripted (.call ref call) world events after →
      Stretch tally id events after := by
    intro ref events after due known attempted
    have same := World.id_of_ref? known
    cases attempted with
    | refused =>
        refine .single orderly (by simp [Event.Boundary]) rfl rfl ?_ rfl rfl
        intro other phase called
        obtain ⟨rfl, rfl⟩ := Prod.mk.inj (Option.some.inj called)
        exact ⟨same, allowed due⟩
    | ran inside =>
        have entered : Stretch tally id [.entered (.call ref call)]
            (world.enter (.call ref call)) := by
          refine .single orderly (by simp [Event.Boundary]) rfl rfl ?_ rfl rfl
          intro other phase called
          obtain ⟨rfl, rfl⟩ := Prod.mk.inj (Option.some.inj called)
          exact ⟨same, allowed due⟩
        have ran := entered.append (entered.orderly.scripts inside)
        exact ran.append (.single ran.orderly (by simp [Event.Boundary]) rfl rfl
          (by simp [Event.attempted?]) rfl rfl)
  cases taken with
  | passed => exact .idle orderly
  | called due known call => exact attempted due known call
  | failed due known call =>
      have ran := attempted due known call
      exact ran.append (.single ran.orderly (by simp [Event.Boundary]) rfl rfl
        (by simp [Event.attempted?]) rfl rfl)

/-- A call that is made is in order, if a tick is one that the tick phase may still do. -/
theorem Orderly.allows (orderly : Orderly tally world) {call : EntityCall}
    (registered : id ∈ world.registry) (due : world.due call id = true)
    (ready : call.phase = .tick → tally.ticking = true ∧ id ∉ tally.ticked) :
    tally.Allows id call.phase where
  present := orderly.present registered
  render renders := by
    cases call with
    | render =>
        intro marked
        simp [World.due, EntityCall.reachesDestroyed, orderly.marked.mpr marked] at due
    | tick _ => cases renders
    | handler _ _ => cases renders
  tick := ready

/-- Turns in a row are lawful.  If they are ticks, the tick phase goes on, the entities are
distinct, and none has been ticked in it. -/
theorem Orderly.turns {call : EntityCall} {ids : List EntityId}
    (taken : TurnsTaken Scripted call ids world events after) (orderly : Orderly tally world)
    (registered : ∀ id ∈ ids, id ∈ world.registry)
    (ready : call.phase = .tick →
      tally.ticking = true ∧ ids.Nodup ∧ ∀ id ∈ ids, id ∉ tally.ticked) :
    tally.Lawful events ∧ Orderly (tally.readAll events) after := by
  induction taken generalizing tally with
  | finished => exact ⟨trivial, orderly⟩
  | @turn id ids first second third events more here _ inductionHypothesis =>
      have stretch : Stretch tally id events second := by
        refine orderly.turn (fun due => ?_) here
        apply orderly.allows (registered id (by simp)) due
        intro tick
        obtain ⟨ticking, _, fresh⟩ := ready tick
        exact ⟨ticking, fresh id (by simp)⟩
      have persists := Persists.turn (here.imp fun related => related.2.1)
      have stillRegistered : ∀ other ∈ ids, other ∈ second.registry := fun other member =>
        persists.registered (registered other (by simp [member]))
      obtain ⟨lawful, orderlyLast⟩ := inductionHypothesis stretch.orderly stillRegistered (by
        intro tick
        obtain ⟨ticking, distinct, fresh⟩ := ready tick
        obtain ⟨apart, distinctRest⟩ := List.nodup_cons.mp distinct
        refine ⟨by rw [stretch.ticking, ticking], distinctRest, fun other member ticked => ?_⟩
        rcases stretch.ticked ticked with before | rfl
        · exact fresh other (by simp [member]) before
        · exact apart member)
      rw [Tally.lawful_append, Tally.readAll_append]
      exact ⟨⟨stretch.lawful, lawful⟩, orderlyLast⟩

theorem Orderly.unmoved (orderly : Orderly tally world)
    (idle : ∀ event ∈ events, event.Plain ∨ event.Boundary) (within : .began .tick ∉ events)
    (registry : after.registry = world.registry) (marks : after.isDestroyed = world.isDestroyed) :
    tally.Lawful events ∧ Orderly (tally.readAll events) after := by
  refine ⟨Tally.lawful_of_idle ?_ ?_, ?_, ?_, ?_⟩
  · exact List.filterMap_eq_nil_iff.mp (attempted?_eq_nil idle)
  · exact List.filterMap_eq_nil_iff.mp (completed?_eq_nil idle)
  · intro id
    rw [marks, orderly.marked, Tally.marked_readAll, marked?_eq_nil idle, List.append_nil]
  · intro id removed
    rw [Tally.removed_readAll_eq within] at removed
    rw [Tally.marked_readAll, marked?_eq_nil idle, List.append_nil]
    exact orderly.removed removed
  · intro id here
    rw [registry] at here
    rw [Tally.removed_readAll_eq within]
    exact orderly.present here

theorem Orderly.phase {call : EntityCall} (run : PhaseRun Scripted call world events after)
    (orderly : Orderly tally world)
    (ready : call.phase = .tick →
      tally.ticking = true ∧ world.registry.Nodup ∧ ∀ id ∈ world.registry, id ∉ tally.ticked) :
    tally.Lawful events ∧ Orderly (tally.readAll events) after := by
  cases run with
  | @run _ turns last taken =>
      obtain ⟨lawful, orderlyTurns⟩ := orderly.turns taken (fun _ member => member) ready
      have ended : (tally.readAll turns).Lawful [.ended call.phase] ∧
          Orderly ((tally.readAll turns).readAll [.ended call.phase])
            (last.note (.ended call.phase)) :=
        orderlyTurns.unmoved (by simp [Event.Boundary]) (by simp) rfl rfl
      rw [Tally.lawful_append, Tally.readAll_append]
      exact ⟨⟨lawful, ended.1⟩, ended.2⟩

/-- A tick phase removes the marked entities, and then ticks each that is left once. -/
theorem Orderly.tickPhase {delta : Float} (ticked : Ticked Scripted delta world events after)
    (orderly : Orderly tally world) (distinct : world.registry.Nodup) :
    tally.Lawful events ∧ Orderly (tally.readAll events) after := by
  cases ticked with
  | @ticked _ removal turns _ plain run =>
      have orderlyBegun : Orderly (tally.read (.began .tick)) world.removeDestroyed := by
        refine ⟨?_, id, ?_⟩
        · intro id
          rw [World.isDestroyed_removeDestroyed, orderly.marked]
          exact .rfl
        · intro id here marked
          rw [World.registry_removeDestroyed, List.mem_filter] at here
          simp [orderly.marked.mpr marked] at here
      have idle : ∀ event ∈ removal, event.Plain ∨ event.Boundary :=
        fun event member => .inl (plain event member)
      have inside : ∀ event ∈ removal, ¬ event.Boundary := by
        rintro event member ⟨phase, rfl | rfl⟩ <;> obtain ⟨_, plain, _⟩ := plain _ member <;>
          cases plain
      have tallied := @Tally.readAll_of_inside (tally.read (.began .tick)) removal inside
      have unticked : removal.filterMap Event.ticked? = [] :=
        Event.ticked?_eq_nil fun _ _ called => by simp [attempted?_eq_nil idle] at called
      obtain ⟨lawfulRemoval, orderlyRemoval⟩ := orderlyBegun.unmoved idle
        (fun begins => inside _ begins ⟨.tick, .inl rfl⟩)
        (show ((world.note (.began .tick)).removeDestroyed).registry = _ by simp)
        (by simp)
      obtain ⟨lawful, orderlyLast⟩ := orderlyRemoval.phase run (by
        intro _
        rw [tallied, unticked]
        refine ⟨rfl, ?_, by simp [Tally.read]⟩
        rw [World.registry_removeDestroyed]
        exact distinct.sublist List.filter_sublist)
      rw [List.cons_append, Tally.readAll_cons, Tally.readAll_append]
      refine ⟨⟨⟨by simp [Event.attempted?], by simp [Event.completed?]⟩, ?_⟩, orderlyLast⟩
      rw [Tally.lawful_append]
      exact ⟨lawfulRemoval, lawful⟩

theorem Orderly.renderPhase (rendered : Rendered Scripted world events after)
    (orderly : Orderly tally world) :
    tally.Lawful events ∧ Orderly (tally.readAll events) after := by
  cases rendered with
  | @rendered _ turns _ run =>
      have begun : tally.Lawful [.began .render] ∧
          Orderly (tally.readAll [.began .render]) (world.note (.began .render)) :=
        orderly.unmoved (by simp [Event.Boundary]) (by simp) rfl rfl
      obtain ⟨lawful, orderlyLast⟩ := begun.2.phase run (by simp [EntityCall.phase])
      exact ⟨⟨begun.1.1, lawful⟩, orderlyLast⟩

theorem Orderly.performed {ticks : Bool} (performed : Performed Scripted ticks world events after)
    (orderly : Orderly tally world) (distinct : world.registry.Nodup) :
    tally.Lawful events ∧ Orderly (tally.readAll events) after := by
  have scripts : ∀ {tally world events after}, Orderly tally world →
      Scripted world events after → tally.Lawful events ∧ Orderly (tally.readAll events) after := by
    intro tally world events after orderly scripted
    have stretch : Stretch tally 0 events after := orderly.scripts scripted
    exact ⟨stretch.lawful, stretch.orderly⟩
  cases performed with
  | scripts scripted => exact scripts orderly scripted
  | rendered phase => exact orderly.renderPhase phase
  | @frame _ _ second third _ turns more quiet phase rest =>
      have orderlySecond : Orderly (tally.readAll []) second :=
        (orderly.unmoved (by simp) (by simp) quiet.registry
          (World.isDestroyed_congr quiet.entities)).2
      obtain ⟨lawful, orderlyThird⟩ :=
        orderlySecond.tickPhase phase (by rwa [quiet.registry])
      rw [Tally.lawful_append, Tally.readAll_append]
      cases rest with
      | stopped => exact ⟨⟨lawful, trivial⟩, orderlyThird⟩
      | rendered phase scripted =>
          obtain ⟨lawfulRender, orderlyRender⟩ := orderlyThird.renderPhase phase
          obtain ⟨lawfulLast, orderlyLast⟩ := scripts orderlyRender scripted
          rw [Tally.lawful_append, Tally.readAll_append]
          exact ⟨⟨lawful, lawfulRender, lawfulLast⟩, orderlyLast⟩

end

/-- The journal of a session is lawful. -/
theorem Session.Reachable.orderly {session : Session} (reachable : session.Reachable) :
    Tally.start.Lawful session.world.journal.toList ∧
      Orderly (Tally.start.readAll session.world.journal.toList) session.world := by
  obtain ⟨settings, hasKeys, reaches⟩ := reachable
  induction reaches with
  | refl =>
      refine ⟨trivial, ?_, ?_, ?_⟩
      · simp [Session.start, World.initial, World.isDestroyed, World.entity?, Tally.readAll,
          Tally.start]
      · simp [Session.start, World.initial, Tally.readAll, Tally.start]
      · simp [Session.start, World.initial]
  | @step middle later operation before leads inductionHypothesis =>
      obtain ⟨lawful, orderly⟩ := inductionHypothesis
      obtain ⟨events, noted, performed⟩ := leads.links scripted_host
      have settled := Session.Reachable.settled ⟨settings, hasKeys, before⟩
      obtain ⟨lawfulRest, orderlyLast⟩ := orderly.performed performed settled.distinct
      rw [noted, Tally.lawful_append, Tally.readAll_append]
      exact ⟨⟨lawful, lawfulRest⟩, orderlyLast⟩

theorem Session.Reaches.journal {session later : Session} (reaches : session.Reaches later) :
    ∃ events, later.world.journal.toList = session.world.journal.toList ++ events := by
  induction reaches with
  | refl => exact ⟨[], by simp⟩
  | step _ leads inductionHypothesis =>
      obtain ⟨events, noted⟩ := inductionHypothesis
      obtain ⟨more, _, notedMore, _⟩ := leads.evolves
      exact ⟨events ++ more, by rw [notedMore, noted, List.append_assoc]⟩

/-- From when an entity is marked on it stays marked and is not rendered.  It is ticked at most
once, and only in a tick phase that went on when it was marked.  When the next tick phase
begins it leaves the registry for good: it is called no more, and no construction of it is
completed. -/
theorem Session.Reachable.marked_retires {session : Session} (reachable : session.Reachable)
    (id : EntityId) :
    (session.world.isDestroyed id = true ↔
      id ∈ session.world.journal.toList.filterMap Event.marked?) ∧
    (session.world.isDestroyed id = true →
      ∀ later, session.Reaches later → later.world.isDestroyed id = true) ∧
    ∀ before mark after, session.world.journal.toList = before ++ mark :: after →
      mark.marked? = some id →
      (id, .render) ∉ after.filterMap Event.attempted? ∧
      (after.filterMap Event.attempted?).count (id, .tick) ≤ 1 ∧
      (∀ between tick rest, after = between ++ tick :: rest →
        tick.attempted? = some (id, .tick) →
        .began .tick ∉ between ∧ .ended .tick ∉ between ∧
          ∃ outer inner, before = outer ++ .began .tick :: inner ∧
            .began .tick ∉ inner ∧ .ended .tick ∉ inner) ∧
      ∀ between rest, after = between ++ .began .tick :: rest →
        (∀ phase, (id, phase) ∉ rest.filterMap Event.attempted?) ∧
        id ∉ rest.filterMap Event.completed? ∧
        ∀ later, session.Reaches later → id ∉ later.world.registry := by
  obtain ⟨lawful, orderly⟩ := reachable.orderly
  refine ⟨reachable.settled.marked, ?_, ?_⟩
  · intro marked later reaches
    obtain ⟨events, noted⟩ := reaches.journal
    rw [(reachable.reaches reaches).settled.marked, noted, List.filterMap_append]
    exact List.mem_append_left _ (reachable.settled.marked.mp marked)
  · intro before mark after split marks
    rw [split, Tally.lawful_append] at lawful
    obtain ⟨_, _, lawfulAfter⟩ := lawful
    have marked : id ∈ ((Tally.start.readAll before).read mark).marked := by
      rw [Tally.marked_read]
      exact List.mem_append_right _ (by simp [marks])
    refine ⟨lawfulAfter.unrendered marked, lawfulAfter.ticked_once marked, ?_, ?_⟩
    · rintro between tick rest rfl ticks
      obtain ⟨goesOn, alone, lasting⟩ := lawfulAfter.ticked_within marked ticks
      refine ⟨alone, lasting, ?_⟩
      have inside : ¬ mark.Boundary := by
        rintro ⟨phase, rfl | rfl⟩ <;> cases marks
      rw [Tally.read_of_inside inside] at goesOn
      rcases Tally.ticking_readAll goesOn with ⟨never, _⟩ | inProgress
      · cases never
      · exact inProgress
    · rintro between rest rfl
      rw [Tally.lawful_append] at lawfulAfter
      obtain ⟨_, _, lawfulRest⟩ := lawfulAfter
      have markedNext : id ∈ (((Tally.start.readAll before).read mark).readAll between).marked := by
        rw [Tally.marked_readAll]
        exact List.mem_append_left _ marked
      refine ⟨lawfulRest.uncalled markedNext markedNext,
        lawfulRest.uncompleted markedNext markedNext, ?_⟩
      intro later reaches here
      obtain ⟨events, noted⟩ := reaches.journal
      refine (reachable.reaches reaches).orderly.2.present here ?_
      rw [noted, split, List.append_assoc, Tally.readAll_append, List.cons_append,
        Tally.readAll_cons, List.append_assoc, Tally.readAll_append, List.cons_append,
        Tally.readAll_cons]
      exact Tally.removed_readAll markedNext markedNext

/-- A seed freezes while a plant ticks, and still has its turn. -/
theorem Session.marked_retires_in_garden :
    ∃ session : Session, session.Reachable ∧
      ∃ before mark after, session.world.journal.toList = before ++ mark :: after ∧
        mark.marked? = some 2 ∧ after.filterMap Event.attempted? = [(2, .tick)] ∧
        ∃ outer inner, before = outer ++ .began .tick :: inner ∧
          .began .tick ∉ inner ∧ .ended .tick ∉ inner := by
  obtain ⟨session, reached, seen⟩ := Option.map_eq_some_iff.mp
    (show (through (gardening ++ [.tickPhase 0]) (start (World.initial .default false))).map
        (fun session => (session.world.journal.toList[14]?.bind Event.marked?,
          (session.world.journal.toList.drop 15).filterMap Event.attempted?)) =
      some (some 2, [(2, .tick)]) from by decide +kernel)
  obtain ⟨marks, attempts⟩ := Prod.mk.inj seen
  obtain ⟨mark, found, marks⟩ := Option.bind_eq_some_iff.mp marks
  obtain ⟨within, rfl⟩ := List.getElem?_eq_some_iff.mp found
  have split := (List.take_append_drop 14 session.world.journal.toList).symm
  rw [List.drop_eq_getElem_cons within] at split
  have reachable := reachable_through reached
  obtain ⟨_, _, retires⟩ := reachable.marked_retires 2
  obtain ⟨_, _, inProgress, _⟩ := retires _ _ _ split marks
  obtain ⟨tick, member, ticks⟩ := List.mem_filterMap.mp
    (show (2, .tick) ∈ (session.world.journal.toList.drop 15).filterMap Event.attempted? by
      rw [attempts]; exact List.mem_singleton.mpr rfl)
  obtain ⟨between, rest, after⟩ := List.append_of_mem member
  exact ⟨session, reachable, _, _, _, split, marks, attempts,
    (inProgress between tick rest after ticks).2.2⟩

end EntityScript
