import EntityScript.Proofs.Turns

/-!
Frames where failures do not go further.  A frame ticks the entities that are registered and not
destroyed when it starts, and then renders those that are registered after the ticks and not
destroyed when their turn comes.
-/

namespace EntityScript

open Script Session

namespace World

/-- The world in which the turns of a tick phase are taken. -/
def cleared (world : World) : World := (world.note (.began .tick)).removeDestroyed

/-- The world in which the turns of a render phase are taken, after the turns of a tick phase. -/
def rendering (world : World) : World := (world.note (.ended .tick)).note (.began .render)

variable {world : World}

@[simp]
theorem registry_cleared :
    world.cleared.registry = world.registry.filter fun id => !world.isDestroyed id :=
  registry_removeDestroyed _

@[simp]
theorem entities_cleared : world.cleared.entities = world.entities :=
  entities_removeDestroyed _

@[simp]
theorem depth_cleared : world.cleared.depth = world.depth := depth_removeDestroyed _

@[simp]
theorem settings_cleared : world.cleared.settings = world.settings := settings_removeDestroyed _

@[simp]
theorem answers_cleared : world.cleared.answers = world.answers := by
  funext call id
  rw [answers, method?, type?_congr entities_cleared]
  rfl

theorem runPhase_eq (call : EntityCall) (world : World) :
    runPhase call world =
      match deliverAll world.inner call world.registry world with
      | .returned _ last => .returned () (last.note (.ended call.phase))
      | .raised error last => .raised error (last.note (.ended call.phase))
      | .endless => .endless := by
  change Script.bind (andThen (fun world => deliverAll world.inner call world.registry world) _) _
    world = _
  unfold Script.bind andThen
  dsimp only
  cases deliverAll world.inner call world.registry world <;> rfl

theorem runPhase_isolated (isolated : world.settings.isolateErrors = true) (call : EntityCall) :
    (∃ turns last, turns.map Turn.id = world.registry ∧ Turns call world turns last ∧
      runPhase call world = .returned () (last.note (.ended call.phase))) ∨
    world.HangsAmong call world.registry ∧ runPhase call world = .endless := by
  rw [runPhase_eq]
  rcases deliverAll_isolated isolated call world.registry with
    ⟨turns, last, ids, chain, ran⟩ | ⟨hangs, ran⟩
  · exact .inl ⟨turns, last, ids, chain, by rw [ran]⟩
  · exact .inr ⟨hangs, by rw [ran]⟩

end World

namespace Session

variable {session : Session}

def HangsInFrame (session : Session) (delta : Float) : Prop :=
  session.world.pumpInput.cleared.HangsAmong (.tick delta)
      session.world.pumpInput.cleared.registry ∨
    ∃ ticks last, ticks.map Turn.id = session.world.pumpInput.cleared.registry ∧
      Turns (.tick delta) session.world.pumpInput.cleared ticks last ∧
      last.rendering.HangsAmong .render last.registry

theorem onWorld_bind {α β : Type} (script : Script World α) (next : α → Script Session β)
    (session : Session) :
    (onWorld script >>= next) session =
      match script session.world with
      | .returned value world => next value ⟨world, session.frames, session.lastStart⟩
      | .raised error world => .raised error ⟨world, session.frames, session.lastStart⟩
      | .endless => .endless := by
  change Script.bind (onWorld script) next session = _
  obtain ⟨world, frames, lastStart⟩ := session
  simp only [Script.bind, onWorld]
  cases script world <;> rfl

theorem step_eq_phases (elapsed : Float) (session : Session) :
    step elapsed session =
      match World.tickPhase (session.world.settings.clampDelta elapsed)
          session.world.pumpInput with
      | .returned _ ticked =>
          match World.renderPhase ticked with
          | .returned _ rendered =>
              .returned () (completeFrame (session.world.settings.clampDelta elapsed)
                ⟨rendered, session.frames, session.lastStart⟩)
          | .raised error rendered =>
              .raised error ⟨rendered, session.frames, session.lastStart⟩
          | .endless => .endless
      | .raised error ticked => .raised error ⟨ticked, session.frames, session.lastStart⟩
      | .endless => .endless := by
  rw [step_eq, onWorld_bind]
  cases World.tickPhase (session.world.settings.clampDelta elapsed) session.world.pumpInput with
  | returned _ ticked =>
      dsimp only
      rw [onWorld_bind]
      cases World.renderPhase ticked <;> rfl
  | raised error ticked => rfl
  | endless => rfl

/-- The session is reachable in the middle of a frame as well, after the tick phase. -/
theorem Reachable.tickPhase (reachable : session.Reachable) {delta : Float} {after : World}
    (phase : World.tickPhase delta session.world.pumpInput = .returned () after) :
    (Session.mk after session.frames session.lastStart).Reachable := by
  have pumped : session.Leads .pumpInput
      ⟨session.world.pumpInput, session.frames, session.lastStart⟩ := rfl
  have leads : (Session.mk session.world.pumpInput session.frames session.lastStart).Leads
      (.tickPhase delta) ⟨after, session.frames, session.lastStart⟩ := by
    change (Session.run (World.tickPhase delta) _).state? = _
    rw [Session.run, onWorld_bind]
    dsimp only
    rw [phase]
    rfl
  exact reachable.reaches (.step (.step .refl pumped) leads)

/-- A frame ends, and is counted, unless a tick or a render in it hangs. -/
theorem step_phases (isolated : session.world.settings.isolateErrors = true) (elapsed : Float) :
    let delta := session.world.settings.clampDelta elapsed
    step elapsed session = .endless ∧ session.HangsInFrame delta ∨
      ∃ ticks ticked renders rendered,
        ticks.map Turn.id = session.world.pumpInput.cleared.registry ∧
        Turns (.tick delta) session.world.pumpInput.cleared ticks ticked ∧
        World.tickPhase delta session.world.pumpInput =
          .returned () (ticked.note (.ended .tick)) ∧
        renders.map Turn.id = ticked.registry ∧
        Turns .render ticked.rendering renders rendered ∧
        step elapsed session = .returned () (completeFrame delta
          ⟨rendered.note (.ended .render), session.frames, session.lastStart⟩) := by
  intro delta
  have clearedIsolated : session.world.pumpInput.cleared.settings.isolateErrors = true := by
    rwa [World.settings_cleared]
  rw [step_eq_phases]
  rcases World.runPhase_isolated clearedIsolated (.tick delta) with
    ⟨ticks, ticked, ids, chain, ran⟩ | ⟨hangs, ran⟩
  · have tickPhase : World.tickPhase delta session.world.pumpInput =
        .returned () (ticked.note (.ended .tick)) := ran
    have tickedIsolated : ticked.rendering.settings.isolateErrors = true := by
      change ticked.settings.isolateErrors = true
      rw [chain.persists.settings]
      exact clearedIsolated
    rcases World.runPhase_isolated tickedIsolated .render with
      ⟨renders, rendered, idsRendered, chainRendered, ranRender⟩ | ⟨hangs, ranRender⟩
    · have renderPhase : World.renderPhase (ticked.note (.ended .tick)) =
          .returned () (rendered.note (.ended .render)) := ranRender
      refine .inr ⟨ticks, ticked, renders, rendered, ids, chain, tickPhase, idsRendered,
        chainRendered, ?_⟩
      rw [tickPhase]
      dsimp only
      rw [renderPhase]
    · have renderPhase : World.renderPhase (ticked.note (.ended .tick)) = .endless := ranRender
      refine .inl ⟨?_, .inr ⟨ticks, ticked, ids, chain, hangs⟩⟩
      rw [tickPhase]
      dsimp only
      rw [renderPhase]
  · have tickPhase : World.tickPhase delta session.world.pumpInput = .endless := ran
    refine .inl ⟨?_, .inl hangs⟩
    rw [tickPhase]

section Started

variable {delta : Float} {ticks renders : List Turn} {ticked rendered : World}
  (tick : Turns (.tick delta) session.world.pumpInput.cleared ticks ticked)
  (render : Turns .render ticked.rendering renders rendered)

include tick render

theorem noted_step :
    ∃ events,
      (completeFrame delta ⟨rendered.note (.ended .render), session.frames,
        session.lastStart⟩).world.journal.toList = session.world.journal.toList ++ events ∧
      ∀ phase, events.filterMap (Event.started? phase) =
        (ticks.flatMap Turn.events).filterMap (Event.started? phase) ++
          (renders.flatMap Turn.events).filterMap (Event.started? phase) := by
  obtain ⟨removal, removed, plain⟩ :=
    (session.world.pumpInput.note (.began .tick)).removeDestroyed_notes
  have begun : session.world.pumpInput.cleared.journal.toList =
      session.world.journal.toList ++ .began .tick :: removal := by
    rw [World.cleared, removed]
    simp [World.pumpInput]
  have between : ticked.rendering.journal.toList =
      ticked.journal.toList ++ [Event.ended .tick, .began .render] := by
    simp [World.rendering]
  have silent : ∀ phase, removal.filterMap (Event.started? phase) = [] := by
    intro phase
    apply List.filterMap_eq_nil_iff.mpr
    intro event member
    obtain ⟨_, rfl, _⟩ := plain event member
    rfl
  refine ⟨.began .tick :: removal ++ ticks.flatMap Turn.events ++
    [Event.ended .tick, .began .render] ++ renders.flatMap Turn.events ++ [Event.ended .render,
      .logged (.frame (session.frames + 1) delta rendered.registry.length)], ?_, ?_⟩
  · simp [completeFrame, render.noted, between, tick.noted, begun]
  · intro phase
    simp [List.filterMap_append, List.filterMap_cons, Event.started?, silent phase]

/-- A frame starts the ticks and the renders that are due, and no others. -/
theorem started_step (room : session.world.depth < maxCallDepth) :
    ∃ events,
      (completeFrame delta ⟨rendered.note (.ended .render), session.frames,
        session.lastStart⟩).world.journal.toList = session.world.journal.toList ++ events ∧
      events.filterMap (Event.started? .tick) =
        (ticks.filter fun turn => turn.before.due (.tick delta) turn.id).map Turn.id ∧
      events.filterMap (Event.started? .render) =
        (renders.filter fun turn => turn.before.due .render turn.id).map Turn.id := by
  obtain ⟨events, noted, started⟩ := noted_step tick render
  have roomTick : session.world.pumpInput.cleared.depth < maxCallDepth := by
    rwa [World.depth_cleared]
  have roomRender : ticked.rendering.depth < maxCallDepth := by
    change ticked.depth < maxCallDepth
    rwa [tick.persists.depth]
  refine ⟨events, noted, ?_, ?_⟩
  · have own := tick.started roomTick (by simp [EntityCall.phase])
    have other := render.started_other roomRender (show Phase.tick ≠ .handler by simp)
      (by simp [EntityCall.phase])
    rw [started, other, List.append_nil]
    exact own
  · have own := render.started roomRender (by simp [EntityCall.phase])
    have other := tick.started_other roomTick (show Phase.render ≠ .handler by simp)
      (by simp [EntityCall.phase])
    rw [started, other, List.nil_append]
    exact own

omit render in
/-- Where only entities that were made are registered, a tick is due of each that is left and
has one. -/
theorem due_ticks (made : ∀ id : Nat, id ∈ session.world.registry →
      id < session.world.entities.size)
    (ids : ticks.map Turn.id = session.world.pumpInput.cleared.registry) :
    (ticks.filter fun turn => turn.before.due (.tick delta) turn.id).map Turn.id =
      (session.world.registry.filter fun id => !session.world.isDestroyed id).filter
        (session.world.answers (.tick delta)) := by
  rw [World.registry_cleared] at ids
  have within : ∀ turn ∈ ticks, turn.id < session.world.pumpInput.cleared.entities.size := by
    intro turn member
    have here := List.mem_map_of_mem (f := Turn.id) member
    rw [ids] at here
    rw [World.entities_cleared]
    exact made turn.id (List.mem_filter.mp here).1
  rw [tick.due_ids rfl within, ids, World.answers_cleared]
  rfl

end Started

end Session

/-- A frame that starts from a reachable session succeeds and is counted, unless a tick or a
render in it never ends.  It starts a tick of each entity with a tick that was registered and not
destroyed when it began, and then a render of each entity with a render that is registered after
the ticks and not destroyed when its turn comes, both once and in the order of the registry. -/
theorem Session.step_isolated {session : Session} (reachable : session.Reachable)
    (isolated : session.world.settings.isolateErrors = true) (elapsed : Float) :
    let delta := session.world.settings.clampDelta elapsed
    let alive := session.world.registry.filter fun id => !session.world.isDestroyed id
    step elapsed session = .endless ∧ session.HangsInFrame delta ∨
      ∃ ticks ticked renders rendered after events,
        step elapsed session = .returned () after ∧
        after.frames = session.frames + 1 ∧
        after.world.journal.toList = session.world.journal.toList ++ events ∧
        Turns (.tick delta) session.world.pumpInput.cleared ticks ticked ∧
        ticks.map Turn.id = alive ∧
        events.filterMap (Event.started? .tick) =
          alive.filter (session.world.answers (.tick delta)) ∧
        (events.filterMap (Event.started? .tick)).Nodup ∧
        Turns .render ticked.rendering renders rendered ∧
        renders.map Turn.id = ticked.registry ∧
        events.filterMap (Event.started? .render) =
          (renders.filter fun turn =>
            turn.before.answers .render turn.id && !turn.before.isDestroyed turn.id).map Turn.id ∧
        (events.filterMap (Event.started? .render)).Nodup ∧
        ∀ id ∈ ticked.registry, id ∉ session.world.registry →
          id ∉ events.filterMap (Event.started? .tick) := by
  intro delta alive
  have settled := reachable.settled
  rcases step_phases isolated elapsed with
    stuck | ⟨ticks, ticked, renders, rendered, ids, tick, phase, idsRendered, render, ran⟩
  · exact .inl stuck
  have room : session.world.depth < maxCallDepth := by
    rw [settled.depth]
    decide
  obtain ⟨events, noted, startedTicks, startedRenders⟩ := started_step tick render room
  rw [due_ticks tick (fun _ => settled.made) ids] at startedTicks
  rw [World.registry_cleared] at ids
  have distinct : alive.Nodup := settled.distinct.sublist List.filter_sublist
  have distinctTicked := (reachable.tickPhase phase).settled.distinct
  refine .inr ⟨ticks, ticked, renders, rendered, _, events, ran, rfl, noted, tick, ids,
    startedTicks, ?_, render, idsRendered, startedRenders, ?_, ?_⟩
  · rw [startedTicks]
    exact distinct.sublist List.filter_sublist
  · rw [startedRenders]
    apply List.Nodup.sublist (List.Sublist.map _ List.filter_sublist)
    rwa [idsRendered]
  · intro id _ spawned begun
    rw [startedTicks] at begun
    exact spawned (List.mem_filter.mp (List.mem_filter.mp begun).1).1

/-- The seed that freezes while the second plant ticks is ticked but not rendered, and the one
that the plant drops then is rendered but not ticked. -/
theorem Session.step_isolated_in_garden :
    ∃ (session after : Session) (events : List Event), session.Reachable ∧
      session.world.settings.isolateErrors = true ∧ session.world.registry = [0, 1, 2] ∧
      step 0 session = .returned () after ∧ after.frames = session.frames + 1 ∧
      after.world.journal.toList = session.world.journal.toList ++ events ∧
      events.filterMap (Event.started? .tick) = [1, 2] ∧
      events.filterMap (Event.started? .render) = [1, 3] := by
  obtain ⟨session, reached, seen⟩ := Option.map_eq_some_iff.mp
    (show (through gardening (start (World.initial .default false))).map (fun session =>
        (session.world.settings.isolateErrors, session.world.registry,
          (session.world.registry.filter fun id => !session.world.isDestroyed id).filter
            (session.world.answers (.tick (session.world.settings.clampDelta 0))),
          (step 0 session).state?.map fun after =>
            (after.world.journal.toList.drop session.world.journal.toList.length).filterMap
              (Event.started? .render))) =
      some (true, [0, 1, 2], [1, 2], some [1, 3]) from by decide +kernel)
  simp only [Prod.mk.injEq, Option.map_eq_some_iff] at seen
  obtain ⟨isolated, registry, ticking, last, ends, rendering⟩ := seen
  have reachable := reachable_through reached
  rcases Session.step_isolated reachable isolated 0 with
    ⟨endless, _⟩ | ⟨_, _, _, _, _, events, ran, frames, noted, _, _, ticks, _⟩
  · rw [endless] at ends
    cases ends
  · rw [ran] at ends
    cases ends
    rw [noted, List.drop_left] at rendering
    exact ⟨session, last, events, reachable, isolated, registry, ran, frames, noted,
      by rw [ticks, ticking], rendering⟩

end EntityScript
