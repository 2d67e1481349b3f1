import EntityScript.Proofs.Turns

/-!
Broadcasts where failures do not go further.  Each handler is called once, in the order of the
registry when the broadcast starts, whatever the handlers do.
-/

namespace EntityScript

open Script Session

variable {world : World}

/-- Failures go no further, and only entities that were made are registered. -/
structure World.Isolates (world : World) : Prop where
  isolated : world.settings.isolateErrors = true
  made : ∀ id : Nat, id ∈ world.registry → id < world.entities.size

theorem Session.Reachable.isolates {session : Session} (reachable : session.Reachable)
    (isolated : session.world.settings.isolateErrors = true) : session.world.Isolates :=
  ⟨isolated, fun _ => reachable.settled.made⟩

/-- A broadcast, at whatever call depth, calls each handler of an entity that is registered when
it starts once and in the order of the registry, and counts them.  Below the limit of call depth
all of them start, and at the limit each is refused, which is noted like any failure.  The
broadcast ends unless one of them never does. -/
theorem World.emit_isolated (isolates : world.Isolates) (event : String) (payload : Value) :
    emit event payload world = .endless ∧
        world.HangsAmong (.handler event payload) world.registry ∨
      ∃ turns last,
        emit event payload world =
          .returned (world.registry.countP (world.answers (.handler event payload))) last ∧
        Turns (.handler event payload) world turns last ∧
        last.journal.toList = world.journal.toList ++ turns.flatMap Turn.events ∧
        turns.map Turn.id = world.registry ∧
        turns.filterMap Turn.attempted? =
          (world.registry.filter (world.answers (.handler event payload))).map (·, .handler) ∧
        (∀ turn ∈ turns, world.answers (.handler event payload) turn.id = true →
          ∃ ref, turn.before.ref? turn.id = some ref ∧
            (world.depth < maxCallDepth →
              ∃ rest, turn.events = .entered (.call ref (.handler event payload)) :: rest) ∧
            (maxCallDepth ≤ world.depth →
              turn.events = [.refused (.call ref (.handler event payload)),
                .logged (.callFailed ref .handler (.recursionLimit maxCallDepth))])) ∧
        ∀ first others,
          bindArguments (first :: others) (EntityCall.handler event payload).arguments =
              (first, payload) :: others.map (·, .unset) ∧
            (first ∉ others → ∀ ref,
              let frame := Frame.ofCall ref (first :: others)
                (EntityCall.handler event payload).arguments
              frame.lookup? first = some payload ∧
                ∀ other ∈ others, frame.lookup? other = some .unset) := by
  rcases deliverAll_isolated isolates.isolated (.handler event payload) world.registry with
    ⟨turns, last, ids, chain, ran⟩ | ⟨hangs, ran⟩
  · have within : ∀ turn ∈ turns, turn.id < world.entities.size := by
      intro turn member
      apply isolates.made turn.id
      rw [← ids]
      exact List.mem_map_of_mem member
    have due := chain.due_eq rfl within
    have answering := chain.due_ids rfl within
    refine .inr ⟨turns, last, ?_, chain, chain.noted, ids, ?_, ?_, ?_⟩
    · rw [List.countP_eq_length_filter, ← ids, ← answering, List.length_map,
        ← List.countP_eq_length_filter]
      exact ran
    · rw [chain.attempted, ← ids, ← answering, List.map_map]
      rfl
    · intro turn member answers
      have dueHere := (due turn member).trans answers
      have taken := chain.taken turn member
      obtain ⟨_, persists⟩ := chain.persists_before turn member
      rcases Nat.lt_or_ge world.depth maxCallDepth with room | full
      · obtain ⟨ref, rest, known, entered⟩ := taken.entered dueHere (by rwa [persists.depth])
        exact ⟨ref, known, fun _ => ⟨rest, entered⟩, fun full => by omega⟩
      · obtain ⟨ref, known, refused⟩ := taken.refusal dueHere (by rwa [persists.depth])
        exact ⟨ref, known, fun room => by omega, fun _ => refused⟩
    · intro first others
      refine ⟨bindArguments_single first others payload, ?_⟩
      intro apart ref
      exact Frame.lookup?_ofCall_single ref payload apart
  · exact .inl ⟨ran, hangs⟩

/-- Both plants get the rain, the one that is destroyed as well, though both fail. -/
theorem World.emit_isolated_in_garden :
    ∃ (world : World) (turns : List Turn) (last : World),
      world.settings.isolateErrors = true ∧ world.registry = [0, 1, 2] ∧
        emit "rain" (.text "heavy") world = .returned 2 last ∧
        last.registry = [0, 1, 2, 3, 4] ∧
        turns.map Turn.id = [0, 1, 2] ∧
        turns.filterMap Turn.attempted? = [(0, .handler), (1, .handler)] := by
  obtain ⟨session, reached, seen⟩ := Option.map_eq_some_iff.mp
    (show (through gardening (start (World.initial .default false))).map (fun session =>
        (session.world.settings.isolateErrors, session.world.registry,
          session.world.registry.filter
            (session.world.answers (.handler "rain" (.text "heavy"))),
          (emit "rain" (.text "heavy") session.world).state?.map (·.registry))) =
      some (true, [0, 1, 2], [0, 1], some [0, 1, 2, 3, 4]) from by decide +kernel)
  simp only [Prod.mk.injEq, Option.map_eq_some_iff] at seen
  obtain ⟨isolated, registry, answer, last, ends, grown⟩ := seen
  have isolates := (reachable_through reached).isolates isolated
  rcases World.emit_isolated isolates "rain" (.text "heavy") with
    ⟨endless, _⟩ | ⟨turns, _, ran, _, _, ids, attempted, _⟩
  · rw [endless] at ends
    cases ends
  · rw [ran] at ends
    cases ends
    rw [answer] at attempted
    rw [List.countP_eq_length_filter, answer] at ran
    exact ⟨session.world, turns, last, isolated, registry, ran, grown, by rw [ids, registry],
      attempted⟩

end EntityScript
