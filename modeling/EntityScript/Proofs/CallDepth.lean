import EntityScript.Proofs.Faithfulness

/-!
Call depth.  At every moment the depth that a world counts is the number of constructions and
calls that are active, and it never exceeds the limit.  A call is refused just when as many are
active as there may be.
-/

namespace EntityScript

open Script

namespace Moment

/-- A construction of a type that is known, from as many arguments as it takes, or a call into
an entity is attempted. -/
def Attempts (moment : Moment) : Prop :=
  match moment.act with
  | .spawn typeName arguments _ =>
      ∃ type, moment.world.constructible typeName arguments = .ok type
  | .call _ _ _ => True
  | _ => False

/-- The depth counts what is active, and the limit is kept. -/
structure Counted (moment : Moment) : Prop where
  depth : moment.world.depth = moment.world.active.length
  limit : moment.world.depth ≤ maxCallDepth
  refused (limit : Nat) : moment.act.raised? = some (.recursionLimit limit) ↔
    limit = maxCallDepth ∧ moment.Attempts ∧ moment.world.active.length = maxCallDepth
  /-- What is left is what was entered last. -/
  left (activity : Activity) :
    moment.act.left? = some activity → moment.world.active.head? = some activity

section Counted

variable {world : World} (counts : world.depth = world.active.length)

include counts

/-- Where nothing is attempted, no call is refused either. -/
theorem counted_of_idle {start : World} (steady : Steady world start) {act : Act}
    (limit : world.depth ≤ maxCallDepth) (idle : ¬ Attempts ⟨act, start⟩)
    (plain : ∀ error ∈ act.raised?, error.Plain)
    (left : ∀ activity ∈ act.left?, world.active.head? = some activity) :
    Counted ⟨act, start⟩ where
  depth := by rw [steady.depth, counts, steady.active]
  limit := by rwa [steady.depth]
  refused _ := by
    constructor
    · intro raised
      exact (plain _ raised).elim
    · rintro ⟨_, attempts, _⟩
      exact (idle attempts).elim
  left activity leaves := by
    rw [steady.active]
    exact left activity leaves

theorem counted_of_quiet {act : Act} (limit : world.depth ≤ maxCallDepth)
    (idle : ¬ Attempts ⟨act, world⟩) (quiet : act.raised? = none) (stays : act.left? = none) :
    Counted ⟨act, world⟩ := by
  have same : Steady world world := ⟨rfl, rfl, rfl⟩
  apply counted_of_idle counts same limit idle
  · simp [quiet]
  · simp [stays]

/-- Below the limit what is attempted is not refused. -/
theorem counted_of_room {act : Act} (room : world.depth < maxCallDepth)
    (accepted : act.raised? = none) (stays : act.left? = none) : Counted ⟨act, world⟩ where
  depth := counts
  limit := Nat.le_of_lt room
  refused _ := by
    constructor
    · intro raised
      rw [accepted] at raised
      cases raised
    · rintro ⟨_, _, full⟩
      change world.active.length = maxCallDepth at full
      omega
  left activity leaves := by
    rw [stays] at leaves
    cases leaves

theorem counted_of_full {act : Act} (full : world.depth = maxCallDepth)
    (attempts : Attempts ⟨act, world⟩)
    (refused : act.raised? = some (.recursionLimit maxCallDepth)) (stays : act.left? = none) :
    Counted ⟨act, world⟩ where
  depth := counts
  limit := Nat.le_of_eq full
  refused limit := by
    change act.raised? = _ ↔ _ ∧ _ ∧ world.active.length = maxCallDepth
    rw [refused, Option.some.injEq, ScriptError.recursionLimit.injEq, ← counts]
    exact ⟨fun same => ⟨same.symm, attempts, full⟩, fun same => same.1.symm⟩
  left activity leaves := by
    rw [stays] at leaves
    cases leaves

/-- What becomes of a failure attempts nothing. -/
theorem counted_of_isolating {outcome : Outcome World Unit} {ref : EntityRef} {phase : Phase}
    (limit : world.depth ≤ maxCallDepth)
    (steady : ∀ last, outcome.state? = some last → Steady world last) :
    ∀ moment ∈ outcome.isolating ref phase, moment.Counted := by
  intro moment member
  obtain ⟨error, last, rfl, rfl⟩ := Outcome.mem_isolating member
  cases last.settings.isolateErrors
  all_goals
    apply counted_of_idle counts (steady last rfl) limit id
    · simp [Act.raised?]
    · simp [Act.left?]

theorem counted_of_leaving {outcome : Outcome World Unit} {activity : Activity}
    (limit : world.depth ≤ maxCallDepth)
    (steady : ∀ last, outcome.state? = some last → Steady world last)
    (entered : world.active.head? = some activity) :
    ∀ moment ∈ outcome.leaving activity, moment.Counted := by
  intro moment member
  obtain ⟨succeeded, last, ends, rfl⟩ := Outcome.mem_leaving member
  apply counted_of_idle counts (steady last ends) limit id
  · simp [Act.raised?]
  · simp [Act.left?, entered]

end Counted

end Moment

/-- The levels that are left and the depth make up the limit, so at no moment of a course is
more active than may be. -/
theorem Course.counted {levels : Nat} {world : World} {moments : List Moment}
    {outcome : Outcome World Unit} (course : Course levels world moments outcome)
    (room : world.depth + levels = maxCallDepth) (counts : world.depth = world.active.length) :
    ∀ moment ∈ moments, moment.Counted := by
  have limit : world.depth ≤ maxCallDepth := by omega
  induction course with
  | idle | endless | quiet _ | began => simp
  | append first _ before rest =>
      have steady := first.steady rfl
      refine List.forall_mem_append.mpr ⟨before room counts limit, rest ?_ ?_ ?_⟩
      · rw [steady.depth, room]
      · rw [steady.depth, counts, steady.active]
      · rwa [steady.depth]
  | worked _ =>
      rw [List.forall_mem_singleton]
      exact Moment.counted_of_quiet counts limit id rfl rfl
  | @failed levels world after error slight plain =>
      have steady := (@Course.failed levels _ _ _ slight plain).steady rfl
      rw [List.forall_mem_cons, List.forall_mem_singleton]
      refine ⟨Moment.counted_of_quiet counts limit id rfl rfl, ?_⟩
      apply Moment.counted_of_idle counts steady limit id
      · simpa [Act.raised?] using plain
      · simp [Act.left?]
  | executed _ inside =>
      refine List.forall_mem_cons.mpr ⟨?_, inside room counts limit⟩
      exact Moment.counted_of_quiet counts limit id rfl rfl
  | @unspawned levels world typeName arguments error unknown =>
      have same : Steady world world := ⟨rfl, rfl, rfl⟩
      rw [List.forall_mem_singleton]
      apply Moment.counted_of_idle counts same limit
      · rintro ⟨type, known⟩
        cases unknown.symm.trans known
      · simpa [Act.raised?] using World.constructible_failsPlainly _ _ _ _ unknown
      · simp [Act.left?]
  | refusedSpawn known =>
      rw [List.forall_mem_singleton]
      exact Moment.counted_of_full counts room ⟨_, known⟩ rfl rfl
  | @spawned levels world _ _ type ref moments outcome known _ _ body inside =>
      generalize entered : (world.enter (.construction ref)).make type = start at body inside
      have deeper : start.depth = world.depth + 1 := by rw [← entered]; rfl
      have active : start.active = .construction ref :: world.active := by
        rw [← entered, World.active_make, World.active_enter]
      have countsInside : start.depth = start.active.length := by
        rw [deeper, active, List.length_cons, counts]
      have limitInside : start.depth ≤ maxCallDepth := by omega
      rw [List.cons_append, List.forall_mem_cons, List.forall_mem_append]
      refine ⟨Moment.counted_of_room counts (by omega) rfl rfl,
        inside (by omega) countsInside limitInside, ?_⟩
      exact Moment.counted_of_leaving countsInside limitInside
        (fun _ ends => body.steady_registered ends) (by rw [active, List.head?_cons])
  | @refusedCall world ref call registered due known =>
      rw [List.forall_mem_cons]
      refine ⟨Moment.counted_of_full counts room trivial rfl rfl, ?_⟩
      apply Moment.counted_of_isolating counts limit
      rintro _ ends
      cases ends
      exact .noted world fun _ => rfl
  | @called levels world ref call moments outcome registered due known body inside =>
      have deeper : (world.enter (.call ref call)).depth = world.depth + 1 := rfl
      have active := world.active_enter (.call ref call)
      have countsInside : (world.enter (.call ref call)).depth =
          (world.enter (.call ref call)).active.length := by
        rw [deeper, active, List.length_cons, counts]
      have limitInside : (world.enter (.call ref call)).depth ≤ maxCallDepth := by omega
      rw [List.cons_append, List.cons_append, List.forall_mem_cons, List.forall_mem_append,
        List.forall_mem_append]
      refine ⟨Moment.counted_of_room counts (by omega) rfl rfl,
        ⟨inside (by omega) countsInside limitInside, ?_⟩, ?_⟩
      · exact Moment.counted_of_leaving countsInside limitInside
          (fun _ ends => body.steady ends) (by rw [active, List.head?_cons])
      · exact Moment.counted_of_isolating counts limit fun _ ends => body.steady_left ends
  | ended _ inside => exact inside room counts limit

/-- Between operations nothing is active and the depth is nought, also after one that failed.
While an operation runs the depth is the number of constructions and calls that are active,
which never exceeds the limit, and one is refused just when it is attempted at the limit.  The
journal tells of none that the trace leaves out. -/
theorem Session.Reachable.depth_counts {session : Session} (reachable : session.Reachable)
    (operation : Operation) :
    session.world.depth = 0 ∧ session.world.active = [] ∧
      (∀ after, session.Leads operation after →
        after.world.depth = session.world.depth ∧ after.world.active = [] ∧
          after.world.passages =
            session.world.passages ++ (operation.trace session).flatMap Moment.passages) ∧
      ∀ moment ∈ operation.trace session, moment.Counted := by
  have depth := reachable.settled.depth
  have inactive := reachable.inactive
  have entry := operation.steady_entry session.world
  refine ⟨depth, inactive, ?_, ?_⟩
  · intro after leads
    exact ⟨leads.steady.depth, leads.steady.active.trans inactive, leads.passages⟩
  · apply (operation.course session).counted
    · rw [entry.depth, depth, Nat.sub_zero, Nat.zero_add]
    · rw [entry.depth, entry.active, depth, inactive, List.length_nil]

/-- Whoever hears a shout shouts, without end. -/
def echoes : Program where
  name := "echoes"
  main := none
  types :=
    let here : Source.Span := ⟨0, 0, 1⟩
    let shout : Stmt := .expr (.global .emit [.text "shout" here] here)
    [⟨"Wall", [], ⟨[], []⟩, none, none, ⟨[("shout", ⟨[], [shout]⟩)]⟩, here⟩]

theorem Session.depth_counts_in_echoes : ∃ (session : Session) (moment : Moment),
    session.Reachable ∧ moment ∈ (Operation.emit "shout" .unset).trace session ∧
      moment.act.raised? = some (.recursionLimit maxCallDepth) ∧
      moment.world.active.length = maxCallDepth := by
  obtain ⟨session, reached, refused⟩ := Option.map_eq_some_iff.mp
    (show (through [.install echoes, .spawn "Wall" []]
        (start (World.initial .default false))).map (fun session =>
          ((Operation.emit "shout" .unset).trace session).any fun moment =>
            moment.act.raised? == some (.recursionLimit maxCallDepth)) = some true from by
      decide +kernel)
  have reachable := reachable_through reached
  obtain ⟨moment, member, raised⟩ := List.any_eq_true.mp refused
  have raised := eq_of_beq raised
  obtain ⟨_, _, _, counted⟩ :=
    Session.Reachable.depth_counts reachable (.emit "shout" .unset)
  exact ⟨session, moment, reachable, member, raised,
    (((counted moment member).refused _).mp raised).2.2⟩

end EntityScript
