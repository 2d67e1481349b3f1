import EntityScript.Proofs.Operations
import EntityScript.Proofs.Persistence
import EntityScript.Proofs.Registration

/-!
The registry between the operations of a host.  An operation keeps the registered entities,
except that a tick phase takes out the destroyed ones, and puts behind them the entities that
were constructed meanwhile.  Identities are never handed out twice, so an entity that is out
of the registry stays out.
-/

namespace EntityScript

open Session

section Idle

variable {events : List Event}
  (idle : ∀ event ∈ events, event.Plain ∨ event.Boundary)

include idle

/-- Idle events show nothing to a view that looks neither at the log, but for marks, nor at where
phases begin and end. -/
theorem filterMap_eq_nil_of_idle {α : Type} {view : Event → Option α}
    (logged : ∀ entry, (∀ ref, entry ≠ .destroyed ref) → view (.logged entry) = none)
    (began : ∀ phase, view (.began phase) = none)
    (ended : ∀ phase, view (.ended phase) = none) : events.filterMap view = [] := by
  apply List.filterMap_eq_nil_iff.mpr
  intro event member
  rcases idle event member with ⟨entry, rfl, plain⟩ | ⟨phase, rfl | rfl⟩
  · exact logged entry plain
  · exact began phase
  · exact ended phase

theorem begun?_eq_nil : events.filterMap Event.begun? = [] :=
  filterMap_eq_nil_of_idle idle (fun _ _ => rfl) (fun _ => rfl) (fun _ => rfl)

theorem completed?_eq_nil : events.filterMap Event.completed? = [] :=
  filterMap_eq_nil_of_idle idle (fun _ _ => rfl) (fun _ => rfl) (fun _ => rfl)

theorem attempted?_eq_nil : events.filterMap Event.attempted? = [] :=
  filterMap_eq_nil_of_idle idle (fun _ _ => rfl) (fun _ => rfl) (fun _ => rfl)

theorem marked?_eq_nil : events.filterMap Event.marked? = [] := by
  apply filterMap_eq_nil_of_idle idle ?_ (fun _ => rfl) (fun _ => rfl)
  intro entry plain
  cases entry with
  | destroyed ref => exact absurd rfl (plain ref)
  | _ => rfl

end Idle

theorem grows_frames : History.CoversFrames Grows where
  toCovers := grows_covers
  unmoved idle _ registry entities _ :=
    .of_same registry (by rw [entities]) (begun?_eq_nil idle) (completed?_eq_nil idle)
  turn _ taken := Grows.turn taken

theorem persists_frames : History.CoversFrames Persists where
  toCovers := persists_covers
  unmoved idle settings registry entities depth :=
    .of_same settings depth registry (World.type?_congr entities)
      (World.isDestroyed_congr entities) (marked?_eq_nil idle)
  turn _ taken := Persists.turn taken

/-- The registered entities that an operation keeps: if it ticks, those that are not marked
for removal when it starts. -/
def Operation.kept (operation : Operation) (world : World) : List EntityId :=
  if operation.ticks then world.registry.filter fun id => !world.isDestroyed id
  else world.registry

theorem Operation.kept_sublist (operation : Operation) (world : World) :
    (operation.kept world).Sublist world.registry := by
  unfold kept
  split
  · exact List.filter_sublist
  · exact .refl _

/-- An operation lets entities persist, and the registry grow from what it keeps of it. -/
theorem Session.Leads.evolves {session after : Session} {operation : Operation}
    (leads : session.Leads operation after) :
    ∃ events first, after.world.journal.toList = session.world.journal.toList ++ events ∧
      first.registry = operation.kept session.world ∧
      first.entities = session.world.entities ∧ first.settings = session.world.settings ∧
      first.depth = session.world.depth ∧ Grows first events after.world ∧
      Persists first events after.world := by
  have covers := grows_frames.toCoversHost.and persists_frames.toCoversHost
  obtain ⟨events, noted, performed⟩ := leads.links covers
  have grows := (performed.imp And.left).covered grows_frames
  have persists := (performed.imp And.right).covered persists_frames
  refine ⟨events, _, noted, ?_, ?_, ?_, ?_, grows, persists⟩
  · unfold Operation.kept
    cases operation.ticks <;> simp
  all_goals cases operation.ticks <;> simp

/-- What holds of a world between operations. -/
structure World.Settled (world : World) : Prop where
  distinct : world.registry.Nodup
  made {id : Nat} : id ∈ world.registry → id < world.entities.size
  begun : world.journal.toList.filterMap Event.begun? = List.range world.entities.size
  marked {id} :
    world.isDestroyed id = true ↔ id ∈ world.journal.toList.filterMap Event.marked?
  depth : world.depth = 0

theorem World.settled_initial (settings : Settings) (hasKeys : Bool) :
    (World.initial settings hasKeys).Settled where
  distinct := .nil
  made := by simp [initial]
  begun := rfl
  marked := by simp [initial, isDestroyed, entity?]
  depth := rfl

theorem Session.Leads.settled {session after : Session} {operation : Operation}
    (leads : session.Leads operation after) (settled : session.world.Settled) :
    after.world.Settled := by
  obtain ⟨events, first, noted, kept, entities, _, depth, grows, persists⟩ := leads.evolves
  have subset := operation.kept_sublist session.world
  have size : first.entities.size = session.world.entities.size := by rw [entities]
  refine ⟨?_, ?_, ?_, ?_, ?_⟩
  · rw [grows.registry, kept]
    refine List.nodup_append.mpr ⟨settled.distinct.sublist subset, grows.distinct, ?_⟩
    intro id old other new
    have before := settled.made (subset.subset old)
    have fresh := (grows.fresh new).1
    rw [size] at fresh
    exact Nat.ne_of_lt (Nat.lt_of_lt_of_le before fresh)
  · refine grows.made ?_ _
    intro id here
    rw [kept] at here
    rw [size]
    exact settled.made (subset.subset here)
  · obtain ⟨count, grown, begun⟩ := grows.begun
    rw [noted, List.filterMap_append, settled.begun, begun, grown, size, List.range_eq_range',
      List.range_eq_range', ← List.range'_append_1, Nat.zero_add]
  · intro id
    rw [persists.marks, World.isDestroyed_congr entities, settled.marked, noted,
      List.filterMap_append, List.mem_append]
  · rw [persists.depth, depth, settled.depth]

theorem Session.Reachable.settled {session : Session} (reachable : session.Reachable) :
    session.world.Settled := by
  obtain ⟨settings, hasKeys, reaches⟩ := reachable
  induction reaches with
  | refl => exact World.settled_initial settings hasKeys
  | step _ leads inductionHypothesis => exact leads.settled inductionHypothesis

theorem Session.Reaches.unregistered {session later : Session}
    (reaches : session.Reaches later) {id : Nat} (made : id < session.world.entities.size)
    (out : id ∉ session.world.registry) :
    id < later.world.entities.size ∧ id ∉ later.world.registry := by
  induction reaches with
  | refl => exact ⟨made, out⟩
  | @step middle later operation _ leads inductionHypothesis =>
      obtain ⟨madeMiddle, outMiddle⟩ := inductionHypothesis
      obtain ⟨events, first, _, kept, entities, _, _, grows, _⟩ := leads.evolves
      have size : first.entities.size = middle.world.entities.size := by rw [entities]
      have grown := grows.size_le
      refine ⟨by omega, ?_⟩
      rw [grows.registry, kept, List.mem_append]
      rintro (old | new)
      · exact outMiddle ((operation.kept_sublist middle.world).subset old)
      · have fresh := (grows.fresh new).1
        omega

/-- With every tick a plant lets it freeze, which seeds do not survive, and then drops a seed.
When it rains plants drop a seed as well, and then fail. -/
def garden : Program where
  name := "garden"
  main := none
  types :=
    let here : Source.Span := ⟨0, 0, 1⟩
    let freeze : Stmt := .expr (.global .emit [.text "frost" here] here)
    let drop : Stmt := .expr (.spawn "Seed" [] here)
    let fail : Stmt := .expr (.ident "sun" here)
    let rot : Stmt := .expr (.global .destroy [.this here] here)
    [⟨"Plant", [], ⟨[], []⟩, some ⟨["delta"], [freeze, drop]⟩, some ⟨[], []⟩,
        ⟨[("rain", ⟨["amount", "kind"], [drop, fail]⟩)]⟩, here⟩,
      ⟨"Seed", [], ⟨[], []⟩, some ⟨[], []⟩, some ⟨[], []⟩, ⟨[("frost", ⟨[], [rot]⟩)]⟩, here⟩]

/-- Two plants, of which the first is destroyed, and a seed. -/
def gardening : List Operation :=
  [.install garden, .spawn "Plant" [], .spawn "Plant" [], .spawn "Seed" [],
    .destroy ⟨0, "Plant"⟩]

theorem Session.reachable_through {operations : List Operation} {settings : Settings}
    {hasKeys : Bool} {session : Session}
    (reached : through operations (start (World.initial settings hasKeys)) = some session) :
    session.Reachable :=
  ⟨settings, hasKeys, reaches_iff_through.mpr ⟨operations, reached⟩⟩

/-- An operation, also one that fails, keeps the registered entities in their order, but for
those a tick phase takes out, and behind them come those whose construction it completed, in
the order in which it did.  No identity is handed out twice, and no entity comes back. -/
theorem Session.Leads.registry_evolves {session after : Session} {operation : Operation}
    (reachable : session.Reachable) (leads : session.Leads operation after) :
    ∃ events, after.world.journal.toList = session.world.journal.toList ++ events ∧
      after.world.registry =
        operation.kept session.world ++ events.filterMap Event.completed? ∧
      (events.filterMap Event.completed?).Nodup ∧
      (∀ id : Nat, id ∈ events.filterMap Event.completed? →
        session.world.entities.size ≤ id ∧ id ∈ events.filterMap Event.begun?) ∧
      after.world.registry.Nodup ∧
      (∀ id : Nat, id ∈ after.world.registry → id < after.world.entities.size) ∧
      after.world.journal.toList.filterMap Event.begun? =
        List.range after.world.entities.size ∧
      ∀ id ∈ session.world.registry, id ∉ after.world.registry →
        ∀ later, after.Reaches later → id ∉ later.world.registry := by
  have settled := reachable.settled
  have settledAfter := leads.settled settled
  obtain ⟨events, first, noted, kept, entities, _, _, grows, _⟩ := leads.evolves
  have size : first.entities.size = session.world.entities.size := by rw [entities]
  refine ⟨events, noted, by rw [grows.registry, kept], grows.distinct, ?_,
    settledAfter.distinct, fun _ => settledAfter.made, settledAfter.begun, ?_⟩
  · intro id completed
    obtain ⟨fromFirst, made⟩ := grows.fresh completed
    obtain ⟨count, grown, begun⟩ := grows.begun
    refine ⟨by omega, ?_⟩
    rw [begun, List.mem_range'_1]
    omega
  · intro id registered out later reaches
    have made := settled.made registered
    have grown := grows.size_le
    exact (reaches.unregistered (by omega) out).2

theorem Session.registry_evolves_in_garden :
    ∃ before after : Session, before.Reachable ∧ before.Leads (.tickPhase 0) after ∧
      before.world.registry = [0, 1, 2] ∧
      ∃ events, after.world.journal.toList = before.world.journal.toList ++ events ∧
        events.filterMap Event.completed? = [3] ∧ after.world.registry = [1, 2, 3] ∧
        ∀ later, after.Reaches later → 0 ∉ later.world.registry := by
  obtain ⟨before, reached, seen⟩ := Option.map_eq_some_iff.mp
    (show (through gardening (start (World.initial .default false))).map (fun session =>
        (session.world.registry, (Operation.tickPhase 0).kept session.world,
          ((Operation.tickPhase 0).perform session).state?.map (·.world.registry))) =
      some ([0, 1, 2], [1, 2], some [1, 2, 3]) from by decide +kernel)
  have reachable := reachable_through reached
  simp only [Prod.mk.injEq, Option.map_eq_some_iff] at seen
  obtain ⟨registry, kept, after, leads, evolved⟩ := seen
  obtain ⟨events, noted, grown, _, _, _, _, _, gone⟩ :=
    Session.Leads.registry_evolves reachable leads
  rw [evolved, kept] at grown
  refine ⟨before, after, reachable, leads, registry, events, noted, ?_, evolved, ?_⟩
  · simpa using grown.symm
  · exact gone 0 (by simp [registry]) (by simp [evolved])

end EntityScript
