import EntityScript.Proofs.Faithfulness
import EntityScript.Proofs.Readiness

/-!
Entities are constructed before they are called, in every run of operations.  A construction is
left only once, so an entity whose construction fails is never registered, and never called.
-/

namespace EntityScript

/-- The entity of which the construction is left. -/
def Act.finished? : Act → Option EntityId
  | leave (.construction ref) _ => some ref.id
  | _ => none

/-- The entities of which the construction is left, in order. -/
def finished (moments : List Moment) : List EntityId :=
  moments.filterMap fun moment => moment.act.finished?

@[simp]
theorem finished_append (moments more : List Moment) :
    finished (moments ++ more) = finished moments ++ finished more :=
  List.filterMap_append

theorem finished_cons {moment : Moment} {rest : List Moment}
    (none : moment.act.finished? = none) : finished (moment :: rest) = finished rest := by
  simp [finished, none]

theorem finished_eq_nil {moments : List Moment}
    (none : ∀ moment ∈ moments, moment.act.finished? = none) : finished moments = [] :=
  List.filterMap_eq_nil_iff.mpr none

theorem finished_isolating {outcome : Outcome World Unit} {ref : EntityRef} {phase : Phase} :
    finished (outcome.isolating ref phase) = [] := by
  refine finished_eq_nil fun moment member => ?_
  obtain ⟨error, last, _, rfl⟩ := Outcome.mem_isolating member
  dsimp only
  split <;> rfl

theorem finished_leaving_call {outcome : Outcome World Unit} {ref : EntityRef}
    {call : EntityCall} : finished (outcome.leaving (.call ref call)) = [] := by
  cases outcome <;> rfl

/-- Constructions that are left are of entities that were made since, each once. -/
structure Finishes (world : World) (moments : List Moment) (last? : Option World) : Prop where
  fresh : ∀ id ∈ finished moments, world.entities.size ≤ id
  distinct : (finished moments).Nodup
  made : ∀ last, last? = some last → ∀ id ∈ finished moments, id < last.entities.size

theorem Course.retains {levels : Nat} {world after : World} {moments : List Moment}
    {outcome : Outcome World Unit} (course : Course levels world moments outcome)
    (ends : outcome.state? = some after) : Retains world after := by
  obtain ⟨_, _, retaining⟩ := course.links retaining_frames ends
  exact retaining.toRetains

section Finishes

variable {world : World} {moments : List Moment} {last? : Option World}

theorem finishes_of_none (none : finished moments = []) : Finishes world moments last? where
  fresh := by simp [none]
  distinct := by simp [none]
  made := by simp [none]

/-- What a computation does after the one that it goes on from is with entities made later. -/
theorem Finishes.append {middle : World} {more : List Moment}
    (first : Finishes world moments (some middle)) (rest : Finishes middle more last?)
    (before : Retains world middle) (later : ∀ last, last? = some last → Retains middle last) :
    Finishes world (moments ++ more) last? where
  fresh id member := by
    rw [finished_append, List.mem_append] at member
    rcases member with early | late
    · exact first.fresh id early
    · exact Nat.le_trans before.size (rest.fresh id late)
  distinct := by
    rw [finished_append]
    refine List.nodup_append.mpr ⟨first.distinct, rest.distinct, ?_⟩
    intro id early other late
    exact Nat.ne_of_lt (Nat.lt_of_lt_of_le (first.made _ rfl id early) (rest.fresh other late))
  made last ends id member := by
    rw [finished_append, List.mem_append] at member
    rcases member with early | late
    · exact Nat.lt_of_lt_of_le (first.made _ rfl id early) (later last ends).size
    · exact rest.made last ends id late

end Finishes

theorem finished_leaving_construction {outcome : Outcome World Unit} {ref : EntityRef} {id : Nat}
    (member : id ∈ finished (outcome.leaving (.construction ref))) : id = ref.id := by
  cases outcome with
  | returned _ _ | raised _ _ => exact List.mem_singleton.mp member
  | endless => cases member

theorem nodup_leaving_construction (outcome : Outcome World Unit) (ref : EntityRef) :
    (finished (outcome.leaving (.construction ref))).Nodup := by
  cases outcome with
  | returned _ _ | raised _ _ => exact (List.pairwise_singleton _ _)
  | endless => exact List.nodup_nil

/-- What is constructed while an entity is set up was made after it. -/
theorem Finishes.construction {world : World} {moments : List Moment}
    {outcome : Outcome World Unit} {type : EntityType} {ref : EntityRef} {start : Moment}
    (named : ref = ⟨world.entities.size, type.name⟩) (begins : start.act.finished? = none)
    (inside : Finishes ((world.enter (.construction ref)).make type) moments outcome.state?)
    (grows : ∀ last, outcome.state? = some last →
      Retains ((world.enter (.construction ref)).make type) last) :
    Finishes world (start :: moments ++ (outcome.registered ref).leaving (.construction ref))
      ((outcome.registered ref).left (.construction ref)).state? := by
  have size : ((world.enter (.construction ref)).make type).entities.size = ref.id + 1 := by
    simp [named]
  have first : world.entities.size = ref.id := by rw [named]
  have later : ∀ id ∈ finished moments, ref.id < id := by
    intro id nested
    have fresh := inside.fresh id nested
    rwa [size] at fresh
  have ids : finished
      (start :: moments ++ (outcome.registered ref).leaving (.construction ref)) =
      finished moments ++ finished ((outcome.registered ref).leaving (.construction ref)) := by
    rw [List.cons_append, finished_cons begins, finished_append]
  refine ⟨?_, ?_, ?_⟩
  · intro id member
    rw [ids, List.mem_append] at member
    rw [first]
    rcases member with nested | own
    · exact Nat.le_of_lt (later id nested)
    · exact Nat.le_of_eq (finished_leaving_construction own).symm
  · rw [ids]
    refine List.nodup_append.mpr ⟨inside.distinct, nodup_leaving_construction _ ref, ?_⟩
    intro id nested other own
    rw [finished_leaving_construction own]
    exact Nat.ne_of_gt (later id nested)
  · intro after ends id member
    obtain ⟨middle, succeeded, reached, rfl⟩ := Outcome.state?_left ends
    obtain ⟨last, lastReached, same⟩ := Outcome.state?_registered reached
    have entities : middle.entities = last.entities := by rcases same with rfl | rfl <;> rfl
    rw [World.entities_leave, entities]
    rw [ids, List.mem_append] at member
    rcases member with nested | own
    · exact inside.made last lastReached id nested
    · rw [finished_leaving_construction own]
      exact Nat.lt_of_lt_of_le (size ▸ Nat.lt_succ_self _) (grows last lastReached).size

theorem Course.finishes {levels : Nat} {world : World} {moments : List Moment}
    {outcome : Outcome World Unit} (course : Course levels world moments outcome) :
    Finishes world moments outcome.state? := by
  induction course with
  | idle | endless | quiet _ | began | worked _ | failed _ _ | unspawned _ | refusedSpawn _ =>
      exact finishes_of_none rfl
  | append first second before rest =>
      exact before.append rest (first.retains rfl) fun _ ends => second.retains ends
  | executed _ inside => exact ⟨inside.fresh, inside.distinct, inside.made⟩
  | spawned _ named _ body inside =>
      exact inside.construction named rfl fun _ ends => body.retains ends
  | refusedCall _ _ _ => exact finishes_of_none finished_isolating
  | @called _ world ref call moments outcome _ _ _ body inside =>
      have ids : finished (⟨.call ref call (.ok ()), world⟩ :: moments ++
          outcome.leaving (.call ref call) ++
          (outcome.left (.call ref call)).isolating ref call.phase) = finished moments := by
        rw [finished_append, finished_append, finished_isolating, finished_leaving_call,
          List.append_nil, List.append_nil]
        rfl
      refine ⟨?_, by rw [ids]; exact inside.distinct, ?_⟩
      · rw [ids]
        exact inside.fresh
      · intro after ends
        obtain ⟨left, leftReached, same⟩ := Outcome.state?_isolated ends
        have entities : after.entities = left.entities := by
          rcases same with rfl | ⟨error, rfl⟩ <;> rfl
        obtain ⟨last, _, reached, rfl⟩ := Outcome.state?_left leftReached
        rw [ids, entities]
        exact inside.made last reached
  | @ended _ _ _ outcome phase _ inside =>
      refine ⟨inside.fresh, inside.distinct, fun after ends => ?_⟩
      obtain ⟨last, reached, rfl⟩ := Outcome.state?_ended ends
      exact inside.made last reached

theorem mem_finished {moments : List Moment} {moment : Moment} {id : EntityId}
    (member : moment ∈ moments) (finishes : moment.act.finished? = some id) :
    id ∈ finished moments :=
  List.mem_filterMap.mpr ⟨moment, member, finishes⟩

/-- What failed to be constructed is never constructed, as its construction is left once. -/
theorem Constructed.ne_failed {run : List Moment} (distinct : (finished run).Nodup)
    {ref failed : EntityRef} {type : EntityType} {world : World}
    (constructed : Constructed run ref type)
    (fails : ⟨.leave (.construction failed) false, world⟩ ∈ run) : ref.id ≠ failed.id := by
  intro same
  cases constructed with
  | constructed _ _ _ _ happened =>
      have left := happened.subset (List.mem_cons_of_mem _ (List.mem_singleton_self _))
      obtain ⟨earlier, later, rfl⟩ := List.append_of_mem fails
      have ids : finished (earlier ++ ⟨.leave (.construction failed) false, world⟩ :: later) =
          finished earlier ++ failed.id :: finished later := finished_append _ _
      rw [ids, ← same] at distinct
      obtain ⟨_, distinctLater, apart⟩ := List.nodup_append.mp distinct
      rcases List.mem_append.mp left with before | here
      · exact apart _ (mem_finished before rfl) _ (List.mem_cons_self ..) rfl
      · rcases List.mem_cons.mp here with equal | after
        · cases equal
        · exact (List.nodup_cons.mp distinctLater).1 (mem_finished after rfl)

theorem Operation.entities_entry (operation : Operation) (world : World) :
    (operation.entry world).entities = world.entities := by
  cases operation with
  | tickPhase _ => exact world.entities_cleared
  | step _ | frameAt _ => exact world.pumpInput.entities_cleared
  | _ => rfl

theorem Operation.registry_entry (operation : Operation) (world : World) :
    (operation.entry world).registry ⊆ world.registry := by
  cases operation with
  | tickPhase _ =>
      rw [entry, World.registry_cleared]
      exact List.filter_sublist.subset
  | step _ | frameAt _ =>
      rw [entry, World.registry_cleared]
      exact List.filter_sublist.subset
  | _ => exact List.Subset.refl _

theorem Session.Leads.retains {session after : Session} {operation : Operation}
    (leads : session.Leads operation after) : Retains session.world after.world := by
  have entered : Retains session.world (operation.entry session.world) :=
    .of_entities (operation.entities_entry session.world)
  exact entered.trans ((operation.course session).retains leads.ends)

/-- Whatever operations do, entities retain their types and the fields that they have. -/
theorem Session.Reaches.retains {session later : Session} (reaches : session.Reaches later) :
    Retains session.world later.world := by
  induction reaches with
  | refl => exact .of_entities rfl
  | step _ leads inductionHypothesis => exact inductionHypothesis.trans leads.retains

namespace Session

theorem trace_proper (operations : List Operation) {session : Session}
    (depth : session.world.depth ≤ maxCallDepth) {past : List Moment}
    (ready : AllReady past session.world) :
    Along Proper past (trace operations session) ∧
      ∀ after, through operations session = some after →
        AllReady (past ++ trace operations session) after.world := by
  have single (operation : Operation) (session : Session) (past : List Moment)
      (first : session.world.depth ≤ maxCallDepth ∧ AllReady past session.world) :
      Along Proper past (operation.trace session) ∧
        ∀ after, session.Leads operation after →
          after.world.depth ≤ maxCallDepth ∧
            AllReady (past ++ operation.trace session) after.world := by
    obtain ⟨depth, ready⟩ := first
    have entered : AllReady past (operation.entry session.world) :=
      ready.later (.of_entities (operation.entities_entry session.world))
        (fun id here => operation.registry_entry session.world here) (.refl _)
    have steady := operation.steady_entry session.world
    have proper := (operation.course session).proper (by rw [steady.depth]; omega) entered
    exact ⟨proper.along, fun after leads => ⟨leads.steady.depth ▸ depth, proper.ready leads.ends⟩⟩
  obtain ⟨along, last⟩ := along_trace single operations ⟨depth, ready⟩
  exact ⟨along, fun after ends => (last after ends).2⟩

theorem trace_finishes (operations : List Operation) (session : Session) :
    Finishes session.world (trace operations session)
      ((through operations session).map Session.world) := by
  induction operations generalizing session with
  | nil => exact finishes_of_none rfl
  | cons operation rest inductionHypothesis =>
      have course := (operation.course session).finishes
      have entities := operation.entities_entry session.world
      have own : Finishes session.world (operation.trace session)
          ((operation.perform session).over Session.world).state? :=
        ⟨by rw [← entities]; exact course.fresh, course.distinct, course.made⟩
      unfold trace through
      cases ended : (operation.perform session).state? with
      | none =>
          rw [List.append_nil]
          refine ⟨own.fresh, own.distinct, fun last ends => ?_⟩
          cases ends
      | some middle =>
          have leads : session.Leads operation middle := ended
          rw [leads.ends] at own
          refine own.append (inductionHypothesis middle) leads.retains fun last ends => ?_
          obtain ⟨after, reached, rfl⟩ := Option.map_eq_some_iff.mp ends
          exact (reaches_iff_through.mpr ⟨rest, reached⟩).retains

end Session

/-- At every moment of a run, the entities that are registered have been constructed, from the
first initializer to the end of the constructor, and all their declared properties can be read.
A call is only ever attempted into an entity that was constructed before.  An entity of which the
construction fails is not registered at any moment, and not called.  The journal tells of no
activity that the run leaves out. -/
theorem Session.constructed_before_called (settings : Settings) (hasKeys : Bool)
    (operations : List Operation) :
    let first := start (World.initial settings hasKeys)
    let run := trace operations first
    (∀ earlier moment later, run = earlier ++ moment :: later →
      (∀ ref call answer, moment.act = .call ref call answer →
        ∃ type, moment.world.type? ref.id = some type ∧ Constructed earlier ref type) ∧
      ∀ id ∈ moment.world.registry, ∃ type, moment.world.type? id = some type ∧
        Constructed (earlier ++ [moment]) ⟨id, type.name⟩ type ∧ moment.world.Readable id type) ∧
    (∀ session, through operations first = some session →
      ∀ id ∈ session.world.registry, ∃ type, session.world.type? id = some type ∧
        Constructed run ⟨id, type.name⟩ type ∧ session.world.Readable id type) ∧
    (∀ failed world, ⟨.leave (.construction failed) false, world⟩ ∈ run →
      (∀ moment ∈ run, failed.id ∉ moment.world.registry ∧
        ∀ ref call answer, moment.act = .call ref call answer → ref.id ≠ failed.id) ∧
      ∀ session, through operations first = some session →
        failed.id ∉ session.world.registry) ∧
    ∀ session, through operations first = some session →
      session.world.passages = run.flatMap Moment.passages := by
  intro first run
  have none : AllReady [] first.world := List.forall_mem_nil _
  obtain ⟨along, readyLast⟩ := trace_proper operations (Nat.zero_le _) none
  have proper : ∀ {earlier moment later}, run = earlier ++ moment :: later →
      Proper earlier moment := by
    intro earlier moment later split
    rw [← List.nil_append earlier]
    exact (split ▸ along : Along Proper [] (earlier ++ moment :: later)).split
  refine ⟨?_, ?_, ?_, fun _ reached => passages_through reached⟩
  · intro earlier moment later split
    constructor
    · intro ref call answer calls
      exact (proper split).called (by rw [calls]; rfl)
    · intro id here
      obtain ⟨type, ready⟩ := (proper split).registered id here
      exact ⟨type, ready.known, ready.constructed, ready.properties.readable⟩
  · intro session reached id here
    obtain ⟨type, ready⟩ := readyLast session reached id here
    exact ⟨type, ready.known, ready.constructed, ready.properties.readable⟩
  · intro failed world fails
    have distinct := (trace_finishes operations first).distinct
    constructor
    · intro moment member
      obtain ⟨earlier, later, split⟩ := List.append_of_mem member
      constructor
      · intro here
        obtain ⟨type, ready⟩ := (proper split).registered failed.id here
        have upTo : (earlier ++ [moment]).Sublist run := by
          rw [split.trans (List.append_cons earlier moment later)]
          exact List.sublist_append_left _ _
        exact (ready.constructed.later upTo).ne_failed distinct fails rfl
      · intro ref call answer calls
        obtain ⟨type, _, constructed⟩ := (proper split).called (by rw [calls]; rfl)
        have before : earlier.Sublist run := by
          rw [split]
          exact List.sublist_append_left _ _
        exact (constructed.later before).ne_failed distinct fails
    · intro session reached here
      obtain ⟨type, ready⟩ := readyLast session reached failed.id here
      exact ready.constructed.ne_failed distinct fails rfl

/-- A ghost shows itself to a house while it is constructed, and then fails to be.  Both have a
handler, but only the house ever hears anything. -/
def haunting : Program where
  name := "haunting"
  main := none
  types :=
    let here : Source.Span := ⟨0, 0, 1⟩
    let appear : Stmt := .expr (.global .emit [.text "boo" here, .this here] here)
    let vanish : Stmt := .expr (.ident "body" here)
    let welcome : Stmt := .assign ⟨.this, ["guest"]⟩ .set (.ident "guest" here) here
    [⟨"House", [⟨"guest", none⟩], ⟨[], []⟩, none, none, ⟨[("boo", ⟨["guest"], [welcome]⟩)]⟩,
        here⟩,
      ⟨"Ghost", [], ⟨[], [appear, vanish]⟩, none, none, ⟨[("boo", ⟨[], []⟩)]⟩, here⟩]

/-- The house is built, the ghost shows itself and fails, and then it is called for. -/
def haunt : List Operation :=
  [.install haunting, .spawn "House" [], .spawn "Ghost" [], .emit "boo" .unset]

/-- The house knows the ghost when the construction of the ghost fails. -/
def Moment.leaks (moment : Moment) : Bool :=
  match moment.act, moment.world.readField (.entity ⟨0, "House"⟩) "guest" with
  | .leave (.construction failed) false, .ok (.entity leaked) =>
      failed == ⟨1, "Ghost"⟩ && leaked == ⟨1, "Ghost"⟩
  | _, _ => false

/-- The house hears, about nothing, that there is a ghost. -/
def Moment.hears (moment : Moment) : Bool :=
  match moment.act with
  | .call ref (.handler event .unset) (.ok ()) => ref == ⟨0, "House"⟩ && event == "boo"
  | _ => false

theorem Session.constructed_before_called_in_haunting :
    ∃ run, run = trace haunt (start (World.initial .default false)) ∧
      (∃ world, ⟨.leave (.construction ⟨1, "Ghost"⟩) false, world⟩ ∈ run ∧
        world.readField (.entity ⟨0, "House"⟩) "guest" = .ok (.entity ⟨1, "Ghost"⟩)) ∧
      (∀ moment ∈ run, 1 ∉ moment.world.registry) ∧
      ∃ earlier moment later, run = earlier ++ moment :: later ∧
        moment.act = .call ⟨0, "House"⟩ (.handler "boo" .unset) (.ok ()) ∧
        ∃ type, Constructed earlier ⟨0, "House"⟩ type := by
  obtain ⟨proper, _, failures, _⟩ := Session.constructed_before_called .default false haunt
  have leaks : (trace haunt (start (World.initial .default false))).any Moment.leaks = true := by
    decide +kernel
  have calls : (trace haunt (start (World.initial .default false))).any Moment.hears = true := by
    decide +kernel
  refine ⟨_, rfl, ?_⟩
  generalize trace haunt (start (World.initial .default false)) = run at *
  have haunted : ∃ world, ⟨.leave (.construction ⟨1, "Ghost"⟩) false, world⟩ ∈ run ∧
      world.readField (.entity ⟨0, "House"⟩) "guest" = .ok (.entity ⟨1, "Ghost"⟩) := by
    obtain ⟨⟨act, world⟩, fails, seen⟩ := List.any_eq_true.mp leaks
    unfold Moment.leaks at seen
    dsimp only at seen
    split at seen
    · rename_i reads
      simp only [Bool.and_eq_true, beq_iff_eq] at seen
      obtain ⟨rfl, rfl⟩ := seen
      exact ⟨world, fails, reads⟩
    · cases seen
  refine ⟨haunted, ?_, ?_⟩
  · obtain ⟨world, fails, _⟩ := haunted
    intro moment member
    exact ((failures _ _ fails).1 moment member).1
  · obtain ⟨⟨act, world⟩, member, seen⟩ := List.any_eq_true.mp calls
    unfold Moment.hears at seen
    dsimp only at seen
    split at seen
    · simp only [Bool.and_eq_true, beq_iff_eq] at seen
      obtain ⟨rfl, rfl⟩ := seen
      obtain ⟨earlier, later, split⟩ := List.append_of_mem member
      obtain ⟨type, _, constructed⟩ := (proper earlier _ later split).1 _ _ _ rfl
      exact ⟨earlier, _, later, split, rfl, type, constructed⟩
    · cases seen

end EntityScript
