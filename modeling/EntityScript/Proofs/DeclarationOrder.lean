import Mathlib.Data.List.Perm.Subperm
import EntityScript.Proofs.CompoundAssignments
import EntityScript.Proofs.Constructions
import EntityScript.Proofs.FieldOrder

/-!
Declared properties among the fields.  An entity is given its properties in the order in which they
are declared.  They are its first fields, in this order, just if nothing that runs while an
initializer is evaluated gives the entity a field that is not next in turn.
-/

namespace EntityScript

open Script

/-! ### Fields that stay -/

/-- While scripts run, entities stay registered and keep their fields in their places. -/
structure Growing (world : World) (_ : List Event) (after : World) : Prop where
  size : world.entities.size ≤ after.entities.size
  names (id : EntityId) : world.fieldNames id <+: after.fieldNames id
  registered {id} : id ∈ world.registry → id ∈ after.registry

namespace Growing

variable {world after : World} {events : List Event}

theorem of_same (entities : after.entities = world.entities)
    (registry : after.registry = world.registry) : Growing world events after where
  size := Nat.le_of_eq (by rw [entities])
  names id := by rw [World.fieldNames_congr (World.fields_congr entities)]
  registered here := by rwa [registry]

theorem append {second third : World} {more : List Event} (first : Growing world events second)
    (rest : Growing second more third) : Growing world (events ++ more) third where
  size := Nat.le_trans first.size rest.size
  names id := (first.names id).trans (rest.names id)
  registered here := rest.registered (first.registered here)

theorem composes : History.Composes Growing where
  idle := .of_same rfl rfl
  append first rest := first.append rest

/-- An entity that is made has no fields at first. -/
theorem make (world : World) (type : EntityType) : Growing world [] (world.make type) where
  size := by
    rw [World.entities_make, Array.size_push]
    exact Nat.le_succ _
  names id := by rw [World.fieldNames_congr (World.fields_make world type)]
  registered here := here

theorem turn {call : EntityCall} {id : EntityId}
    (taken : TurnTaken Growing call id world events after) : Growing world events after := by
  refine taken.covered composes (.of_same rfl rfl) fun _ attempted => ?_
  cases attempted with
  | refused => exact .of_same rfl rfl
  | ran inside => exact ⟨inside.size, inside.names, inside.registered⟩

end Growing

theorem growing_covers : History.Covers Growing where
  toComposes := Growing.composes
  wrote {world id name value} :=
    ⟨Nat.le_of_eq (World.size_setField world id name value).symm,
      (world.gains_setField id name value).grows, fun here => here⟩
  painted := .of_same rfl rfl
  printed := .of_same rfl rfl
  destroyed {world ref _} _ _ :=
    ⟨by simp, (World.Gains.nothing (World.fieldNames_congr (world.fields_destroy ref))).grows,
      by simp⟩
  declared := .of_same rfl rfl
  refused := .of_same rfl rfl
  constructed _ inside := by
    have begun := (Growing.make _ _).append inside
    exact ⟨begun.size, begun.names, fun here => by simpa using .inl (begun.registered here)⟩
  abandoned _ inside := by
    have begun := (Growing.make _ _).append inside
    exact ⟨begun.size, begun.names, begun.registered⟩
  handled _ taken := Growing.turn taken
  registered related := related.registered

theorem Growing.declared (ref : EntityRef) (name : String) (value : Value) (world : World) :
    Growing world [.declared ref name]
      ((world.setField ref.id name value).note (.declared ref name)) := by
  have wrote : Growing world [] (world.setField ref.id name value) := growing_covers.wrote
  exact wrote.append growing_covers.declared

/-! ### Initializers -/

/-- The properties that the type declares, in order. -/
def EntityType.propertyNames (type : EntityType) : List String :=
  (type.initializers.map (·.name)).eraseDups

/-- The names are the first of those declared, or start with all of them. -/
def InTurn (declared names : List String) : Prop :=
  names <+: declared ∨ declared <+: names

theorem InTurn.shorter {declared names longer : List String} (inTurn : InTurn declared longer)
    (grown : names <+: longer) : InTurn declared names := by
  rcases inTurn with first | all
  · exact .inl (grown.trans first)
  · exact List.prefix_or_prefix_of_prefix grown all

theorem nodup_eraseDups : ∀ names : List String, names.eraseDups.Nodup
  | [] => by simp
  | name :: rest => by
      rw [List.eraseDups_cons, List.nodup_cons]
      exact ⟨by simp, nodup_eraseDups _⟩
termination_by names => names.length
decreasing_by
  have shorter := List.length_filter_le (fun other => !other == name) rest
  rw [List.length_cons]
  omega

/-- A name that was not there before is next in turn. -/
theorem prefix_eraseDups {done : List String} {name : String} (rest : List String)
    (fresh : name ∉ done) :
    done.eraseDups ++ [name] <+: (done ++ name :: rest).eraseDups := by
  have alone : (done ++ [name]).eraseDups = done.eraseDups ++ [name] := by
    simp [List.eraseDups_append, List.eraseDups_cons, List.removeAll, fresh]
  have split : done ++ name :: rest = (done ++ [name]) ++ rest := List.append_cons done name rest
  rw [split, List.eraseDups_append, alone]
  exact List.prefix_append _ _

/-- Names that are among the first of those declared and leave out none of them are all. -/
theorem eq_eraseDups {done names : List String} (first : names <+: done.eraseDups)
    (had : done ⊆ names) : names = done.eraseDups := by
  have whole : done.eraseDups ⊆ names := fun _ member => had (List.mem_eraseDups.mp member)
  exact first.eq_of_length_le (List.Nodup.subperm (nodup_eraseDups done) whole).length_le

/-- The next name in turn may come up. -/
theorem InTurn.next {done rest names : List String} {name : String}
    (inTurn : InTurn (done ++ name :: rest).eraseDups names) (had : done ⊆ names)
    (fresh : name ∉ names) : InTurn (done ++ name :: rest).eraseDups (names ++ [name]) := by
  have turn := prefix_eraseDups rest fun member => fresh (had member)
  rcases inTurn with first | all
  · rcases List.prefix_or_prefix_of_prefix first turn with short | long
    · rcases List.prefix_concat_iff.mp short with whole | within
      · exact absurd (by simp [whole]) fresh
      · -- All names declared before are there, so that there are no others.
        rw [eq_eraseDups within had]
        exact .inl turn
    · exact absurd (long.subset (by simp)) fresh
  · exact absurd (all.subset (by simp)) fresh

/-- Whether the first value of the property is found without other code being started. -/
def Initializer.startsNothing (initializer : Initializer) : Bool :=
  initializer.value.all (·.everyNode Expr.startsNothing)

theorem Initializer.fields_compute {calls : Calls} {frame : Frame} {world after : World}
    {value : Value} (initializer : Initializer) (quiet : initializer.startsNothing = true)
    (computed : initializer.compute calls frame world = .returned value after) :
    after.fields = world.fields := by
  obtain ⟨name, _ | expr⟩ := initializer
  · cases computed
    rfl
  · obtain ⟨_, _, unwriting⟩ := unwriting_eval calls frame expr quiet world after
      (by rw [show eval calls frame expr world = _ from computed]; rfl)
    exact unwriting.fields

/-- The fields of the entity are not in turn after one of the initializers is evaluated. -/
inductive Disturbed (calls : Calls) (frame : Frame) (ref : EntityRef) (declared : List String) :
    List Initializer → World → Prop
  | here {initializer rest world value evaluated} :
      initializer.compute calls frame world = .returned value evaluated →
      ¬InTurn declared (evaluated.fieldNames ref.id) →
      Disturbed calls frame ref declared (initializer :: rest) world
  | later {initializer rest world value evaluated} :
      initializer.compute calls frame world = .returned value evaluated →
      Disturbed calls frame ref declared rest
        ((evaluated.setField ref.id initializer.name value).note (.declared ref initializer.name)) →
      Disturbed calls frame ref declared (initializer :: rest) world

section Initializers

variable {calls : Calls} {frame : Frame} {ref : EntityRef} {initializers : List Initializer}
  {world after : World}

/-- The entity is there, has the properties declared so far, and its fields are in turn. -/
structure World.DeclaredSoFar (world : World) (id : EntityId) (done rest : List String) : Prop where
  made : id < world.entities.size
  had : done ⊆ world.fieldNames id
  inTurn : InTurn (done ++ rest).eraseDups (world.fieldNames id)

/-- Fields in turn stay in turn when the next property is declared. -/
theorem World.DeclaredSoFar.declare {done rest : List String} {name : String}
    (soFar : world.DeclaredSoFar ref.id done (name :: rest)) (value : Value) :
    ((world.setField ref.id name value).note (.declared ref name)).DeclaredSoFar ref.id
      (done ++ [name]) rest := by
  have split : done ++ name :: rest = (done ++ [name]) ++ rest := List.append_cons done name rest
  by_cases known : name ∈ world.fieldNames ref.id
  · have same : ((world.setField ref.id name value).note (.declared ref name)).fieldNames ref.id =
        world.fieldNames ref.id :=
      (fieldNames_setField _ _ _ _ _).trans (if_neg fun fresh => fresh.2.2 known)
    refine ⟨by simpa using soFar.made, ?_, ?_⟩
    · rw [same]
      exact List.append_subset.mpr ⟨soFar.had, by simpa using known⟩
    · rw [same, ← split]
      exact soFar.inTurn
  · have last : ((world.setField ref.id name value).note (.declared ref name)).fieldNames ref.id =
        world.fieldNames ref.id ++ [name] :=
      (fieldNames_setField _ _ _ _ _).trans (if_pos ⟨rfl, soFar.made, known⟩)
    refine ⟨by simpa using soFar.made, ?_, ?_⟩
    · rw [last]
      exact List.append_subset.mpr ⟨List.Subset.trans soFar.had (List.subset_append_left _ _),
        List.subset_append_right _ _⟩
    · rw [last, ← split]
      exact soFar.inTurn.next soFar.had known

/-- With all properties declared the fields start with them. -/
theorem World.DeclaredSoFar.all {id : EntityId} {done : List String}
    (soFar : world.DeclaredSoFar id done []) : done.eraseDups <+: world.fieldNames id := by
  obtain ⟨_, had, inTurn⟩ := soFar
  rw [List.append_nil] at inTurn
  rcases inTurn with first | all
  · rw [eq_eraseDups first had]
  · exact all

/-- Whatever evaluation does, the properties declared so far stay. -/
theorem World.DeclaredSoFar.later {holder : EntityId} {done rest : List String}
    (soFar : world.DeclaredSoFar holder done rest) {events : List Event}
    (grown : Growing world events after)
    (inTurn : InTurn (done ++ rest).eraseDups (after.fieldNames holder)) :
    after.DeclaredSoFar holder done rest where
  made := Nat.lt_of_lt_of_le soFar.made grown.size
  had := List.Subset.trans soFar.had (grown.names holder).subset
  inTurn := inTurn

variable (nested : calls.Follow Growing)

include nested

theorem Initializer.compute_grows {initializer : Initializer} {value : Value}
    (computed : initializer.compute calls frame world = .returned value after) :
    History.Links Growing world after := by
  have follows : Follows id Growing (initializer.compute calls frame) := by
    unfold compute
    split
    · exact eval_follows growing_covers.toCoversEvaluation nested frame _
    · exact follows_pure Growing.composes _
  exact follows world after (by rw [computed]; rfl)

theorem Initialized.grows (initialized : Initialized calls frame ref initializers world after)
    (holder : EntityId) : world.fieldNames holder <+: after.fieldNames holder := by
  induction initialized with
  | finished => exact List.prefix_refl _
  | @declared initializer _ world value evaluated _ computed _ rest =>
      obtain ⟨_, _, first⟩ := initializer.compute_grows nested computed
      have declared := Growing.declared ref initializer.name value evaluated
      exact ((first.names holder).trans (declared.names holder)).trans rest

/-- If nothing disturbs them, the fields are in turn when all properties are declared. -/
theorem Initialized.inTurn {done : List String}
    (initialized : Initialized calls frame ref initializers world after)
    (soFar : world.DeclaredSoFar ref.id done (initializers.map (·.name)))
    (undisturbed : ¬Disturbed calls frame ref (done ++ initializers.map (·.name)).eraseDups
      initializers world) :
    after.DeclaredSoFar ref.id (done ++ initializers.map (·.name)) [] := by
  induction initialized generalizing done with
  | finished => simpa using soFar
  | @declared initializer rest world value evaluated _ computed _ inductionHypothesis =>
      obtain ⟨_, _, grown⟩ := initializer.compute_grows nested computed
      have inTurn : InTurn (done ++ (initializer :: rest).map (·.name)).eraseDups
          (evaluated.fieldNames ref.id) := by
        by_contra apart
        exact undisturbed (.here computed apart)
      rw [List.map_cons, List.append_cons] at undisturbed ⊢
      exact inductionHypothesis ((soFar.later grown inTurn).declare value) fun disturbed =>
        undisturbed (.later computed disturbed)

/-- Fields that are in turn at the end were in turn all the time. -/
theorem Initialized.undisturbed {declared : List String}
    (initialized : Initialized calls frame ref initializers world after)
    (inTurn : InTurn declared (after.fieldNames ref.id)) :
    ¬Disturbed calls frame ref declared initializers world := by
  induction initialized with
  | finished => nofun
  | @declared initializer _ world value evaluated _ computed initialized inductionHypothesis =>
      intro disturbed
      cases disturbed with
      | here again apart =>
          cases computed.symm.trans again
          have declared := Growing.declared ref initializer.name value evaluated
          exact apart (inTurn.shorter
            ((declared.names ref.id).trans (initialized.grows nested ref.id)))
      | later again disturbed =>
          cases computed.symm.trans again
          exact inductionHypothesis inTurn disturbed

/-- Initializers that start no other code disturb nothing. -/
theorem undisturbed_of_startsNothing {done : List String}
    (quiet : ∀ initializer ∈ initializers, initializer.startsNothing = true)
    (soFar : world.DeclaredSoFar ref.id done (initializers.map (·.name))) :
    ¬Disturbed calls frame ref (done ++ initializers.map (·.name)).eraseDups
      initializers world := by
  induction initializers generalizing world done with
  | nil => nofun
  | cons initializer rest inductionHypothesis =>
      obtain ⟨here, others⟩ := List.forall_mem_cons.mp quiet
      have inTurn {value : Value} {evaluated : World}
          (computed : initializer.compute calls frame world = .returned value evaluated) :
          InTurn (done ++ (initializer :: rest).map (·.name)).eraseDups
            (evaluated.fieldNames ref.id) := by
        rw [World.fieldNames_congr (initializer.fields_compute here computed)]
        exact soFar.inTurn
      intro disturbed
      cases disturbed with
      | here computed apart => exact apart (inTurn computed)
      | @later _ _ _ value evaluated computed disturbed =>
          obtain ⟨_, _, grown⟩ := initializer.compute_grows nested computed
          have declared := (soFar.later grown (inTurn computed)).declare value
          rw [List.map_cons, List.append_cons] at disturbed
          exact inductionHypothesis others declared disturbed

end Initializers

/-- Where the fields of an entity come from. -/
structure FieldsAsAssigned (past : List Moment) (world : World) (id : EntityId)
    (type : EntityType) : Prop where
  /-- No field has ever been moved or taken away. -/
  kept : ∀ moment ∈ past, moment.world.fieldNames id <+: world.fieldNames id
  /-- Of two fields the one in front was assigned first: it was there without the other one. -/
  apart : (world.fieldNames id).Pairwise fun first second =>
    ∃ moment ∈ past, first ∈ moment.world.fieldNames id ∧ second ∉ moment.world.fieldNames id
  /-- The declared properties are the first fields if no initializer starts other code. -/
  quiet : (∀ initializer ∈ type.initializers, initializer.startsNothing = true) →
    type.propertyNames <+: world.fieldNames id
  /-- The declared properties are the first fields just if nothing disturbed the initializers. -/
  declared : ∃ typeName arguments before,
    ⟨.spawn typeName arguments (.ok ⟨id, type.name⟩), before⟩ ∈ past ∧
    before.constructible typeName arguments = .ok type ∧ id = before.entities.size ∧
    (type.propertyNames <+: world.fieldNames id ↔
      ¬Disturbed (before.enter (.construction ⟨id, type.name⟩)).calls
        (Frame.ofCall ⟨id, type.name⟩ type.constructor.parameters arguments) ⟨id, type.name⟩
        type.propertyNames type.initializers
        ((before.enter (.construction ⟨id, type.name⟩)).make type))

theorem World.fieldNames_make_size (world : World) (type : EntityType) :
    (world.make type).fieldNames world.entities.size = [] := by
  rw [fieldNames_congr (fields_make world type), fieldNames, fields, entity?,
    Array.getElem?_eq_none (Nat.le_refl _)]
  rfl

theorem Ready.fieldsAsAssigned {past : List Moment} {world : World} {id : EntityId}
    {type : EntityType} (ready : Ready past world id type) (ordered : Ordered past world) :
    FieldsAsAssigned past world id type := by
  obtain ⟨_, constructed, _⟩ := ready
  cases constructed with
  | @constructed typeName arguments _ _ before initialized left constructible named initializers
      ran happened =>
      have own : id = before.entities.size := congrArg EntityRef.id named
      have nested := (before.enter (.construction ⟨id, type.name⟩)).calls_follow growing_covers
      have soFar : ((before.enter (.construction ⟨id, type.name⟩)).make type).DeclaredSoFar id []
          (type.initializers.map (·.name)) := by
        refine ⟨by simp [own], List.nil_subset _, .inl ?_⟩
        have none := (before.enter (.construction ⟨id, type.name⟩)).fieldNames_make_size type
        rw [World.entities_enter, ← own] at none
        rw [none]
        exact List.nil_prefix
      have grown : initialized.fieldNames id <+: world.fieldNames id := by
        obtain ⟨_, _, body⟩ := runBody_follows growing_covers.toCoversEvaluation nested _ _
          initialized left (by rw [ran]; rfl)
        have since := ordered.kept _ (happened.subset (List.mem_cons_of_mem _
          (List.mem_singleton_self _))) id
        exact (body.names id).trans since
      have first := fun undisturbed =>
        (initializers.inTurn nested soFar undisturbed).all.trans grown
      refine ⟨fun moment member => ordered.kept moment member id, ordered.apart id,
        fun quiet => first (undisturbed_of_startsNothing nested quiet soFar), typeName, arguments,
        before, happened.subset (List.mem_cons_self ..), constructible, own, fun all => ?_, first⟩
      exact initializers.undisturbed nested (List.prefix_or_prefix_of_prefix grown all)

theorem ordered_initial (settings : Settings) (hasKeys : Bool) :
    Ordered [] (World.initial settings hasKeys) := by
  refine ⟨List.forall_mem_nil _, fun id => ?_⟩
  have none : (World.initial settings hasKeys).entity? id = none := Array.getElem?_empty
  rw [World.fieldNames, World.fields, none]
  exact List.Pairwise.nil

/-- At every moment of a run and at its end, the fields of an entity that is registered are in the
order in which they were first assigned, whoever assigned them.  They start with the properties
that its type declares, in the order in which they are declared, just if what runs while the
initializers are evaluated does not give the entity fields out of turn, as it never does if they
start no other code. -/
theorem Session.fields_in_order_of_assignment (settings : Settings) (hasKeys : Bool)
    (operations : List Operation) :
    let first := start (World.initial settings hasKeys)
    let run := trace operations first
    (∀ earlier moment later, run = earlier ++ moment :: later →
      ∀ id ∈ moment.world.registry, ∃ type, moment.world.type? id = some type ∧
        FieldsAsAssigned (earlier ++ [moment]) moment.world id type) ∧
    ∀ session, through operations first = some session →
      ∀ id ∈ session.world.registry, ∃ type, session.world.type? id = some type ∧
        FieldsAsAssigned run session.world id type := by
  intro first run
  have none : AllReady [] first.world := List.forall_mem_nil _
  have initial : Ordered [] first.world := ordered_initial settings hasKeys
  obtain ⟨proper, readyLast⟩ := trace_proper operations (Nat.zero_le _) none
  obtain ⟨along, orderedLast⟩ := trace_inOrder operations initial
  constructor
  · intro earlier moment later split id here
    change trace operations first = earlier ++ moment :: later at split
    rw [split] at proper along
    obtain ⟨type, ready⟩ := proper.split.registered id here
    exact ⟨type, ready.known, ready.fieldsAsAssigned along.split⟩
  · intro session reached id here
    obtain ⟨type, ready⟩ := readyLast session reached id here
    exact ⟨type, ready.known, ready.fieldsAsAssigned (orderedLast session reached)⟩

/-- A tag that a ball makes for itself gives the ball a size, before the ball has declared one. -/
def tagging : Program where
  name := "tagging"
  main := none
  types :=
    let here : Source.Span := ⟨0, 0, 1⟩
    let mark : Stmt := .assign ⟨.ident "ball", ["size"]⟩ .set (.number 1 here) here
    let tag : Expr := .spawn "Tag" [.this here] here
    [⟨"Tag", [], ⟨["ball"], [mark]⟩, none, none, .empty, here⟩,
      ⟨"Ball", [⟨"tag", some tag⟩, ⟨"size", some (.number 2 here)⟩], ⟨[], []⟩, none, none, .empty,
        here⟩]

def tagged : List Operation := [.install tagging, .spawn "Ball" []]

namespace Session

theorem through_tagged :
    ∃ session type, through tagged (start (World.initial .default false)) = some session ∧
      session.world.registry = [1, 0] ∧ session.world.type? 0 = some type ∧
      type.propertyNames = ["tag", "size"] ∧ session.world.fieldNames 0 = ["size", "tag"] := by
  have seen : ((through tagged (start (World.initial .default false))).map fun session =>
      (session.world.registry, (session.world.type? 0).map EntityType.propertyNames,
        session.world.fieldNames 0)) = some ([1, 0], some ["tag", "size"], ["size", "tag"]) := by
    decide +kernel
  obtain ⟨session, reached, seen⟩ := Option.map_eq_some_iff.mp seen
  obtain ⟨registry, seen⟩ := Prod.mk.inj seen
  obtain ⟨found, names⟩ := Prod.mk.inj seen
  obtain ⟨type, known, properties⟩ := Option.map_eq_some_iff.mp found
  exact ⟨session, type, reached, registry, known, properties, names⟩

/-- The ball has its size in front of its tag, although it declares the tag first. -/
theorem size_before_tag :
    ∃ session, through tagged (start (World.initial .default false)) = some session ∧
      0 ∈ session.world.registry ∧ ∃ type, session.world.type? 0 = some type ∧
        type.propertyNames = ["tag", "size"] ∧ session.world.fieldNames 0 = ["size", "tag"] ∧
        ¬type.propertyNames <+: session.world.fieldNames 0 := by
  obtain ⟨session, type, reached, registry, known, properties, names⟩ := through_tagged
  refine ⟨session, reached, by simp [registry], type, known, properties, names, ?_⟩
  rw [properties, names]
  decide

/-- It was the tag that gave the ball its size, while the ball was evaluating its tag. -/
theorem tag_disturbs :
    ∃ run, run = trace tagged (start (World.initial .default false)) ∧
      (∃ moment ∈ run, "size" ∈ moment.world.fieldNames 0 ∧ "tag" ∉ moment.world.fieldNames 0) ∧
      ∃ type typeName arguments before,
        ⟨.spawn typeName arguments (.ok ⟨0, type.name⟩), before⟩ ∈ run ∧
        Disturbed (before.enter (.construction ⟨0, type.name⟩)).calls
          (Frame.ofCall ⟨0, type.name⟩ type.constructor.parameters arguments) ⟨0, type.name⟩
          type.propertyNames type.initializers
          ((before.enter (.construction ⟨0, type.name⟩)).make type) := by
  obtain ⟨session, type, reached, registry, known, properties, names⟩ := through_tagged
  obtain ⟨_, last⟩ := fields_in_order_of_assignment .default false tagged
  obtain ⟨_, knownToo, assigned⟩ := last session reached 0 (by simp [registry])
  obtain rfl := Option.some.inj (known.symm.trans knownToo)
  refine ⟨_, rfl, ?_, ?_⟩
  · have apart := assigned.apart
    rw [names] at apart
    exact List.rel_of_pairwise_cons apart (List.mem_singleton_self _)
  · obtain ⟨typeName, arguments, before, spawned, _, _, first⟩ := assigned.declared
    refine ⟨type, typeName, arguments, before, spawned, ?_⟩
    rw [names, properties] at first
    rw [properties]
    by_contra undisturbed
    exact absurd (first.mpr undisturbed) (by decide)

end Session

end EntityScript
