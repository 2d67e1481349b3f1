import EntityScript.Proofs.Activities
import EntityScript.Proofs.Properties

/-!
Entities that are ready.  While it is set up an entity can be referred to, but it is registered
only when its construction has succeeded, and only registered entities are called.  So whatever
runs, every entity that is registered is ready to be called, and no other one is called.
-/

namespace EntityScript

open Script

/-- The property holds of every moment and of all that came before it. -/
def Along (P : List Moment → Moment → Prop) (past : List Moment) : List Moment → Prop
  | [] => True
  | moment :: rest => P past moment ∧ Along P (past ++ [moment]) rest

section Along

variable {P : List Moment → Moment → Prop} {past moments more : List Moment}

theorem along_append :
    Along P past (moments ++ more) ↔ Along P past moments ∧ Along P (past ++ moments) more := by
  induction moments generalizing past with
  | nil => simp [Along]
  | cons moment rest inductionHypothesis => simp [Along, inductionHypothesis, and_assoc]

theorem along_singleton {moment : Moment} (holds : P past moment) : Along P past [moment] :=
  ⟨holds, trivial⟩

theorem Along.split {earlier later : List Moment} {moment : Moment}
    (along : Along P past (earlier ++ moment :: later)) : P (past ++ earlier) moment :=
  (along_append.mp along).2.1

end Along

/-- What each operation keeps, it keeps along what happens while it runs and it is so afterwards,
holds along operations in a row. -/
theorem Session.along_trace {holds : List Moment → Moment → Prop}
    {ready : List Moment → Session → Prop}
    (single : ∀ (operation : Operation) (session : Session) (past : List Moment),
      ready past session →
        Along holds past (operation.trace session) ∧
          ∀ after, session.Leads operation after → ready (past ++ operation.trace session) after)
    (operations : List Operation) {session : Session} {past : List Moment}
    (first : ready past session) :
    Along holds past (trace operations session) ∧
      ∀ after, through operations session = some after →
        ready (past ++ trace operations session) after := by
  induction operations generalizing session past with
  | nil =>
      refine ⟨trivial, fun after ends => ?_⟩
      cases ends
      rwa [trace, List.append_nil]
  | cons operation rest inductionHypothesis =>
      obtain ⟨along, left⟩ := single operation session past first
      unfold trace through
      cases ended : (operation.perform session).state? with
      | none =>
          rw [List.append_nil]
          refine ⟨along, fun after ends => ?_⟩
          cases ends
      | some middle =>
          obtain ⟨alongRest, last⟩ := inductionHypothesis (left middle ended)
          refine ⟨along_append.mpr ⟨along, alongRest⟩, fun after ends => ?_⟩
          rw [← List.append_assoc]
          exact last after ends

theorem setUp_returned {calls : Calls} {type : EntityType} {ref : EntityRef}
    {arguments : List Value} {world ready : World}
    (ran : setUp calls type ref arguments world = .returned () ready) :
    ∃ initialized,
      Initialized calls (Frame.ofCall ref type.constructor.parameters arguments) ref
        type.initializers world initialized ∧
      runBody calls (Frame.ofCall ref type.constructor.parameters arguments)
        type.constructor.body initialized = .returned () ready := by
  rw [setUp_eq] at ran
  obtain ⟨_, initialized, first, body⟩ := returned_bind ran
  exact ⟨initialized, initialized_of_returned first, body⟩

/-- The construction of an entity was attempted in the past, its initializers have run one after
another and then the whole body of the constructor, and it was left with success. -/
inductive Constructed (past : List Moment) : EntityRef → EntityType → Prop where
  | constructed {typeName arguments type ref before initialized ready} :
      before.constructible typeName arguments = .ok type →
      ref = ⟨before.entities.size, type.name⟩ →
      Initialized (before.enter (.construction ref)).calls
        (Frame.ofCall ref type.constructor.parameters arguments) ref type.initializers
        ((before.enter (.construction ref)).make type) initialized →
      runBody (before.enter (.construction ref)).calls
        (Frame.ofCall ref type.constructor.parameters arguments) type.constructor.body
        initialized = .returned () ready →
      [⟨.spawn typeName arguments (.ok ref), before⟩,
        ⟨.leave (.construction ref) true, ready.register ref⟩].Sublist past →
      Constructed past ref type

theorem Constructed.later {past longer : List Moment} {ref : EntityRef} {type : EntityType}
    (constructed : Constructed past ref type) (more : past.Sublist longer) :
    Constructed longer ref type := by
  cases constructed with
  | constructed constructible named initialized ran happened =>
      exact .constructed constructible named initialized ran (happened.trans more)

/-- The entity is one of the type, has been constructed, and has all its properties. -/
structure Ready (past : List Moment) (world : World) (id : EntityId) (type : EntityType) :
    Prop where
  known : world.type? id = some type
  constructed : Constructed past ⟨id, type.name⟩ type
  properties : world.HasAll id type.initializers

def AllReady (past : List Moment) (world : World) : Prop :=
  ∀ id ∈ world.registry, ∃ type, Ready past world id type

section Ready

variable {past longer : List Moment} {world after : World}

theorem Ready.later {id : EntityId} {type : EntityType} (ready : Ready past world id type)
    (retains : Retains world after) (more : past.Sublist longer) :
    Ready longer after id type where
  known := retains.types ready.known
  constructed := ready.constructed.later more
  properties := ready.properties.kept retains

theorem AllReady.later (ready : AllReady past world) (retains : Retains world after)
    (registered : ∀ id ∈ after.registry, id ∈ world.registry) (more : past.Sublist longer) :
    AllReady longer after := by
  intro id here
  obtain ⟨type, isReady⟩ := ready id (registered id here)
  exact ⟨type, isReady.later retains more⟩

theorem AllReady.same (ready : AllReady past world) (registry : after.registry = world.registry)
    (entities : after.entities = world.entities) (more : past.Sublist longer) :
    AllReady longer after :=
  ready.later (.of_entities entities) (fun id here => by rwa [registry] at here) more

theorem Ready.constructed_ref {ref : EntityRef} {type : EntityType}
    (ready : Ready past world ref.id type) (known : world.ref? ref.id = some ref) :
    Constructed past ref type := by
  obtain ⟨entity, found, rfl⟩ := Option.map_eq_some_iff.mp ready.known
  rw [World.ref?, found, Option.map_some, Option.some.injEq] at known
  rw [← known]
  exact ready.constructed

end Ready

/-- An entity that is set up is ready when it is registered. -/
theorem ready_of_setUp {past : List Moment} {typeName : String} {arguments : List Value}
    {type : EntityType} {ref : EntityRef} {before ready : World}
    (constructible : before.constructible typeName arguments = .ok type)
    (named : ref = ⟨before.entities.size, type.name⟩)
    (ran : setUp (before.enter (.construction ref)).calls type ref arguments
      ((before.enter (.construction ref)).make type) = .returned () ready)
    (happened : [⟨.spawn typeName arguments (.ok ref), before⟩,
      ⟨.leave (.construction ref) true, ready.register ref⟩].Sublist past) :
    Ready past (ready.register ref) ref.id type := by
  obtain ⟨initialized, initializers, body⟩ := setUp_returned ran
  have nested := (before.enter (.construction ref)).calls_follow retaining_frames.toCovers
  obtain ⟨_, _, first⟩ := initializers.retaining nested
  obtain ⟨_, _, second⟩ := runBody_follows retaining_frames.toCoversEvaluation nested _ _
    initialized ready (by rw [body]; rfl)
  have registered : Retains initialized (ready.register ref) :=
    second.toRetains.trans (.of_entities rfl)
  have made : ref.id < ((before.enter (.construction ref)).make type).entities.size := by
    simp [named]
  have known : ((before.enter (.construction ref)).make type).type? ref.id = some type := by
    rw [named]
    exact (before.enter _).type?_make_size type
  refine ⟨(first.toRetains.trans registered).types known, ?_,
    (initializers.hasAll nested made).kept registered⟩
  have same : (⟨ref.id, type.name⟩ : EntityRef) = ref := by rw [named]
  rw [same]
  exact .constructed constructible named initializers body happened

theorem World.calls_enter {world : World} {levels : Nat} (activity : Activity)
    (depth : world.depth + (levels + 1) = maxCallDepth) :
    (world.enter activity).calls = .ofLevels levels := by
  have deeper : maxCallDepth - (world.depth + 1) = levels := by omega
  change Calls.ofLevels (maxCallDepth - (world.depth + 1)) = _
  rw [deeper]

/-- The entity into which a call is attempted. -/
def Act.target? : Act → Option EntityRef
  | call ref _ _ => some ref
  | _ => none

/-- At the moment every entity that is registered is ready, and if one is called it was ready
before. -/
structure Proper (past : List Moment) (moment : Moment) : Prop where
  registered : AllReady (past ++ [moment]) moment.world
  called {ref} : moment.act.target? = some ref →
    ∃ type, moment.world.type? ref.id = some type ∧ Constructed past ref type

section Proper

variable {past : List Moment} {world after : World}

theorem Proper.idle (ready : AllReady past world) {act : Act} (idle : act.target? = none) :
    Proper past ⟨act, world⟩ where
  registered := ready.same rfl rfl (List.sublist_append_left _ _)
  called {ref} calls := by
    change act.target? = some ref at calls
    rw [idle] at calls
    cases calls

theorem Proper.call (ready : AllReady past world) {ref : EntityRef} {call : EntityCall}
    {answer : Attempt Unit} (registered : ref.id ∈ world.registry)
    (known : world.ref? ref.id = some ref) : Proper past ⟨.call ref call answer, world⟩ where
  registered := ready.same rfl rfl (List.sublist_append_left _ _)
  called calls := by
    cases calls
    obtain ⟨type, isReady⟩ := ready ref.id registered
    exact ⟨type, isReady.known, isReady.constructed_ref known⟩

theorem registry_of_slight {events : List Event} (slight : Slight world events after) :
    after.registry = world.registry := by
  induction slight with
  | idle | wrote | painted | printed | declared => rfl
  | append _ _ first rest => exact rest.trans first
  | destroyed => simp

theorem AllReady.slightly (ready : AllReady past world) (links : History.Links Slight world after)
    {longer : List Moment} (more : past.Sublist longer) : AllReady longer after := by
  obtain ⟨_, _, slight⟩ := links
  have retaining := Slight.covered retaining_frames.toCoversEvaluation slight
  exact ready.later retaining.toRetains
    (fun id here => by rwa [registry_of_slight slight] at here) more

theorem AllReady.begun (ready : AllReady past world) (type : EntityType) (activity : Activity)
    {longer : List Moment} (more : past.Sublist longer) :
    AllReady longer ((world.enter activity).make type) := by
  have entered : Retains world (world.enter activity) := .of_entities rfl
  exact ready.later (entered.trans (.make _ type)) (fun _ here => here) more

end Proper

/-- All the moments are proper, and what is registered in the end is ready. -/
structure Properly (past moments : List Moment) (outcome : Outcome World Unit) : Prop where
  along : Along Proper past moments
  ready {after} : outcome.state? = some after → AllReady (past ++ moments) after

namespace Properly

variable {past moments more : List Moment} {outcome : Outcome World Unit} {world : World}

theorem silent (ready : ∀ after, outcome.state? = some after → AllReady past after) :
    Properly past [] outcome where
  along := trivial
  ready {after} ends := by
    rw [List.append_nil]
    exact ready after ends

theorem cons {moment : Moment} (here : Proper past moment)
    (rest : Properly (past ++ [moment]) moments outcome) :
    Properly past (moment :: moments) outcome where
  along := ⟨here, rest.along⟩
  ready ends := by
    rw [List.append_cons]
    exact rest.ready ends

theorem append {middle : World} (first : Properly past moments (.returned () middle))
    (rest : Properly (past ++ moments) more outcome) : Properly past (moments ++ more) outcome where
  along := along_append.mpr ⟨first.along, rest.along⟩
  ready ends := by
    rw [← List.append_assoc]
    exact rest.ready ends

theorem single {act : Act} (ready : AllReady past world) (idle : act.target? = none)
    (later : ∀ after, outcome.state? = some after → AllReady (past ++ [⟨act, world⟩]) after) :
    Properly past [⟨act, world⟩] outcome :=
  .cons (.idle ready idle) (.silent later)

/-- What becomes of a failure of a call leaves the entities alone. -/
theorem isolating (inside : Properly past moments outcome) (ref : EntityRef) (phase : Phase) :
    Properly past (moments ++ outcome.isolating ref phase) (outcome.isolated ref phase) where
  along := by
    refine along_append.mpr ⟨inside.along, ?_⟩
    cases outcome with
    | raised error last =>
        have idle : (if last.settings.isolateErrors then Act.absorb ref phase error
            else .blame ref phase error).target? = none := by
          split <;> rfl
        exact along_singleton (.idle (inside.ready rfl) idle)
    | returned | endless => trivial
  ready {after} ends := by
    obtain ⟨last, reached, same⟩ := Outcome.state?_isolated ends
    rw [← List.append_assoc]
    apply (inside.ready reached).same _ _ (List.sublist_append_left _ _)
    all_goals rcases same with rfl | ⟨error, rfl⟩ <;> rfl

/-- An activity is left in the world that it has come to. -/
theorem leaving {activity : Activity} (along : Along Proper past moments)
    (ready : ∀ last, outcome.state? = some last →
      AllReady (past ++ (moments ++ outcome.leaving activity)) last) :
    Properly past (moments ++ outcome.leaving activity) (outcome.left activity) where
  along := by
    refine along_append.mpr ⟨along, ?_⟩
    cases outcome with
    | returned _ last | raised _ last =>
        have left := ready last rfl
        rw [← List.append_assoc] at left
        exact along_singleton ⟨left, nofun⟩
    | endless => trivial
  ready ends := by
    obtain ⟨middle, succeeded, reached, rfl⟩ := Outcome.state?_left ends
    exact (ready middle reached).same rfl rfl (.refl _)

theorem call (inside : Properly past moments outcome) (ref : EntityRef) (call : EntityCall) :
    Properly past (moments ++ outcome.leaving (.call ref call)) (outcome.left (.call ref call)) :=
  leaving inside.along fun _ reached =>
    (inside.ready reached).same rfl rfl ((List.sublist_append_left _ _).append_left past)

/-- A construction registers the entity only when it is ready. -/
theorem construction (inside : Properly past moments outcome) (ref : EntityRef)
    (own : ∀ ready, outcome = .returned () ready → ∃ type,
      Ready (past ++ (moments ++ [⟨.leave (.construction ref) true, ready.register ref⟩]))
        (ready.register ref) ref.id type) :
    Properly past (moments ++ (outcome.registered ref).leaving (.construction ref))
      ((outcome.registered ref).left (.construction ref)) := by
  refine leaving inside.along fun _ ends => ?_
  have more := (List.sublist_append_left moments
    ((outcome.registered ref).leaving (.construction ref))).append_left past
  cases outcome with
  | returned _ initialized =>
      cases ends
      intro id here
      rw [World.registry_register, List.mem_append, List.mem_singleton] at here
      rcases here with old | rfl
      · obtain ⟨type, isReady⟩ := inside.ready rfl id old
        exact ⟨type, isReady.later (.of_entities rfl) more⟩
      · exact own initialized rfl
  | raised _ left =>
      cases ends
      exact (inside.ready rfl).same rfl rfl more
  | endless => cases ends

end Properly

/-- Whatever runs, it calls only entities that are ready, and registers no others. -/
theorem Course.proper {levels : Nat} {world : World} {moments : List Moment}
    {outcome : Outcome World Unit} (course : Course levels world moments outcome)
    (depth : world.depth + levels = maxCallDepth) {past : List Moment}
    (ready : AllReady past world) : Properly past moments outcome := by
  induction course generalizing past with
  | idle =>
      refine .silent fun after ends => ?_
      cases ends
      exact ready
  | endless =>
      refine .silent fun after ends => ?_
      cases ends
  | append first _ before rest =>
      have firstProper := before depth ready
      refine firstProper.append (rest ?_ (firstProper.ready rfl))
      rw [(first.steady rfl).depth, depth]
  | worked slight =>
      refine .single ready rfl fun after ends => ?_
      cases ends
      exact ready.slightly slight (List.sublist_append_left _ _)
  | @failed _ world left _ slight _ =>
      have worked : AllReady (past ++ [⟨.work, world⟩]) left :=
        ready.slightly slight (List.sublist_append_left _ _)
      refine .cons (.idle ready rfl) (.single worked rfl fun after ends => ?_)
      cases ends
      exact worked.same rfl rfl (List.sublist_append_left _ _)
  | executed _ inside =>
      exact .cons (.idle ready rfl)
        (inside depth (ready.same rfl rfl (List.sublist_append_left _ _)))
  | unspawned _ | refusedSpawn _ =>
      refine .single ready rfl fun after ends => ?_
      cases ends
      exact ready.same rfl rfl (List.sublist_append_left _ _)
  | @spawned levels world typeName arguments type ref moments outcome constructible named ran
      body inside =>
      have depthInside : ((world.enter (.construction ref)).make type).depth + levels =
          maxCallDepth := by
        rw [World.depth_make, World.depth_enter]
        omega
      rw [← World.calls_enter (.construction ref) depth] at ran
      have begun := ready.begun type (.construction ref)
        (List.sublist_append_left past [⟨.spawn typeName arguments (.ok ref), world⟩])
      refine .cons (.idle ready rfl) ((inside depthInside begun).construction ref ?_)
      rintro last rfl
      refine ⟨type, ready_of_setUp constructible named ran ?_⟩
      have spawned : [(⟨.spawn typeName arguments (.ok ref), world⟩ : Moment)].Sublist
          (past ++ [⟨.spawn typeName arguments (.ok ref), world⟩]) :=
        List.sublist_append_right _ _
      exact spawned.append (List.sublist_append_right _ _)
  | @refusedCall world ref call registered due known =>
      have refused : Properly
          (past ++ [⟨.call ref call (.error (.recursionLimit maxCallDepth)), world⟩]) []
          (world.refusal (.call ref call)) := by
        refine .silent fun last ends => ?_
        cases ends
        exact ready.same rfl rfl (List.sublist_append_left _ _)
      exact .cons (.call ready registered known) (refused.isolating ref call.phase)
  | @called levels world ref call moments outcome registered due known body inside =>
      have depthInside : (world.enter (.call ref call)).depth + levels = maxCallDepth := by
        rw [World.depth_enter]
        omega
      have entered : AllReady (past ++ [⟨.call ref call (.ok ()), world⟩])
          (world.enter (.call ref call)) :=
        ready.same rfl rfl (List.sublist_append_left _ _)
      exact .cons (.call ready registered known)
        (((inside depthInside entered).call ref call).isolating ref call.phase)
  | quiet links =>
      obtain ⟨_, _, still⟩ := links
      refine .silent fun after ends => ?_
      cases ends
      exact ready.same still.registry still.entities (.refl _)
  | began =>
      refine .silent fun after ends => ?_
      cases ends
      exact ready.same rfl rfl (.refl _)
  | ended _ inside =>
      have proper := inside depth ready
      refine ⟨proper.along, fun ends => ?_⟩
      obtain ⟨last, reached, rfl⟩ := Outcome.state?_ended ends
      exact (proper.ready reached).same rfl rfl (.refl _)

end EntityScript
