import EntityScript.Proofs.FieldGains
import EntityScript.Proofs.Readiness

/-!
The order of fields.  Fields come up one after another, each in a world that is that of a moment,
and stay where they are.  So in whatever order an entity has its fields, it is the one in which they
were first assigned.
-/

namespace EntityScript

open Script

/-- Fields are where they were at all moments before, and of two of them the one in front was there
at a moment when the other one was not. -/
structure Ordered (past : List Moment) (world : World) : Prop where
  kept : ∀ moment ∈ past, ∀ id, moment.world.fieldNames id <+: world.fieldNames id
  apart : ∀ id, (world.fieldNames id).Pairwise fun first second =>
    ∃ moment ∈ past, first ∈ moment.world.fieldNames id ∧ second ∉ moment.world.fieldNames id

namespace Ordered

variable {past : List Moment} {world after : World}

theorem same (ordered : Ordered past world) (names : after.fieldNames = world.fieldNames) :
    Ordered past after where
  kept := by
    rw [names]
    exact ordered.kept
  apart := by
    rw [names]
    exact ordered.apart

theorem witnessed (ordered : Ordered past world) (act : Act) :
    Ordered (past ++ [⟨act, world⟩]) world where
  kept moment member id := by
    rcases List.mem_append.mp member with before | here
    · exact ordered.kept moment before id
    · obtain rfl := List.mem_singleton.mp here
      exact List.prefix_refl _
  apart id := (ordered.apart id).imp fun ⟨moment, before, found⟩ =>
    ⟨moment, List.mem_append_left _ before, found⟩

/-- A field that comes up after a moment was not there at that moment. -/
theorem gains (ordered : Ordered past world) {act : Act} (now : ⟨act, world⟩ ∈ past)
    (gains : world.Gains after) : Ordered past after := by
  refine ⟨fun moment member id => (ordered.kept moment member id).trans (gains.grows id), ?_⟩
  cases gains with
  | nothing names =>
      rw [names]
      exact ordered.apart
  | @field holder name fresh gained others =>
      intro id
      by_cases own : id = holder
      · subst own
        rw [gained, List.pairwise_append]
        refine ⟨ordered.apart id, List.pairwise_singleton _ _, fun first here second last => ?_⟩
        rw [List.mem_singleton.mp last]
        exact ⟨⟨act, world⟩, now, here, fresh⟩
      · rw [others id own]
        exact ordered.apart id

end Ordered

/-- At each moment fields are in order, and so they are in the end. -/
structure OrderedAlong (past moments : List Moment) (outcome : Outcome World Unit) : Prop where
  along : Along (fun past moment => Ordered (past ++ [moment]) moment.world) past moments
  ordered {after} : outcome.state? = some after → Ordered (past ++ moments) after

/-- From a world with fields in order they stay in order. -/
def InOrder (world : World) (moments : List Moment) (outcome : Outcome World Unit) : Prop :=
  ∀ past, Ordered past world → OrderedAlong past moments outcome

namespace InOrder

variable {world middle : World} {moments more : List Moment} {outcome other : Outcome World Unit}

theorem idle : InOrder world [] (.returned () world) := by
  intro past ordered
  refine ⟨trivial, fun ends => ?_⟩
  cases ends
  rwa [List.append_nil]

theorem endless : InOrder world [] .endless :=
  fun _ _ => ⟨trivial, fun ends => nomatch ends⟩

theorem append (first : InOrder world moments (.returned () middle))
    (rest : InOrder middle more outcome) : InOrder world (moments ++ more) outcome := by
  intro past ordered
  have before := first past ordered
  have behind := rest _ (before.ordered rfl)
  refine ⟨along_append.mpr ⟨before.along, behind.along⟩, fun ends => ?_⟩
  rw [← List.append_assoc]
  exact behind.ordered ends

theorem cons (act : Act) (rest : InOrder world moments outcome) :
    InOrder world (⟨act, world⟩ :: moments) outcome := by
  intro past ordered
  have here := ordered.witnessed act
  have behind := rest _ here
  refine ⟨⟨here, behind.along⟩, fun ends => ?_⟩
  rw [List.append_cons]
  exact behind.ordered ends

theorem before (inside : InOrder middle moments outcome)
    (names : middle.fieldNames = world.fieldNames) : InOrder world moments outcome :=
  fun past ordered => inside past (ordered.same names)

/-- The outcome may become another one that has the same fields. -/
theorem become (inside : InOrder world moments outcome)
    (names : ∀ after, other.state? = some after →
      ∃ last, outcome.state? = some last ∧ after.fieldNames = last.fieldNames) :
    InOrder world moments other := by
  intro past ordered
  have orderly := inside past ordered
  refine ⟨orderly.along, fun ends => ?_⟩
  obtain ⟨last, reached, same⟩ := names _ ends
  exact (orderly.ordered reached).same same

/-- What happens at the moment changes no field, however it ends. -/
theorem single (act : Act)
    (names : ∀ after, outcome.state? = some after → after.fieldNames = world.fieldNames) :
    InOrder world [⟨act, world⟩] outcome :=
  (cons act .idle).become fun after ends => ⟨world, rfl, names after ends⟩

/-- The last moment is in the world that is left. -/
theorem closing (inside : InOrder world moments outcome) {last : World}
    (ends : outcome.state? = some last) (act : Act) :
    InOrder world (moments ++ [⟨act, last⟩]) outcome := by
  intro past ordered
  have orderly := inside past ordered
  have left := (orderly.ordered ends).witnessed act
  refine ⟨along_append.mpr ⟨orderly.along, along_singleton left⟩, fun endsToo => ?_⟩
  obtain rfl := Option.some.inj (ends.symm.trans endsToo)
  rwa [← List.append_assoc]

theorem leaving (inside : InOrder world moments outcome) (activity : Activity) :
    InOrder world (moments ++ outcome.leaving activity) (outcome.left activity) := by
  cases outcome with
  | returned _ last | raised _ last =>
      refine (inside.closing rfl _).become fun after ends => ?_
      cases ends
      exact ⟨last, rfl, rfl⟩
  | endless =>
      rw [Outcome.leaving, List.append_nil]
      exact inside

theorem registered (inside : InOrder world moments outcome) (ref : EntityRef) :
    InOrder world moments (outcome.registered ref) := by
  refine inside.become fun after ends => ?_
  obtain ⟨ready, reached, rfl | rfl⟩ := Outcome.state?_registered ends
  · exact ⟨ready, reached, rfl⟩
  · exact ⟨after, reached, rfl⟩

theorem isolating (inside : InOrder world moments outcome) (ref : EntityRef) (phase : Phase) :
    InOrder world (moments ++ outcome.isolating ref phase) (outcome.isolated ref phase) := by
  have closed : InOrder world (moments ++ outcome.isolating ref phase) outcome := by
    cases outcome with
    | raised error last => exact inside.closing rfl _
    | returned | endless =>
        rw [Outcome.isolating, List.append_nil]
        exact inside
  refine closed.become fun after ends => ?_
  obtain ⟨last, reached, rfl | ⟨error, rfl⟩⟩ := Outcome.state?_isolated ends
  · exact ⟨after, reached, rfl⟩
  · exact ⟨last, reached, rfl⟩

theorem ended (inside : InOrder world moments outcome) (phase : Phase) :
    InOrder world moments (outcome.ended phase) := by
  refine inside.become fun after ends => ?_
  obtain ⟨last, reached, rfl⟩ := Outcome.state?_ended ends
  exact ⟨last, reached, rfl⟩

theorem bind {σ α β : Type} {view : σ → World} {script : Script σ α} {next : α → Script σ β}
    {later : α → σ → List Moment} {state : σ}
    (first : InOrder world moments ((script state).over view))
    (rest : ∀ value after, script state = .returned value after →
      InOrder (view after) (later value after) ((next value after).over view)) :
    InOrder world (moments ++ (script state).andTrace later)
      (((script >>= next) state).over view) := by
  rw [bind_eq]
  cases ran : script state with
  | returned value after =>
      rw [ran] at first
      exact first.append (rest value after ran)
  | raised error after | endless =>
      rw [ran] at first
      rw [Outcome.andTrace, List.append_nil]
      exact first

end InOrder

/-- What starts calls keeps fields in order. -/
structure Watched.InOrder (watched : Watched) : Prop where
  spawned (typeName : String) (arguments : List Value) (world : World) :
    EntityScript.InOrder world (watched.spawned typeName arguments world)
      ((watched.calls.spawn typeName arguments world).over id)
  emitted (event : String) (payload : Value) (world : World) :
    EntityScript.InOrder world (watched.emitted event payload world)
      ((watched.calls.emit event payload world).over id)

/-- At most one field comes up after the moment of this world. -/
theorem InOrder.worked {world after : World} (gains : world.Gains after) :
    InOrder world [⟨.work, world⟩] (.returned () after) := by
  intro past ordered
  have here := ordered.witnessed .work
  refine ⟨along_singleton here, fun ends => ?_⟩
  cases ends
  exact here.gains (List.mem_append_right _ (List.mem_singleton_self _)) gains

theorem Gaining.inOrder {σ α : Type} {view : σ → World} {script : Script σ α}
    (gaining : Gaining view script) (simple : Simple view script) (state : σ) :
    InOrder (view state) (simple.trace state) ((script state).over view) := by
  unfold Simple.trace
  cases ran : script state with
  | returned value after => exact .worked (gaining state after (by rw [ran]; rfl))
  | raised error after =>
      have worked : InOrder (view state) [⟨.work, view state⟩] (.raised error (view after)) := by
        refine (InOrder.worked (gaining state after (by rw [ran]; rfl))).become fun last ends => ?_
        cases ends
        exact ⟨_, rfl, rfl⟩
      exact worked.closing rfl (.fail error)
  | endless => exact absurd ran (simple.ends state)

theorem Composition.inOrder {watched : Watched} (nested : watched.InOrder) {loops : Bool}
    {σ α : Type} {view : σ → World} {script : Calls → Script σ α}
    (composition : Composition loops view script) (gradual : composition.Gradual) (state : σ) :
    InOrder (view state) (composition.trace watched state)
      ((script watched.calls state).over view) := by
  induction composition with
  | simple simple => exact Gaining.inOrder gradual simple state
  | endless => exact .endless
  | bind _ _ first rest =>
      exact .bind (first gradual.1 state) fun value after _ => rest value (gradual.2 value) after
  | onWorld _ inside =>
      rw [over_onWorld]
      exact inside state.frame (gradual state.frame) state.world
  | inScope _ inside =>
      rw [over_withScope]
      exact inside gradual { state with frame := state.frame.push }
  | statement stmt _ inside => exact .cons (.execute stmt) (inside gradual state)
  | inFrame frame _ inside =>
      rw [over_inFrame]
      exact inside gradual ⟨frame, state⟩
  | spawn typeName arguments => exact nested.spawned typeName arguments state
  | emit event payload => exact nested.emitted event payload state

/-! ### Constructions, calls and broadcasts -/

section Dispatch

variable {levels : Nat}
  (nested : ∀ deeper, levels = deeper + 1 → (Watched.ofLevels deeper).InOrder)

/-- An activity that is refused changes no entity. -/
theorem InOrder.refused (act : Act) (world : World) (activity : Activity) :
    InOrder world [⟨act, world⟩] (world.refusal activity) := by
  refine .single act fun after ends => ?_
  cases ends
  rfl

include nested

theorem traceConstruct_inOrder (typeName : String) (arguments : List Value) (world : World) :
    InOrder world (traceConstruct (Watched.inside levels) typeName arguments world)
      ((construct (Calls.inside levels) typeName arguments world).over id) := by
  rw [construct_of_constructible]
  unfold traceConstruct
  cases constructible : world.constructible typeName arguments with
  | error error =>
      refine .single _ fun after ends => ?_
      cases ends
      rfl
  | ok type =>
      dsimp only
      generalize (⟨world.entities.size, type.name⟩ : EntityRef) = ref
      cases levels with
      | zero => exact .refused _ world (.construction ref)
      | succ deeper =>
          have setUp := (Composition.setUp type ref arguments (.inl rfl) :
            Composition true _ _).inOrder (nested deeper rfl) (Composition.gradual_setUp _ _ _ _)
              ((world.enter (.construction ref)).make type)
          rw [Watched.calls_ofLevels, over_id] at setUp
          have begun : ((world.enter (.construction ref)).make type).fieldNames =
              world.fieldNames :=
            World.fieldNames_congr (World.fields_make _ type)
          have whole := ((setUp.registered ref).leaving (.construction ref)).before begun
          rw [Calls.inside_succ, over_enter_build, Watched.inside_succ]
          unfold traceEnter
          dsimp only
          rw [leaving_build, Watched.calls_ofLevels]
          exact .cons _ whole

theorem traceDeliver_inOrder (call : EntityCall) (target : EntityId) (world : World) :
    InOrder world (traceDeliver (Watched.inside levels) call target world)
      ((deliver (Calls.inside levels) call target world).over id) := by
  cases due : world.due call target with
  | false =>
      rw [traceDeliver_of_not_due due, deliver_of_not_due due]
      exact .idle
  | true =>
      obtain ⟨entity, method, found, answered, reached⟩ := World.method_of_due due
      rw [over_deliver_of_due found answered reached]
      unfold traceDeliver
      simp only [found, answered, reached, Watched.calls_inside]
      generalize (⟨target, entity.type.name⟩ : EntityRef) = ref
      cases levels with
      | zero => exact (InOrder.refused _ world (.call ref call)).isolating ref call.phase
      | succ deeper =>
          have body := (Composition.runBody (Frame.ofCall ref method.parameters call.arguments)
            method.body (.inl rfl) : Composition true _ _).inOrder (nested deeper rfl)
              (Composition.gradual_runBody _ _ _) (world.enter (.call ref call))
          rw [Watched.calls_ofLevels, over_id] at body
          have entered : (world.enter (.call ref call)).fieldNames = world.fieldNames := rfl
          have whole := ((body.leaving (.call ref call)).before entered).cons
            (.call ref call (.ok ()))
          rw [Calls.inside_succ, invoke_some, Watched.inside_succ]
          unfold traceInvoke traceEnter
          dsimp only
          rw [Watched.calls_ofLevels]
          exact whole.isolating ref call.phase

theorem traceDeliverAll_inOrder (call : EntityCall) (targets : List EntityId) (world : World) :
    InOrder world (traceDeliverAll (Watched.inside levels) call targets world)
      ((deliverAll (Calls.inside levels) call targets world).over id) := by
  induction targets generalizing world with
  | nil => exact .idle
  | cons target rest inductionHypothesis =>
      unfold traceDeliverAll
      rw [Watched.calls_inside]
      apply InOrder.bind (traceDeliver_inOrder nested call target world)
      intro answered after _
      rw [over_bind_pure]
      exact inductionHypothesis after

theorem traceBroadcast_inOrder (call : EntityCall) (world : World) :
    InOrder world (traceBroadcast (Watched.inside levels) call world)
      ((broadcast (Calls.inside levels) call world).over id) :=
  traceDeliverAll_inOrder nested call world.registry world

end Dispatch

theorem Watched.inOrder_ofLevels (levels : Nat) : (ofLevels levels).InOrder := by
  induction levels using Nat.strongRecOn with
  | ind levels inductionHypothesis =>
      have nested (deeper : Nat) (same : levels = deeper + 1) : (ofLevels deeper).InOrder :=
        inductionHypothesis deeper (by omega)
      constructor
      · intro typeName arguments world
        rw [calls_ofLevels]
        exact traceConstruct_inOrder nested typeName arguments world
      · intro event payload world
        rw [calls_ofLevels]
        exact traceBroadcast_inOrder nested (.handler event payload) world

/-! ### Operations -/

namespace World

theorem watched_inOrder (world : World) : world.watched.InOrder := Watched.inOrder_ofLevels _

theorem traceMain_inOrder (world : World) :
    InOrder world world.traceMain ((runMain world).over id) := by
  unfold traceMain runMain
  rw [get_bind]
  cases world.main with
  | none => exact .idle
  | some entry =>
      have body := (Composition.runBody (.of none) entry.body (.inl rfl) :
        Composition true _ _).inOrder world.watched_inOrder
          (Composition.gradual_runBody _ _ _) world
      rw [calls_watched] at body
      exact body

theorem tracePhase_inOrder (call : EntityCall) (world : World) :
    InOrder world (world.tracePhase call) ((runPhase call world).over id) := by
  rw [over_runPhase]
  exact (traceBroadcast_inOrder (fun deeper _ => Watched.inOrder_ofLevels deeper) call
    world).ended call.phase

theorem traceTicks_inOrder (delta : Float) (world : World) :
    InOrder world (world.traceTicks delta) ((tickPhase delta world).over id) :=
  (tracePhase_inOrder (.tick delta) world.cleared).before
    (fieldNames_congr (fields_congr world.entities_cleared))

theorem traceRenders_inOrder (world : World) :
    InOrder world world.traceRenders ((renderPhase world).over id) :=
  (tracePhase_inOrder .render (world.note (.began .render))).before rfl

end World

namespace Session

theorem traceStep_inOrder (elapsed : Float) (session : Session) :
    InOrder session.world (session.traceStep elapsed)
      ((step elapsed session).over Session.world) := by
  rw [step_eq]
  unfold traceStep
  apply InOrder.bind
  · rw [over_onWorld]
    exact (World.traceTicks_inOrder _ session.world.pumpInput).before rfl
  · intro _ ticked _
    have renders := ticked.world.traceRenders_inOrder
    rw [← over_onWorld] at renders
    have whole : InOrder ticked.world
        (ticked.world.traceRenders ++
          (onWorld World.renderPhase ticked).andTrace fun _ _ => [])
        (((do
          onWorld World.renderPhase
          modify (completeFrame (session.world.settings.clampDelta elapsed))) ticked).over
            Session.world) :=
      .bind renders fun _ after _ => InOrder.idle.become fun last ends => by
        cases ends
        exact ⟨after.world, rfl, rfl⟩
    rwa [Outcome.andTrace_nil, List.append_nil] at whole

theorem traceFrame_inOrder (now : Nat) (session : Session) :
    InOrder session.world (session.traceFrame now) ((frameAt now session).over Session.world) := by
  obtain ⟨world, frames, lastStart⟩ := session
  cases lastStart with
  | none => exact traceStep_inOrder 0 ⟨world, frames, some now⟩
  | some last =>
      exact traceStep_inOrder (Settings.secondsOfNanos (now - last)) ⟨world, frames, some now⟩

end Session

theorem World.Gains.of_quiet {world after : World} (quiet : History.Links Quiet world after) :
    world.Gains after := by
  obtain ⟨_, _, still⟩ := quiet
  exact .nothing (World.fieldNames_congr (World.fields_congr still.entities))

open Session in
theorem Operation.inOrder (operation : Operation) (session : Session) :
    InOrder session.world (operation.trace session)
      ((operation.perform session).over Session.world) := by
  have changed : ∀ {change : World → World}, session.world.Gains (change session.world) →
      InOrder session.world [⟨.work, session.world⟩]
        ((Session.change change session).over Session.world) := .worked
  cases operation with
  | install program => exact changed (.of_quiet (World.install_quiet _ _))
  | load unit =>
      refine changed (.of_quiet ?_)
      split
      · exact World.load_quiet ‹_›
      · exact .refl Quiet.composes _
  | loadAll items => exact changed (.of_quiet (World.loadFrom_quiet items _ _))
  | registerImage _ _ _ | pushKey _ | pumpInput =>
      exact changed (.of_quiet (Quiet.silent rfl rfl rfl rfl rfl))
  | cancel => exact .worked (.of_quiet (Quiet.logged (by simp)))
  | spawn typeName arguments =>
      have spawned := session.world.watched_inOrder.spawned typeName arguments session.world
      rw [World.calls_watched] at spawned
      rw [perform, over_run]
      exact spawned
  | destroy entity => exact changed (.nothing (World.fieldNames_congr (World.fields_destroy _ _)))
  | setField id name value => exact changed (session.world.gains_setField _ name value)
  | emit event payload =>
      have emitted := session.world.watched_inOrder.emitted event payload session.world
      rw [World.calls_watched] at emitted
      rw [perform, over_run]
      exact emitted
  | runMain =>
      rw [perform, over_run]
      exact session.world.traceMain_inOrder
  | tickPhase delta =>
      rw [perform, over_run]
      exact session.world.traceTicks_inOrder delta
  | renderPhase =>
      rw [perform, over_run]
      exact session.world.traceRenders_inOrder
  | step elapsed => exact session.traceStep_inOrder elapsed
  | frameAt now => exact session.traceFrame_inOrder now

theorem Session.trace_inOrder (operations : List Operation) {session : Session}
    {past : List Moment} (ordered : Ordered past session.world) :
    Along (fun past moment => Ordered (past ++ [moment]) moment.world) past
        (trace operations session) ∧
      ∀ after, through operations session = some after →
        Ordered (past ++ trace operations session) after.world := by
  have single (operation : Operation) (session : Session) (past : List Moment)
      (ordered : Ordered past session.world) :
      Along (fun past moment => Ordered (past ++ [moment]) moment.world) past
          (operation.trace session) ∧
        ∀ after, session.Leads operation after →
          Ordered (past ++ operation.trace session) after.world := by
    have orderly := operation.inOrder session past ordered
    exact ⟨orderly.along, fun after leads => orderly.ordered leads.ends⟩
  exact along_trace single operations ordered

end EntityScript
