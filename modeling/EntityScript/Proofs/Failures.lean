import EntityScript.Proofs.Faithfulness

/-!
How failures go on.  Where they are not isolated, the first error that is raised brings the whole
operation to a stop: what is active is left, one after the other, and nothing else happens.  The
error comes out with the innermost call that was active named in it, and only that.  Where
failures are isolated no error ever names an entity.
-/

namespace EntityScript

open Script

/-- The error names no entity. -/
def ScriptError.Bare : ScriptError → Prop
  | inEntity .. => False
  | _ => True

theorem ScriptError.Plain.bare {error : ScriptError} (plain : error.Plain) : error.Bare := by
  cases error <;> first | exact plain | trivial

theorem ScriptError.within_eq (error : ScriptError) (entity : EntityRef) (phase : Phase) :
    ∃ ref named source, error.within entity phase = .inEntity ref named source := by
  cases error <;> exact ⟨_, _, _, rfl⟩

def Activity.call? : Activity → Option (EntityRef × Phase)
  | .call ref made => some (ref, made.phase)
  | .construction _ => none

/-- The error with the innermost of the calls named in it, if there is one. -/
def ScriptError.blaming (source : ScriptError) (active : List Activity) : ScriptError :=
  match active.findSome? Activity.call? with
  | some (ref, phase) => .inEntity ref phase source
  | none => source

theorem ScriptError.blaming_construction (source : ScriptError) (active : List Activity)
    (ref : EntityRef) :
    source.blaming (active ++ [.construction ref]) = source.blaming active := by
  unfold blaming
  rw [List.findSome?_append]
  change (match (active.findSome? Activity.call?).or none with | some (_, _) => _ | none => _) = _
  rw [Option.or_none]

theorem ScriptError.within_blaming {source : ScriptError} (bare : source.Bare)
    {active : List Activity} {ref : EntityRef} {made : EntityCall} :
    (source.blaming active).within ref made.phase =
      source.blaming (active ++ [.call ref made]) := by
  unfold blaming
  rw [List.findSome?_append]
  cases active.findSome? Activity.call? with
  | some named => rfl
  | none => cases source <;> first | rfl | exact bare.elim

theorem ScriptError.blamed_of_names {source : ScriptError} (bare : source.Bare)
    {active : List Activity} {ref : EntityRef} {phase : Phase} {named : ScriptError}
    (same : source.blaming active = .inEntity ref phase named) :
    ∃ ref phase, active.findSome? Activity.call? = some (ref, phase) ∧
      source.blaming active = .inEntity ref phase source := by
  unfold blaming at same ⊢
  cases found : active.findSome? Activity.call? with
  | some innermost => exact ⟨innermost.1, innermost.2, rfl, rfl⟩
  | none =>
      rw [found] at same
      subst same
      exact bare.elim

/-- What is active, and the call that is attempted. -/
def Moment.involved (moment : Moment) : List Activity :=
  match moment.act with
  | .call ref call _ => .call ref call :: moment.world.active
  | _ => moment.world.active

/-- An activity is left by failing, or its failure goes on. -/
def Act.Unwinds : Act → Prop
  | leave _ false | blame _ _ _ => True
  | _ => False

/-- Nothing is raised up to some moment, and then nothing happens but what was active is left.
The error that comes out names the innermost call above those that were active before. -/
inductive Stops (base : List Activity) : List Moment → ScriptError → Prop where
  | stop {before moment unwinding source inside} :
      (∀ earlier ∈ before, earlier.act.raised? = none) →
      moment.act.raised? = some source → source.Bare →
      (∀ later ∈ unwinding, later.act.Unwinds) →
      moment.involved = inside ++ base →
      Stops base (before ++ moment :: unwinding) (source.blaming inside)

namespace Stops

variable {base : List Activity} {moments : List Moment} {error : ScriptError}

theorem here {moment : Moment} (raised : moment.act.raised? = some error) (bare : error.Bare)
    (involved : moment.involved = base) : Stops base [moment] error := by
  have none : Stops base ([] ++ [moment]) (error.blaming []) :=
    .stop (List.forall_mem_nil _) raised bare (List.forall_mem_nil _) involved
  exact none

theorem behind {earlier : List Moment} (stops : Stops base moments error)
    (quiet : ∀ moment ∈ earlier, moment.act.raised? = none) :
    Stops base (earlier ++ moments) error := by
  obtain ⟨before, raised, bare, unwinding, involved⟩ := stops
  rw [← List.append_assoc]
  exact .stop (List.forall_mem_append.mpr ⟨quiet, before⟩) raised bare unwinding involved

theorem unwound {later : List Moment} (stops : Stops base moments error)
    (unwinds : ∀ moment ∈ later, moment.act.Unwinds) : Stops base (moments ++ later) error := by
  obtain ⟨before, raised, bare, unwinding, involved⟩ := stops
  rw [List.append_assoc, List.cons_append]
  exact .stop before raised bare (List.forall_mem_append.mpr ⟨unwinding, unwinds⟩) involved

/-- A construction that fails is not to blame. -/
theorem construction {ref : EntityRef} (stops : Stops (.construction ref :: base) moments error) :
    Stops base moments error := by
  obtain ⟨before, raised, bare, unwinding, involved⟩ := stops
  rw [← ScriptError.blaming_construction _ _ ref]
  exact .stop before raised bare unwinding (by rw [involved, List.append_assoc]; rfl)

/-- A call that fails is to blame if no other is. -/
theorem call {ref : EntityRef} {made : EntityCall}
    (stops : Stops (.call ref made :: base) moments error) :
    Stops base moments (error.within ref made.phase) := by
  obtain ⟨before, raised, bare, unwinding, involved⟩ := stops
  rw [ScriptError.within_blaming bare]
  exact .stop before raised bare unwinding (by rw [involved, List.append_assoc]; rfl)

end Stops

/-- Nothing is raised unless the outcome is a failure, and then everything stops with that. -/
def FailsFast (base : List Activity) (moments : List Moment) : Outcome World Unit → Prop
  | .raised error _ => Stops base moments error
  | .returned .. | .endless => ∀ moment ∈ moments, moment.act.raised? = none

theorem FailsFast.behind {base : List Activity} {earlier moments : List Moment}
    {outcome : Outcome World Unit} (failsFast : FailsFast base moments outcome)
    (quiet : ∀ moment ∈ earlier, moment.act.raised? = none) :
    FailsFast base (earlier ++ moments) outcome := by
  cases outcome with
  | raised error last => exact Stops.behind failsFast quiet
  | returned _ last => exact List.forall_mem_append.mpr ⟨quiet, failsFast⟩
  | endless => exact List.forall_mem_append.mpr ⟨quiet, failsFast⟩

theorem Course.failsFast {levels : Nat} {world : World} {moments : List Moment}
    {outcome : Outcome World Unit} (course : Course levels world moments outcome)
    (strict : world.settings.isolateErrors = false) : FailsFast world.active moments outcome := by
  induction course with
  | idle | endless | quiet _ | began => exact List.forall_mem_nil _
  | append first _ before rest =>
      have steady := first.steady rfl
      have later := rest (by rw [steady.settings]; exact strict)
      rw [steady.active] at later
      exact later.behind (before strict)
  | worked _ => exact (List.forall_mem_singleton).mpr rfl
  | @failed levels world after error slight plain =>
      have steady := (@Course.failed levels _ _ _ slight plain).steady rfl
      have raised : Stops world.active [⟨.fail error, after⟩] error :=
        .here rfl plain.bare steady.active
      exact raised.behind (List.forall_mem_singleton.mpr rfl)
  | executed _ inside => exact (inside strict).behind (List.forall_mem_singleton.mpr rfl)
  | unspawned unknown =>
      have plain := World.constructible_failsPlainly _ _ _ _ unknown
      exact Stops.here rfl plain.bare rfl
  | refusedSpawn _ => exact Stops.here rfl trivial rfl
  | @spawned _ world typeName arguments _ ref moments outcome _ _ _ _ inside =>
      have failsFast := inside strict
      rw [World.active_make, World.active_enter] at failsFast
      have began : ∀ moment ∈ [(⟨.spawn typeName arguments (.ok ref), world⟩ : Moment)],
          moment.act.raised? = none := List.forall_mem_singleton.mpr rfl
      cases outcome with
      | returned _ ready =>
          refine List.forall_mem_append.mpr ⟨?_, List.forall_mem_singleton.mpr rfl⟩
          exact List.forall_mem_cons.mpr ⟨rfl, failsFast⟩
      | raised error left =>
          exact (failsFast.construction.behind began).unwound
            (List.forall_mem_singleton.mpr trivial)
      | endless =>
          refine List.forall_mem_append.mpr ⟨?_, List.forall_mem_nil _⟩
          exact List.forall_mem_cons.mpr ⟨rfl, failsFast⟩
  | @refusedCall world ref call _ _ _ =>
      have refused : Stops (.call ref call :: world.active)
          [⟨.call ref call (.error (.recursionLimit maxCallDepth)), world⟩]
          (.recursionLimit maxCallDepth) := .here rfl trivial rfl
      have stillStrict : (world.note (.refused (.call ref call))).settings.isolateErrors = false :=
        strict
      simp only [World.refusal, Outcome.isolating, Outcome.isolated, stillStrict]
      exact refused.call.unwound (List.forall_mem_singleton.mpr trivial)
  | @called _ world ref call moments outcome _ _ _ body inside =>
      have failsFast := inside strict
      rw [World.active_enter] at failsFast
      have began : ∀ moment ∈ [(⟨.call ref call (.ok ()), world⟩ : Moment)],
          moment.act.raised? = none := List.forall_mem_singleton.mpr rfl
      cases outcome with
      | returned _ last =>
          refine List.forall_mem_append.mpr ⟨?_, List.forall_mem_nil _⟩
          refine List.forall_mem_append.mpr ⟨?_, List.forall_mem_singleton.mpr rfl⟩
          exact List.forall_mem_cons.mpr ⟨rfl, failsFast⟩
      | raised error last =>
          have stillStrict :
              (last.leave (.call ref call) false).settings.isolateErrors = false := by
            rw [World.settings_leave, (body.steady rfl).settings]
            exact strict
          simp only [Outcome.left, Outcome.leaving, Outcome.isolating, Outcome.isolated,
            stillStrict]
          have left : Stops world.active (⟨.call ref call (.ok ()), world⟩ :: moments ++
              [⟨.leave (.call ref call) false, last⟩]) (error.within ref call.phase) :=
            (failsFast.call.behind began).unwound (List.forall_mem_singleton.mpr trivial)
          exact left.unwound (List.forall_mem_singleton.mpr trivial)
      | endless =>
          refine List.forall_mem_append.mpr ⟨?_, List.forall_mem_nil _⟩
          refine List.forall_mem_append.mpr ⟨?_, List.forall_mem_nil _⟩
          exact List.forall_mem_cons.mpr ⟨rfl, failsFast⟩
  | @ended _ _ _ outcome _ _ inside =>
      cases outcome <;> exact inside strict

/-! ### Where failures are isolated -/

/-- No error in it names an entity, and no entity is blamed. -/
def Act.Bare : Act → Prop
  | fail error | spawn _ _ (.error error) | call _ _ (.error error) | absorb _ _ error =>
      error.Bare
  | blame .. => False
  | _ => True

def Outcome.Bare : Outcome World Unit → Prop
  | raised error _ => error.Bare
  | returned .. | endless => True

theorem Course.isolated {levels : Nat} {world : World} {moments : List Moment}
    {outcome : Outcome World Unit} (course : Course levels world moments outcome)
    (isolated : world.settings.isolateErrors = true) :
    (∀ moment ∈ moments, moment.act.Bare) ∧ outcome.Bare := by
  induction course with
  | idle | endless | quiet _ | began => exact ⟨List.forall_mem_nil _, trivial⟩
  | append first _ before rest =>
      obtain ⟨bareRest, outcome⟩ := rest (by rw [(first.steady rfl).settings]; exact isolated)
      exact ⟨List.forall_mem_append.mpr ⟨(before isolated).1, bareRest⟩, outcome⟩
  | worked _ => exact ⟨List.forall_mem_singleton.mpr trivial, trivial⟩
  | failed _ plain =>
      refine ⟨List.forall_mem_cons.mpr ⟨trivial, ?_⟩, plain.bare⟩
      exact List.forall_mem_singleton.mpr plain.bare
  | executed _ inside =>
      exact ⟨List.forall_mem_cons.mpr ⟨trivial, (inside isolated).1⟩, (inside isolated).2⟩
  | unspawned unknown =>
      have plain := World.constructible_failsPlainly _ _ _ _ unknown
      exact ⟨List.forall_mem_singleton.mpr plain.bare, plain.bare⟩
  | refusedSpawn _ => exact ⟨List.forall_mem_singleton.mpr trivial, trivial⟩
  | @spawned _ world _ _ _ ref moments outcome _ _ _ _ inside =>
      obtain ⟨bare, bareOutcome⟩ := inside isolated
      constructor
      · refine List.forall_mem_append.mpr ⟨List.forall_mem_cons.mpr ⟨trivial, bare⟩, ?_⟩
        intro moment member
        obtain ⟨_, _, _, rfl⟩ := Outcome.mem_leaving member
        trivial
      · cases outcome with
        | raised error left => exact bareOutcome
        | returned | endless => trivial
  | @refusedCall world ref call _ _ _ =>
      have stillIsolated : (world.note (.refused (.call ref call))).settings.isolateErrors = true :=
        isolated
      simp only [World.refusal, Outcome.isolating, Outcome.isolated, stillIsolated, if_true]
      exact ⟨List.forall_mem_cons.mpr ⟨trivial, List.forall_mem_singleton.mpr trivial⟩, trivial⟩
  | @called _ world ref call moments outcome _ _ _ body inside =>
      obtain ⟨bare, bareOutcome⟩ := inside isolated
      have began : ∀ moment ∈ (⟨.call ref call (.ok ()), world⟩ : Moment) :: moments ++
          outcome.leaving (.call ref call), moment.act.Bare := by
        refine List.forall_mem_append.mpr ⟨List.forall_mem_cons.mpr ⟨trivial, bare⟩, ?_⟩
        intro moment member
        obtain ⟨_, _, _, rfl⟩ := Outcome.mem_leaving member
        trivial
      cases outcome with
      | returned | endless =>
          exact ⟨List.forall_mem_append.mpr ⟨began, List.forall_mem_nil _⟩, trivial⟩
      | raised error last =>
          have stillIsolated : (last.leave (.call ref call) false).settings.isolateErrors =
              true := by
            rw [World.settings_leave, (body.steady rfl).settings]
            exact isolated
          simp only [Outcome.left, Outcome.isolating, Outcome.isolated, stillIsolated, if_true]
          refine ⟨List.forall_mem_append.mpr ⟨began, ?_⟩, trivial⟩
          exact List.forall_mem_singleton.mpr bareOutcome
  | @ended _ _ _ outcome _ _ inside =>
      obtain ⟨bare, bareOutcome⟩ := inside isolated
      refine ⟨bare, ?_⟩
      cases outcome with
      | raised error left => exact bareOutcome
      | returned | endless => trivial

/-! ### Failures of broadcasts -/

/-- When the computation fails, the error names an entity. -/
def Names {σ α : Type} (script : Script σ α) : Prop :=
  ∀ state error after, script state = .raised error after →
    ∃ ref phase source, error = .inEntity ref phase source

section Names

variable {σ α β : Type}

theorem names_bind {script : Script σ α} {next : α → Script σ β} (first : Names script)
    (rest : ∀ value, Names (next value)) : Names (script >>= next) := by
  intro state error after failed
  rcases raised_bind failed with ⟨value, middle, _, failedRest⟩ | failedFirst
  · exact rest value middle error after failedRest
  · exact first state error after failedFirst

theorem names_pure (value : α) : Names (pure value : Script σ α) := by
  intro _ _ _ failed
  cases failed

theorem names_modify (change : σ → σ) : Names (modify change) := by
  intro _ _ _ failed
  cases failed

theorem names_andThen {script : Script σ α} {change : Bool → σ → σ} (names : Names script) :
    Names (andThen script change) := by
  intro state error after failed
  unfold andThen at failed
  cases ran : script state with
  | raised other middle =>
      rw [ran] at failed
      cases failed
      exact names state error middle ran
  | returned | endless => simp [ran] at failed

theorem names_onWorld {script : Script World α} (names : Names script) :
    Names (Session.onWorld script) := by
  rintro ⟨world, frames, lastStart⟩ error after failed
  cases ran : script world with
  | raised other middle =>
      simp only [Session.onWorld, ran] at failed
      cases failed
      exact names world error middle ran
  | returned | endless => simp [Session.onWorld, ran] at failed

theorem names_run {script : Script World α} (names : Names script) : Names (Session.run script) :=
  names_bind (names_onWorld names) fun _ => names_pure _

theorem names_deliver (inner : Option Calls) (call : EntityCall) (target : EntityId) :
    Names (deliver inner call target) := by
  intro world error after failed
  cases due : world.due call target with
  | false =>
      rw [deliver_of_not_due due] at failed
      cases failed
  | true =>
      obtain ⟨entity, method, found, answered, reached⟩ := World.method_of_due due
      rw [deliver_of_due found answered reached] at failed
      split at failed
      · cases failed
      · split at failed
        · cases failed
        · cases failed
          exact ScriptError.within_eq _ _ _
      · cases failed

theorem names_deliverAll (inner : Option Calls) (call : EntityCall) (targets : List EntityId) :
    Names (deliverAll inner call targets) := by
  induction targets with
  | nil => exact names_pure 0
  | cons target rest inductionHypothesis =>
      apply names_bind (names_deliver inner call target)
      intro _
      exact names_bind inductionHypothesis fun _ => names_pure _

theorem names_broadcast (inner : Option Calls) (call : EntityCall) :
    Names (broadcast inner call) :=
  fun world => names_deliverAll inner call world.registry world

theorem names_runPhase (call : EntityCall) : Names (World.runPhase call) := by
  have turns : Names (do broadcast (← get).inner call) :=
    fun world => names_broadcast world.inner call world
  exact names_bind (names_andThen turns) fun _ => names_pure ()

theorem names_tickPhase (delta : Float) : Names (World.tickPhase delta) :=
  names_bind (names_modify _) fun _ => names_runPhase (.tick delta)

theorem names_renderPhase : Names World.renderPhase :=
  names_bind (names_modify _) fun _ => names_runPhase .render

theorem names_step (elapsed : Float) : Names (Session.step elapsed) := by
  intro session error after failed
  rw [Session.step_eq] at failed
  refine names_bind (names_onWorld (names_tickPhase _)) (fun _ => ?_) _ error after failed
  exact names_bind (names_onWorld names_renderPhase) fun _ => names_modify _

end Names

/-- Whether an operation makes calls into entities by itself. -/
def Operation.delivers : Operation → Bool
  | emit .. | tickPhase _ | renderPhase | step _ | frameAt _ => true
  | _ => false

theorem Operation.names {operation : Operation} (delivers : operation.delivers = true) :
    Names operation.perform := by
  cases operation with
  | emit event payload =>
      exact names_run fun world => names_broadcast world.inner (.handler event payload) world
  | tickPhase delta => exact names_run (names_tickPhase delta)
  | renderPhase => exact names_run names_renderPhase
  | step elapsed => exact names_step elapsed
  | frameAt now =>
      intro session error after failed
      obtain ⟨elapsed, frame⟩ := Session.frameAt_eq now session
      rw [perform, frame] at failed
      exact names_step elapsed _ error after failed
  | _ => cases delivers

/-! ### Failures of operations -/

/-- Where failures are not isolated, an operation that fails stops at the first error that is
raised: after that nothing is left to happen but that what is active is left.  The error comes
out with the innermost call named in it that was active or attempted, and only that one; if the
operation itself makes calls, there is one.  An operation that does not fail has met no error.
Where failures are isolated, no error ever names an entity.  The journal tells of no activity that
the trace leaves out. -/
theorem Session.Reachable.failures {session : Session} (reachable : session.Reachable)
    (operation : Operation) :
    (session.world.settings.isolateErrors = false →
      (∀ error after, operation.perform session = .raised error after →
        ∃ before moment unwinding source,
          operation.trace session = before ++ moment :: unwinding ∧
          (∀ earlier ∈ before, earlier.act.raised? = none) ∧
          moment.act.raised? = some source ∧ source.Bare ∧
          (∀ later ∈ unwinding, later.act.Unwinds) ∧
          error = source.blaming moment.involved ∧
          (operation.delivers = true → ∃ ref phase,
            moment.involved.findSome? Activity.call? = some (ref, phase) ∧
            error = .inEntity ref phase source)) ∧
      ((∀ error after, operation.perform session ≠ .raised error after) →
        ∀ moment ∈ operation.trace session, moment.act.raised? = none)) ∧
    (session.world.settings.isolateErrors = true →
      (∀ moment ∈ operation.trace session, moment.act.Bare) ∧
      ∀ error after, operation.perform session = .raised error after → error.Bare) ∧
    ∀ after, session.Leads operation after →
      after.world.passages =
        session.world.passages ++ (operation.trace session).flatMap Moment.passages := by
  have entry := operation.steady_entry session.world
  have course := operation.course session
  have inactive : (operation.entry session.world).active = [] :=
    entry.active.trans reachable.inactive
  refine ⟨?_, ?_, fun _ leads => leads.passages⟩
  · intro strict
    have failsFast := course.failsFast (by rw [entry.settings]; exact strict)
    rw [inactive] at failsFast
    constructor
    · intro error after failed
      rw [failed] at failsFast
      have stops : Stops [] (operation.trace session) error := failsFast
      generalize operation.trace session = trace at stops
      have names := fun delivers => Operation.names delivers session error after failed
      cases stops with
      | @stop before moment unwinding source inside quiet raised bare unwinds involved =>
          rw [List.append_nil] at involved
          refine ⟨before, moment, unwinding, source, rfl, quiet, raised, bare, unwinds,
            by rw [involved], ?_⟩
          intro delivers
          obtain ⟨_, _, _, same⟩ := names delivers
          rw [involved]
          exact ScriptError.blamed_of_names bare same
    · intro ends
      cases ran : operation.perform session with
      | raised error after => exact absurd ran (ends error after)
      | returned value after =>
          rw [ran] at failsFast
          exact failsFast
      | endless =>
          rw [ran] at failsFast
          exact failsFast
  · intro isolated
    obtain ⟨bare, outcome⟩ := course.isolated (by rw [entry.settings]; exact isolated)
    refine ⟨bare, ?_⟩
    intro error after failed
    rw [failed] at outcome
    exact outcome

/-- What a computation fails with, if it fails. -/
def Outcome.error? {σ α : Type} : Outcome σ α → Option ScriptError
  | raised error _ => some error
  | returned .. | endless => none

theorem Session.failures_in_garden : ∃ (session : Session) (after : Session) (moment : Moment),
    session.Reachable ∧ session.world.settings.isolateErrors = false ∧
      (Operation.emit "rain" .unset).perform session =
        .raised (.inEntity ⟨0, "Plant"⟩ .handler (.undefinedVariable "sun")) after ∧
      moment ∈ (Operation.emit "rain" .unset).trace session ∧
      moment.act.raised? = some (.undefinedVariable "sun") ∧
      moment.involved.findSome? Activity.call? = some (⟨0, "Plant"⟩, .handler) := by
  obtain ⟨session, reached, seen⟩ := Option.map_eq_some_iff.mp
    (show (through gardening (start (World.initial { Settings.default with
        isolateErrors := false } false))).map (fun session =>
          (session.world.settings.isolateErrors,
            ((Operation.emit "rain" .unset).perform session).error?)) =
      some (false, some (.inEntity ⟨0, "Plant"⟩ .handler (.undefinedVariable "sun"))) from by
        decide +kernel)
  have reachable := reachable_through reached
  rw [Prod.mk.injEq] at seen
  obtain ⟨strict, failed⟩ := seen
  cases ran : (Operation.emit "rain" .unset).perform session with
  | returned | endless => simp [ran, Outcome.error?] at failed
  | raised error after =>
      simp only [ran, Outcome.error?, Option.some.injEq] at failed
      subst failed
      obtain ⟨failures, _⟩ :=
        (Session.Reachable.failures reachable (.emit "rain" .unset)).1 strict
      obtain ⟨before, moment, unwinding, source, split, _, raised, _, _, _, names⟩ :=
        failures _ after ran
      obtain ⟨ref, phase, innermost, same⟩ := names rfl
      rw [ScriptError.inEntity.injEq] at same
      obtain ⟨rfl, rfl, rfl⟩ := same
      have member : moment ∈ (Operation.emit "rain" .unset).trace session := by simp [split]
      exact ⟨session, after, moment, reachable, strict, ran, member, raised, innermost⟩

end EntityScript
