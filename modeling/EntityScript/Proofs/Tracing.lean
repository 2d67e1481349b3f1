import EntityScript.Proofs.Course

/-!
Every trace is a course, with the outcome that the computation has, so what holds of courses
holds of whatever happens while an operation runs.
-/

namespace EntityScript

open Script

structure Watched.Runs (levels : Nat) (watched : Watched) : Prop where
  spawned (typeName : String) (arguments : List Value) (world : World) :
    Course levels world (watched.spawned typeName arguments world)
      ((watched.calls.spawn typeName arguments world).over id)
  emitted (event : String) (payload : Value) (world : World) :
    Course levels world (watched.emitted event payload world)
      ((watched.calls.emit event payload world).over id)

/-- A computation goes on from the outcome of another. -/
theorem Course.bind {levels : Nat} {σ α β : Type} {view : σ → World} {script : Script σ α}
    {next : α → Script σ β} {world : World} {trace : List Moment}
    {later : α → σ → List Moment} {state : σ}
    (first : Course levels world trace ((script state).over view))
    (rest : ∀ value after, script state = .returned value after →
      Course levels (view after) (later value after) ((next value after).over view)) :
    Course levels world (trace ++ (script state).andTrace later)
      (((script >>= next) state).over view) := by
  rw [bind_eq]
  cases ran : script state with
  | returned value after =>
      rw [ran] at first
      exact .append first (rest value after ran)
  | raised error after =>
      rw [ran] at first
      rw [Outcome.andTrace, List.append_nil]
      exact first
  | endless =>
      rw [ran] at first
      rw [Outcome.andTrace, List.append_nil]
      exact first

theorem Simple.course {levels : Nat} {σ α : Type} {view : σ → World} {script : Script σ α}
    (simple : Simple view script) (state : σ) :
    Course levels (view state) (simple.trace state) ((script state).over view) := by
  unfold trace
  cases ran : script state with
  | returned value after => exact .worked (simple.follows state after (by rw [ran]; rfl))
  | raised error after =>
      exact .failed (simple.follows state after (by rw [ran]; rfl)) (simple.plain ran)
  | endless => exact absurd ran (simple.ends state)

theorem over_onWorld {α : Type} (script : Frame → Script World α) (activation : Activation) :
    (onWorld script activation).over Activation.world =
      (script activation.frame activation.world).over id := by
  unfold onWorld
  dsimp only
  cases script activation.frame activation.world <;> rfl

theorem over_withScope {α : Type} (script : Script Activation α) (activation : Activation) :
    (withScope script activation).over Activation.world =
      (script { activation with frame := activation.frame.push }).over Activation.world := by
  change (andThen script (fun _ activation => { activation with frame := activation.frame.pop })
    { activation with frame := activation.frame.push }).over Activation.world = _
  unfold andThen
  cases script { activation with frame := activation.frame.push } <;> rfl

theorem over_inFrame (frame : Frame) (script : Script Activation Unit) (world : World) :
    (inFrame frame script world).over id = (script ⟨frame, world⟩).over Activation.world := by
  unfold inFrame
  cases script ⟨frame, world⟩ <;> rfl

theorem Composition.course {levels : Nat} {watched : Watched} (nested : watched.Runs levels)
    {loops : Bool} {σ α : Type} {view : σ → World} {script : Calls → Script σ α}
    (composition : Composition loops view script) (state : σ) :
    Course levels (view state) (composition.trace watched state)
      ((script watched.calls state).over view) := by
  induction composition with
  | simple simple => exact simple.course state
  | endless => exact .endless
  | bind _ _ first rest => exact .bind (first state) fun value after _ => rest value after
  | onWorld _ course =>
      rw [over_onWorld]
      exact course state.frame state.world
  | inScope _ course =>
      rw [over_withScope]
      exact course { state with frame := state.frame.push }
  | statement stmt _ course => exact .executed (course state)
  | inFrame frame _ course =>
      rw [over_inFrame]
      exact course ⟨frame, state⟩
  | spawn typeName arguments => exact nested.spawned typeName arguments state
  | emit event payload => exact nested.emitted event payload state

@[simp]
theorem over_id {σ : Type} (outcome : Outcome σ Unit) : outcome.over id = outcome := by
  cases outcome <;> rfl

theorem construct_of_constructible {inner : Option Calls} {typeName : String}
    {arguments : List Value} {world : World} :
    construct inner typeName arguments world =
      match world.constructible typeName arguments with
      | .error error => .raised error world
      | .ok type =>
          enter inner (.construction ⟨world.entities.size, type.name⟩)
            (build type ⟨world.entities.size, type.name⟩ arguments) world := by
  rw [construct_eq]
  unfold World.constructible
  cases world.types.get? typeName with
  | none => rfl
  | some type =>
      dsimp only
      split <;> rfl

theorem leaving_build (type : EntityType) (ref : EntityRef) (arguments : List Value)
    (calls : Calls) (activity : Activity) (world : World) :
    (build type ref arguments calls world).leaving activity =
      ((setUp calls type ref arguments (world.make type)).registered ref).leaving activity := by
  rw [build_eq]
  cases setUp calls type ref arguments (world.make type) <;> rfl

theorem over_enter_build (type : EntityType) (ref : EntityRef) (arguments : List Value)
    (calls : Calls) (activity : Activity) (world : World) :
    (enter (some calls) activity (build type ref arguments) world).over id =
      ((setUp calls type ref arguments ((world.enter activity).make type)).registered
        ref).left activity := by
  rw [enter_some]
  unfold andThen
  rw [build_eq]
  cases setUp calls type ref arguments ((world.enter activity).make type) <;> rfl

theorem over_bind_pure {σ α β : Type} {view : σ → World} (script : Script σ α) (result : α → β)
    (state : σ) : ((do pure (result (← script))) state).over view = (script state).over view := by
  rw [bind_eq]
  cases script state <;> rfl

theorem traceDeliver_of_not_due {inner : Option Watched} {call : EntityCall} {id : EntityId}
    {world : World} (notDue : world.due call id = false) :
    traceDeliver inner call id world = [] := by
  unfold traceDeliver
  cases found : world.entity? id with
  | none => rfl
  | some entity =>
      rcases World.passed_of_not_due found notDue with passed | unanswered
      · simp only [passed, if_true]
      · simp only [unanswered]
        split <;> rfl

theorem over_deliver_of_due {inner : Option Calls} {call : EntityCall} {target : EntityId}
    {world : World} {entity : Entity} {method : Method}
    (found : world.entity? target = some entity)
    (answered : call.method? entity.type = some method)
    (reached : (entity.destroyed && !call.reachesDestroyed) = false) :
    (deliver inner call target world).over id =
      (invoke inner ⟨target, entity.type.name⟩ call method world).isolated
        ⟨target, entity.type.name⟩ call.phase := by
  rw [deliver_of_due found answered reached]
  cases invoke inner ⟨target, entity.type.name⟩ call method world with
  | returned _ after => rfl
  | raised error after =>
      unfold Outcome.isolated
      dsimp only
      split <;> rfl
  | endless => rfl

theorem invoke_some (calls : Calls) (ref : EntityRef) (call : EntityCall) (method : Method)
    (world : World) :
    invoke (some calls) ref call method world =
      (runBody calls (Frame.ofCall ref method.parameters call.arguments) method.body
        (world.enter (.call ref call))).left (.call ref call) := by
  rw [invoke, enter_some]
  unfold andThen
  cases runBody calls (Frame.ofCall ref method.parameters call.arguments) method.body
    (world.enter (.call ref call)) <;> rfl

section Dispatch

variable {levels : Nat}
  (nested : ∀ deeper, levels = deeper + 1 → (Watched.ofLevels deeper).Runs deeper)

include nested

theorem traceConstruct_course (typeName : String) (arguments : List Value) (world : World) :
    Course levels world (traceConstruct (Watched.inside levels) typeName arguments world)
      ((construct (Calls.inside levels) typeName arguments world).over id) := by
  rw [construct_of_constructible]
  unfold traceConstruct
  cases constructible : world.constructible typeName arguments with
  | error error => exact .unspawned constructible
  | ok type =>
      dsimp only
      generalize named : (⟨world.entities.size, type.name⟩ : EntityRef) = ref
      cases levels with
      | zero =>
          rw [← named]
          exact .refusedSpawn constructible
      | succ deeper =>
          have setUp := (Composition.setUp type ref arguments (.inl rfl) :
            Composition true _ _).course (nested deeper rfl)
              ((world.enter (.construction ref)).make type)
          rw [Watched.calls_ofLevels, over_id] at setUp
          have whole := Course.spawned constructible named.symm rfl setUp
          rw [Calls.inside_succ, over_enter_build, Watched.inside_succ]
          unfold traceEnter
          dsimp only
          rw [leaving_build, Watched.calls_ofLevels]
          exact whole

theorem traceDeliver_course {call : EntityCall} {target : EntityId} {world : World}
    (registered : target ∈ world.registry) :
    Course levels world (traceDeliver (Watched.inside levels) call target world)
      ((deliver (Calls.inside levels) call target world).over id) := by
  cases due : world.due call target with
  | false =>
      rw [traceDeliver_of_not_due due, deliver_of_not_due due]
      exact .idle
  | true =>
      obtain ⟨entity, method, found, answered, reached⟩ := World.method_of_due due
      have known : world.ref? target = some ⟨target, entity.type.name⟩ := by
        simp [World.ref?, found]
      rw [over_deliver_of_due found answered reached]
      unfold traceDeliver
      simp only [found, answered, reached, Watched.calls_inside]
      generalize named : (⟨target, entity.type.name⟩ : EntityRef) = ref at known ⊢
      obtain rfl : ref.id = target := by rw [← named]
      cases levels with
      | zero => exact .refusedCall registered due known
      | succ deeper =>
          have body := (Composition.runBody (Frame.ofCall ref method.parameters call.arguments)
            method.body (.inl rfl) : Composition true _ _).course (nested deeper rfl)
              (world.enter (.call ref call))
          rw [Watched.calls_ofLevels, over_id] at body
          have whole := Course.called registered due known body
          rw [Calls.inside_succ, invoke_some, Watched.inside_succ]
          unfold traceInvoke traceEnter
          dsimp only
          rw [Watched.calls_ofLevels]
          exact whole

theorem traceDeliverAll_course {call : EntityCall} {targets : List EntityId} {world : World}
    (registered : ∀ target ∈ targets, target ∈ world.registry) :
    Course levels world (traceDeliverAll (Watched.inside levels) call targets world)
      ((deliverAll (Calls.inside levels) call targets world).over id) := by
  induction targets generalizing world with
  | nil => exact .idle
  | cons target rest inductionHypothesis =>
      obtain ⟨here, others⟩ := List.forall_mem_cons.mp registered
      unfold traceDeliverAll
      rw [Watched.calls_inside]
      apply Course.bind (traceDeliver_course nested here)
      intro answered after ran
      rw [over_bind_pure]
      apply inductionHypothesis
      intro other member
      obtain ⟨_, _, taken⟩ := deliver_links persists_covers (inside_follow persists_covers _)
        (show (deliver (Calls.inside levels) call target world).state? = some after by
          rw [ran]
          rfl)
      exact (Persists.turn taken).registered (others other member)

theorem traceBroadcast_course (call : EntityCall) (world : World) :
    Course levels world (traceBroadcast (Watched.inside levels) call world)
      ((broadcast (Calls.inside levels) call world).over id) :=
  traceDeliverAll_course nested fun _ member => member

end Dispatch

theorem Watched.runs_ofLevels (levels : Nat) : (ofLevels levels).Runs levels := by
  induction levels using Nat.strongRecOn with
  | ind levels inductionHypothesis =>
      have nested (deeper : Nat) (same : levels = deeper + 1) : (ofLevels deeper).Runs deeper :=
        inductionHypothesis deeper (by omega)
      constructor
      · intro typeName arguments world
        rw [calls_ofLevels]
        exact traceConstruct_course nested typeName arguments world
      · intro event payload world
        rw [calls_ofLevels]
        exact traceBroadcast_course nested (.handler event payload) world

namespace World

theorem watched_runs (world : World) : world.watched.Runs (maxCallDepth - world.depth) :=
  Watched.runs_ofLevels _

theorem traceMain_course (world : World) :
    Course (maxCallDepth - world.depth) world world.traceMain ((runMain world).over id) := by
  unfold traceMain runMain
  rw [get_bind]
  cases world.main with
  | none => exact .idle
  | some entry =>
      have body := (Composition.runBody (.of none) entry.body (.inl rfl) :
        Composition true _ _).course world.watched_runs world
      rw [calls_watched] at body
      exact body

theorem over_runPhase (call : EntityCall) (world : World) :
    (runPhase call world).over id =
      ((broadcast (Calls.inside (maxCallDepth - world.depth)) call world).over id).ended
        call.phase := by
  rw [runPhase_eq]
  change _ = ((deliverAll world.inner call world.registry world).over id).ended call.phase
  cases deliverAll world.inner call world.registry world <;> rfl

theorem tracePhase_course (call : EntityCall) (world : World) :
    Course (maxCallDepth - world.depth) world (world.tracePhase call)
      ((runPhase call world).over id) := by
  rw [over_runPhase]
  exact .ended (traceBroadcast_course (fun deeper _ => Watched.runs_ofLevels deeper) call world)

theorem traceTicks_course (delta : Float) (world : World) :
    Course (maxCallDepth - world.depth) world.cleared (world.traceTicks delta)
      ((tickPhase delta world).over id) := by
  have phase := tracePhase_course (.tick delta) world.cleared
  rw [depth_cleared] at phase
  exact phase

theorem traceRenders_course (world : World) :
    Course (maxCallDepth - world.depth) world world.traceRenders ((renderPhase world).over id) :=
  .append .began (tracePhase_course .render (world.note (.began .render)))

end World

namespace Session

theorem over_onWorld {α : Type} (script : Script World α) (session : Session) :
    (onWorld script session).over Session.world = (script session.world).over id := by
  unfold onWorld
  dsimp only
  cases script session.world <;> rfl

theorem over_run {α : Type} (script : Script World α) (session : Session) :
    (run script session).over Session.world = (script session.world).over id := by
  rw [← over_onWorld]
  exact over_bind_pure (onWorld script) (fun _ => ()) session

theorem traceStep_course (elapsed : Float) (session : Session) :
    Course (maxCallDepth - session.world.depth) session.world.pumpInput.cleared
      (session.traceStep elapsed) ((step elapsed session).over Session.world) := by
  rw [step_eq]
  unfold traceStep
  have ticks := session.world.pumpInput.traceTicks_course
    (session.world.settings.clampDelta elapsed)
  apply Course.bind
  · rw [over_onWorld]
    exact ticks
  · intro _ ticked ran
    have ends : ((World.tickPhase (session.world.settings.clampDelta elapsed)
        session.world.pumpInput).over id).state? = some ticked.world := by
      have seen := over_onWorld (World.tickPhase (session.world.settings.clampDelta elapsed))
        ⟨session.world.pumpInput, session.frames, session.lastStart⟩
      rw [ran] at seen
      rw [← seen]
      rfl
    obtain ⟨_, _, persists⟩ := ticks.links persists_frames ends
    have depth : ticked.world.depth = session.world.depth := by
      rw [persists.depth, World.depth_cleared]
      rfl
    have renders := ticked.world.traceRenders_course
    rw [depth, ← over_onWorld] at renders
    have whole : Course (maxCallDepth - session.world.depth) ticked.world
        (ticked.world.traceRenders ++
          (onWorld World.renderPhase ticked).andTrace fun _ _ => [])
        (((do
          onWorld World.renderPhase
          modify (completeFrame (session.world.settings.clampDelta elapsed))) ticked).over
            Session.world) :=
      .bind renders fun _ _ _ => .quiet (Quiet.logged (by simp))
    rwa [Outcome.andTrace_nil, List.append_nil] at whole

theorem traceFrame_course (now : Nat) (session : Session) :
    Course (maxCallDepth - session.world.depth) session.world.pumpInput.cleared
      (session.traceFrame now) ((frameAt now session).over Session.world) := by
  obtain ⟨world, frames, lastStart⟩ := session
  cases lastStart with
  | none => exact traceStep_course 0 ⟨world, frames, some now⟩
  | some last =>
      exact traceStep_course (Settings.secondsOfNanos (now - last)) ⟨world, frames, some now⟩

end Session

/-- The world in which the scripts of an operation begin to run. -/
def Operation.entry (operation : Operation) (world : World) : World :=
  match operation with
  | tickPhase _ => world.cleared
  | step _ | frameAt _ => world.pumpInput.cleared
  | _ => world

open Session in
/-- What happens while an operation runs is a course. -/
theorem Operation.course (operation : Operation) (session : Session) :
    Course (maxCallDepth - session.world.depth) (operation.entry session.world)
      (operation.trace session) ((operation.perform session).over Session.world) := by
  have changed : ∀ {change : World → World} {levels : Nat},
      (History.Links Quiet session.world (change session.world) ∨
        History.Links Slight session.world (change session.world)) →
      Course levels session.world [⟨.work, session.world⟩]
        ((Session.change change session).over Session.world) := by
    rintro change levels (quiet | slight)
    · exact .append (.worked (.refl Slight.covers.toComposes _)) (.quiet quiet)
    · exact .worked slight
  cases operation with
  | install program => exact changed (.inl (World.install_quiet _ _))
  | load unit =>
      refine changed (.inl ?_)
      split
      · exact World.load_quiet ‹_›
      · exact .refl Quiet.composes _
  | loadAll items => exact changed (.inl (World.loadFrom_quiet items _ _))
  | registerImage name width height => exact changed (.inl (Quiet.silent rfl rfl rfl rfl rfl))
  | spawn typeName arguments =>
      have spawned := session.world.watched_runs.spawned typeName arguments session.world
      rw [World.calls_watched] at spawned
      rw [perform, over_run]
      exact spawned
  | destroy entity => exact changed (.inr (Slight.covers.destroy _ _))
  | setField id name value => exact changed (.inr (.silent rfl .wrote))
  | emit event payload =>
      have emitted := session.world.watched_runs.emitted event payload session.world
      rw [World.calls_watched] at emitted
      rw [perform, over_run]
      exact emitted
  | runMain =>
      rw [perform, over_run]
      exact session.world.traceMain_course
  | pushKey event => exact changed (.inl (Quiet.silent rfl rfl rfl rfl rfl))
  | pumpInput => exact changed (.inl (Quiet.silent rfl rfl rfl rfl rfl))
  | tickPhase delta =>
      rw [perform, over_run]
      exact session.world.traceTicks_course delta
  | renderPhase =>
      rw [perform, over_run]
      exact session.world.traceRenders_course
  | step elapsed => exact session.traceStep_course elapsed
  | frameAt now => exact session.traceFrame_course now
  | cancel =>
      exact .append (.worked (.refl Slight.covers.toComposes _)) (.quiet (Quiet.logged (by simp)))

end EntityScript
