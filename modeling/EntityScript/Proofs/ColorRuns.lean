import EntityScript.Proofs.Coloring
import EntityScript.Proofs.Reaching

/-!
Whole runs keep to a palette.  Constructions, calls into entities and broadcasts hand values on, and
a host starts them; where what the host supplies is of a palette, so is everything that scripts
compute, keep and draw.
-/

namespace EntityScript

open Script

variable {palette : Palette}

section Dispatch

variable {calls : Calls}

theorem upholds_runInitializers (closed : palette.Closed) (nested : calls.Uphold palette)
    {frame : Frame} (names : frame.Within palette) (ref : EntityRef)
    (initializers : List Initializer) :
    Upholds (World.Within palette) (fun _ => True)
      (runInitializers calls frame ref initializers) := by
  induction initializers with
  | nil => exact upholds_pure trivial
  | cons initializer rest inductionHypothesis =>
      obtain ⟨name, value⟩ := initializer
      have declared (value : Value) (fits : value.Within palette) :
          Upholds (World.Within palette) (fun _ => True) (do
            modify fun world => world.setField ref.id name value
            note (.declared ref name)
            runInitializers calls frame ref rest) := by
        apply upholds_bind (upholds_modify fun world within => within.setField _ _ fits)
        intro _ _
        apply upholds_bind (upholds_modify fun world within => within.congr rfl rfl)
        exact fun _ _ => inductionHypothesis
      cases value with
      | none => exact upholds_bind (upholds_pure trivial) declared
      | some expr => exact upholds_bind (upholds_eval closed nested names expr) declared

theorem upholds_build (closed : palette.Closed) (nested : calls.Uphold palette) (type : EntityType)
    (ref : EntityRef) {arguments : List Value} (good : ∀ value ∈ arguments, value.Within palette) :
    Upholds (World.Within palette) (fun _ => True) (build type ref arguments calls) := by
  have names := Frame.within_ofCall ref type.constructor.parameters good
  apply upholds_bind (upholds_modify fun world within => within.make type)
  intro _ _
  apply upholds_bind (P := fun _ => True)
  · rw [setUp_eq]
    apply upholds_bind (upholds_runInitializers closed nested names ref type.initializers)
    exact fun _ _ => upholds_runBody closed nested names type.constructor.body
  · intro _ _
    apply upholds_bind (upholds_modify fun world within => within.congr rfl rfl)
    exact fun _ _ => upholds_pure trivial

theorem upholds_isolate (ref : EntityRef) (phase : Phase) {script : Script World Unit}
    (upholds : Upholds (World.Within palette) (fun _ => True) script) :
    Upholds (World.Within palette) (fun _ => True) (isolate ref phase script) := by
  apply upholds_rescue upholds
  intro error
  apply upholds_bind upholds_get
  intro world _
  split
  · exact upholds_modify fun world within => within.congr rfl rfl
  · exact upholds_raise

variable {inner : Option Calls} (nested : ∀ calls ∈ inner, calls.Uphold palette)

include nested

omit nested in
theorem upholds_enter {α : Type} {Q : α → Prop} (activity : Activity)
    {body : Calls → Script World α}
    (upholds : ∀ calls ∈ inner, Upholds (World.Within palette) Q (body calls)) :
    Upholds (World.Within palette) Q (enter inner activity body) := by
  cases inner with
  | none =>
      apply upholds_bind (upholds_modify fun world within => within.congr rfl rfl)
      exact fun _ _ => upholds_raise
  | some calls =>
      apply upholds_bind (upholds_modify fun world within => within.congr rfl rfl)
      exact fun _ _ => upholds_andThen (upholds calls rfl) fun _ _ within => within.congr rfl rfl

theorem upholds_construct (closed : palette.Closed) (typeName : String) {arguments : List Value}
    (good : ∀ value ∈ arguments, value.Within palette) :
    Upholds (World.Within palette) (fun _ => True) (construct inner typeName arguments) := by
  apply upholds_bind upholds_get
  intro world _
  split
  · exact upholds_raise
  · split
    · exact upholds_enter _ fun calls given => upholds_build closed (nested calls given) _ _ good
    · exact upholds_raise

theorem upholds_deliver (closed : palette.Closed) {call : EntityCall} (good : call.Within palette)
    (target : EntityId) :
    Upholds (World.Within palette) (fun _ => True) (deliver inner call target) := by
  apply upholds_bind upholds_get
  intro world _
  split
  · exact upholds_pure trivial
  · split
    · exact upholds_pure trivial
    · split
      · exact upholds_pure trivial
      · apply upholds_bind (upholds_isolate _ _ ?_) fun _ _ => upholds_pure trivial
        exact upholds_enter _ fun calls given =>
          upholds_runBody closed (nested calls given) (Frame.within_ofCall _ _ good) _

theorem upholds_deliverAll (closed : palette.Closed) {call : EntityCall}
    (good : call.Within palette) (targets : List EntityId) :
    Upholds (World.Within palette) (fun _ => True) (deliverAll inner call targets) := by
  induction targets with
  | nil => exact upholds_pure trivial
  | cons target rest inductionHypothesis =>
      apply upholds_bind (upholds_deliver nested closed good target)
      intro _ _
      exact upholds_bind inductionHypothesis fun _ _ => upholds_pure trivial

theorem uphold_around (closed : palette.Closed) : (Calls.around inner).Uphold palette where
  spawn typeName _ good := upholds_construct nested closed typeName good
  emit event payload good := by
    apply upholds_bind upholds_get
    intro world _
    refine upholds_deliverAll nested closed ?_ world.registry
    exact List.forall_mem_singleton.mpr good

omit nested in
theorem uphold_inside (closed : palette.Closed) (levels : Nat) :
    ∀ calls ∈ Calls.inside levels, calls.Uphold palette := by
  induction levels with
  | zero => exact nofun
  | succ levels inductionHypothesis =>
      intro calls given
      cases given
      exact uphold_around inductionHypothesis closed

omit nested in
theorem uphold_ofLevels (closed : palette.Closed) (levels : Nat) :
    (Calls.ofLevels levels).Uphold palette :=
  uphold_around (uphold_inside closed levels) closed

end Dispatch

namespace World

variable (closed : palette.Closed)

include closed

theorem upholds_runMain : Upholds (World.Within palette) (fun _ => True) runMain := by
  apply upholds_bind upholds_get
  intro world _
  split
  · exact upholds_pure trivial
  · exact upholds_runBody closed (uphold_ofLevels closed _) (Frame.within_of none) _

theorem upholds_spawn (typeName : String) {arguments : List Value}
    (good : ∀ value ∈ arguments, value.Within palette) :
    Upholds (World.Within palette) (fun _ => True) (spawn typeName arguments) := by
  apply upholds_bind upholds_get
  exact fun world _ => (uphold_ofLevels closed _).spawn typeName good

theorem upholds_emit (event : String) {payload : Value} (good : payload.Within palette) :
    Upholds (World.Within palette) (fun _ => True) (emit event payload) := by
  apply upholds_bind upholds_get
  exact fun world _ => (uphold_ofLevels closed _).emit event good

theorem upholds_runPhase {call : EntityCall} (good : call.Within palette) :
    Upholds (World.Within palette) (fun _ => True) (runPhase call) := by
  have turns : Upholds (World.Within palette) (fun _ => True)
      (do broadcast (← get).inner call) := by
    apply upholds_bind upholds_get
    intro world _
    apply upholds_bind upholds_get
    exact fun other _ => upholds_deliverAll (uphold_inside closed _) closed good other.registry
  refine upholds_bind (upholds_andThen turns ?_) fun _ _ => upholds_pure trivial
  exact fun _ _ within => within.congr rfl rfl

theorem upholds_tickPhase (delta : Float) :
    Upholds (World.Within palette) (fun _ => True) (tickPhase delta) := by
  have told : (EntityCall.tick delta).Within palette := List.forall_mem_singleton.mpr trivial
  apply upholds_bind (upholds_modify fun world within => ?_) fun _ _ => upholds_runPhase closed told
  have begun : (world.note (.began .tick)).Within palette := within.congr rfl rfl
  exact begun.removeDestroyed

theorem upholds_renderPhase : Upholds (World.Within palette) (fun _ => True) renderPhase := by
  have told : EntityCall.render.Within palette := nofun
  apply upholds_bind (upholds_modify fun world within => ?_) fun _ _ => upholds_runPhase closed told
  exact within.congr rfl rfl

end World

/-- What the host supplies is of the palette. -/
def Operation.Within (palette : Palette) : Operation → Prop
  | spawn _ arguments => ∀ value ∈ arguments, value.Within palette
  | setField _ _ value => value.Within palette
  | emit _ payload => payload.Within palette
  | _ => True

namespace Session

/-- All that a session keeps is of the palette. -/
def Within (palette : Palette) (session : Session) : Prop := session.world.Within palette

theorem upholds_onWorld {α : Type} {Q : α → Prop} {script : Script World α}
    (upholds : Upholds (World.Within palette) Q script) :
    Upholds (Session.Within palette) Q (onWorld script) := by
  rintro ⟨world, frames, lastStart⟩ within
  have upheld := upholds world within
  unfold onWorld
  dsimp only
  cases ran : script world with
  | returned value middle =>
      rw [ran] at upheld
      exact upheld
  | raised error middle =>
      rw [ran] at upheld
      exact upheld
  | endless => trivial

theorem upholds_step (closed : palette.Closed) (elapsed : Float) :
    Upholds (Session.Within palette) (fun _ => True) (step elapsed) := by
  intro session within
  rw [step_eq]
  have pumped : session.world.pumpInput.Within palette := within.congr rfl rfl
  refine upholds_bind (upholds_onWorld (World.upholds_tickPhase closed _)) (fun _ _ => ?_) _ pumped
  apply upholds_bind (upholds_onWorld (World.upholds_renderPhase closed))
  exact fun _ _ => upholds_modify fun session within => within.congr rfl rfl

theorem upholds_frameAt (closed : palette.Closed) (now : Nat) :
    Upholds (Session.Within palette) (fun _ => True) (frameAt now) := by
  intro session within
  obtain ⟨elapsed, frame⟩ := frameAt_eq now session
  rw [frame]
  exact upholds_step closed elapsed _ within

end Session

open Session in
theorem Operation.upholds (closed : palette.Closed) {operation : Operation}
    (supplied : operation.Within palette) :
    Upholds (Session.Within palette) (fun _ => True) operation.perform := by
  have changed {change : World → World}
      (keeps : ∀ world : World, world.Within palette → (change world).Within palette) :
      Upholds (Session.Within palette) (fun _ => True) (Session.change change) :=
    Session.upholds_onWorld (upholds_modify keeps)
  have ran {α : Type} {script : Script World α}
      (upholds : Upholds (World.Within palette) (fun _ => True) script) :
      Upholds (Session.Within palette) (fun _ => True) (Session.run script) :=
    upholds_bind (Session.upholds_onWorld upholds) fun _ _ => upholds_pure trivial
  cases operation with
  | install program => exact changed fun _ within => within.install program
  | load unit =>
      refine changed fun world within => ?_
      split
      next load => exact within.load load
      next => exact within
  | loadAll items => exact changed fun _ within => within.loadAll items
  | registerImage | pushKey | pumpInput => exact changed fun _ within => within.congr rfl rfl
  | spawn typeName arguments => exact ran (World.upholds_spawn closed typeName supplied)
  | destroy entity => exact changed fun _ within => within.destroy entity
  | setField id name value => exact changed fun _ within => within.setField id name supplied
  | emit event payload => exact ran (World.upholds_emit closed event supplied)
  | runMain => exact ran (World.upholds_runMain closed)
  | tickPhase delta => exact ran (World.upholds_tickPhase closed delta)
  | renderPhase => exact ran (World.upholds_renderPhase closed)
  | step elapsed => exact upholds_step closed elapsed
  | frameAt now => exact upholds_frameAt closed now
  | cancel => exact upholds_modify fun session within => within.congr rfl rfl

theorem Session.within_through (closed : palette.Closed) {operations : List Operation}
    {session after : Session} (supplied : ∀ operation ∈ operations, operation.Within palette)
    (within : session.Within palette) (reached : through operations session = some after) :
    after.Within palette := by
  refine preserved_through ?_ within reached
  intro operation member before next leads within
  exact (Operation.upholds closed (supplied operation member)).after within leads

/-- The names and the values that a task is given are of the palette. -/
def Task.Within (palette : Palette) : Task → Prop
  | eval frame _ | evalAll frame _ | exec frame _ | execAll frame _ | execBranches frame _
  | countRounds frame _ _ _ _ _ | runBody frame _ | runInitializers frame _ _ =>
      frame.Within palette
  | callBuiltin _ arguments | callGlobal _ arguments | construct _ arguments =>
      ∀ value ∈ arguments, value.Within palette
  | deliverAll call _ => call.Within palette

structure Running.Within (palette : Palette) (running : Running) : Prop where
  task : running.task.Within palette
  world : running.world.Within palette

section Ran

variable {levels : Nat} {frame next : Frame} {world after : World} (closed : palette.Closed)
  (names : frame.Within palette) (within : world.Within palette)

include closed names within

theorem eval_within {expr : Expr} {value : Value}
    (ran : eval (.ofLevels levels) frame expr world = .returned value after) :
    after.Within palette ∧ value.Within palette :=
  (upholds_eval closed (uphold_ofLevels closed levels) names expr).returned within ran

theorem evalAll_within {exprs : List Expr} {values : List Value}
    (ran : evalAll (.ofLevels levels) frame exprs world = .returned values after) :
    after.Within palette ∧ ∀ value ∈ values, value.Within palette :=
  (upholds_evalAll closed (uphold_ofLevels closed levels) names exprs).returned within ran

theorem exec_within {stmt : Stmt}
    (ran : exec (.ofLevels levels) stmt ⟨frame, world⟩ = .returned () ⟨next, after⟩) :
    next.Within palette ∧ after.Within palette := by
  have upholds := upholds_exec closed (uphold_ofLevels closed levels) stmt
  have ⟨kept, _⟩ := upholds.returned ⟨names, within⟩ ran
  exact ⟨kept.frame, kept.world⟩

theorem execBranches_within {branches : List (Expr × List Stmt)} {taken : Bool}
    (ran : execBranches (.ofLevels levels) branches ⟨frame, world⟩ =
      .returned taken ⟨next, after⟩) : next.Within palette ∧ after.Within palette := by
  have upholds := upholds_execBranches closed (uphold_ofLevels closed levels) branches
  have ⟨kept, _⟩ := upholds.returned ⟨names, within⟩ ran
  exact ⟨kept.frame, kept.world⟩

theorem round_within {counter : String} {count : Float} {body : List Stmt}
    (ran : withScope (do
      changeFrame (·.define counter (.number count))
      withScope (execAll (.ofLevels levels) body)) ⟨frame, world⟩ = .returned () ⟨next, after⟩) :
    next.Within palette ∧ after.Within palette := by
  have block := upholds_withScope (upholds_execAll closed (uphold_ofLevels closed levels) body)
  have counted (frame : Frame) (names : frame.Within palette) :
      (frame.define counter (.number count)).Within palette := names.define counter trivial
  have upholds := upholds_withScope (upholds_bind (upholds_changeFrame counted) fun _ _ => block)
  have ⟨kept, _⟩ := upholds.returned ⟨names, within⟩ ran
  exact ⟨kept.frame, kept.world⟩

theorem runInitializers_within {ref : EntityRef} {initializers : List Initializer}
    (ran : runInitializers (.ofLevels levels) frame ref initializers world = .returned () after) :
    after.Within palette :=
  have upholds := upholds_runInitializers closed (uphold_ofLevels closed levels) names ref
    initializers
  (upholds.returned within ran).1

end Ran

/-- What is started with values of a palette starts everything else so. -/
theorem Running.Starts.within (closed : palette.Closed) {first second : Running}
    (starts : first.Starts second) (within : first.Within palette) : second.Within palette := by
  obtain ⟨task, world⟩ := within
  cases starts
  case left | operand | field | target | spawnArguments | builtinArguments | globalArguments
    | firstExpr | defined | assigned | expr | branches | start | firstStmt | condition
    | initializer =>
    exact ⟨task, world⟩
  case right ran _ | methodArguments ran | otherExprs ran | bound ran _ | otherBranches ran _ =>
    exact ⟨task, (eval_within closed task world ran).1⟩
  case spawn ran | builtin ran | global ran =>
    obtain ⟨kept, good⟩ := evalAll_within closed task world ran
    exact ⟨good, kept⟩
  case emit => exact ⟨List.forall_mem_singleton.mpr (Value.within_getD task 1), world⟩
  case otherwise ran =>
    obtain ⟨names, kept⟩ := execBranches_within closed task world ran
    exact ⟨names.push, kept⟩
  case rounds first _ last _ =>
    have between := (eval_within closed task world first).1
    exact ⟨task, (eval_within closed task between last).1⟩
  case round counter _ _ _ count _ _ =>
    have fits : (Value.number count).Within palette := trivial
    exact ⟨((Frame.Within.push task).define counter fits).push, world⟩
  case otherRounds ran => exact (round_within closed task world ran).elim .mk
  case otherStmts ran => exact (exec_within closed task world ran).elim .mk
  case taken ran _ => exact ⟨Frame.Within.push task, (eval_within closed task world ran).1⟩
  case body => exact ⟨Frame.Within.push task, world⟩
  case otherInitializers ran => exact ⟨task, runInitializers_within closed task world ran⟩
  case initializers type ref _ _ _ =>
    have entered : (World.enter _ (.construction ref)).Within palette := world.congr rfl rfl
    exact ⟨Frame.within_ofCall _ _ task, entered.make type⟩
  case constructor type ref _ _ _ _ ran =>
    have entered : (World.enter _ (.construction ref)).Within palette := world.congr rfl rfl
    have names := Frame.within_ofCall ref type.constructor.parameters task
    exact ⟨names, runInitializers_within closed names (entered.make type) ran⟩
  case method => exact ⟨Frame.within_ofCall _ _ task, world.congr rfl rfl⟩
  case otherTargets levels _ target _ _ _ _ ran =>
    have upholds := upholds_deliver (uphold_inside closed levels) closed task target
    exact ⟨task, (upholds.returned world ran).1⟩

theorem Running.within_of_starts (closed : palette.Closed) {first running : Running}
    (leads : Relation.ReflTransGen Starts first running) (within : first.Within palette) :
    running.Within palette := by
  induction leads with
  | refl => exact within
  | tail _ starts inductionHypothesis => exact starts.within closed inductionHypothesis

theorem Operation.Begins.within {world : World} {operation : Operation} {running : Running}
    (begins : operation.Begins world running) (within : world.Within palette)
    (supplied : operation.Within palette) : running.Within palette := by
  cases begins with
  | runMain => exact ⟨Frame.within_of none, within⟩
  | spawn => exact ⟨supplied, within⟩
  | emit => exact ⟨List.forall_mem_singleton.mpr supplied, within⟩
  | tickPhase cleared =>
      have begun : (world.note (.began .tick)).Within palette := within.congr rfl rfl
      subst cleared
      exact ⟨List.forall_mem_singleton.mpr trivial, begun.removeDestroyed⟩
  | renderPhase noted =>
      subst noted
      exact ⟨nofun, within.congr rfl rfl⟩

theorem Session.Begins.within (closed : palette.Closed) {session : Session} {operation : Operation}
    {running : Running} (begins : session.Begins operation running)
    (within : session.Within palette) (supplied : operation.Within palette) :
    running.Within palette := by
  induction begins with
  | scripts begins => exact begins.within within supplied
  | ticks begins => exact begins.within (World.Within.congr within rfl rfl) trivial
  | renders ticked begins =>
      have pumped : (World.pumpInput _).Within palette := World.Within.congr within rfl rfl
      have ends := congrArg Outcome.state? ticked
      exact begins.within ((World.upholds_tickPhase closed _).after pumped ends) trivial
  | frame _ _ inductionHypothesis => exact inductionHypothesis within trivial

/-- What an expression returns, and what an expression or a statement leaves, is of the palette. -/
def Running.LeavesWithin (palette : Palette) (running : Running) : Prop :=
  match running.task with
  | .eval frame expr => ∀ value after,
      eval (.ofLevels running.levels) frame expr running.world = .returned value after →
        after.Within palette ∧ value.Within palette
  | .exec frame stmt => ∀ next after,
      exec (.ofLevels running.levels) stmt ⟨frame, running.world⟩ = .returned () ⟨next, after⟩ →
        next.Within palette ∧ after.Within palette
  | _ => True

theorem Running.Within.leavesWithin (closed : palette.Closed) {running : Running}
    (within : running.Within palette) : running.LeavesWithin palette := by
  obtain ⟨levels, task, world⟩ := running
  obtain ⟨names, kept⟩ := within
  cases task with
  | eval => exact fun value after ran => eval_within closed names kept ran
  | exec => exact fun next after ran => exec_within closed names kept ran
  | _ => trivial

end EntityScript
