import EntityScript.Proofs.Composition
import EntityScript.Session.Operation

/-!
What happens while an operation runs, moment by moment: which statements are executed, which
constructions and calls are attempted and left, which errors are raised, and what becomes of
them.  The journal keeps some of this, and only of operations that end; the trace of an
operation has all of it.
-/

namespace EntityScript

open Script

inductive Act where
  | execute (stmt : Stmt)
  /-- Evaluation does something by itself. -/
  | work
  /-- A construction is attempted: it is entered, or an error is raised. -/
  | spawn (typeName : String) (arguments : List Value) (answer : Attempt EntityRef)
  /-- A call into an entity is attempted. -/
  | call (entity : EntityRef) (call : EntityCall) (answer : Attempt Unit)
  | leave (activity : Activity) (succeeded : Bool)
  /-- Evaluation fails by itself. -/
  | fail (error : ScriptError)
  /-- The failure of a call into an entity is kept from going further. -/
  | absorb (entity : EntityRef) (phase : Phase) (error : ScriptError)
  /-- The failure of a call goes on with the entity named in it, if it names none yet. -/
  | blame (entity : EntityRef) (phase : Phase) (error : ScriptError)

/-- Something that happens, and the world just before. -/
structure Moment where
  act : Act
  world : World

/-- The error that is raised, if it is not one that was raised before. -/
def Act.raised? : Act → Option ScriptError
  | fail error | spawn _ _ (.error error) | call _ _ (.error error) => some error
  | _ => none

/-- The activity that is left. -/
def Act.left? : Act → Option Activity
  | leave activity _ => some activity
  | _ => none

/-- What can start calls, with what happens while they run. -/
structure Watched where
  calls : Calls
  spawned : String → List Value → World → List Moment
  emitted : String → Value → World → List Moment

/-- The outcome as seen through a view of the states. -/
def Outcome.over {σ τ α : Type} (view : σ → τ) : Outcome σ α → Outcome τ Unit
  | returned _ state => .returned () (view state)
  | raised error state => .raised error (view state)
  | endless => .endless

/-- What happens next, if there is a result to go on with. -/
def Outcome.andTrace {σ α : Type} (outcome : Outcome σ α) (next : α → σ → List Moment) :
    List Moment :=
  match outcome with
  | returned value state => next value state
  | raised .. | endless => []

@[simp]
theorem Outcome.andTrace_nil {σ α : Type} (outcome : Outcome σ α) :
    (outcome.andTrace fun _ _ => []) = [] := by
  cases outcome <;> rfl

def Simple.trace {σ α : Type} {view : σ → World} {script : Script σ α} (_ : Simple view script)
    (state : σ) : List Moment :=
  ⟨.work, view state⟩ ::
    match script state with
    | .raised error after => [⟨.fail error, view after⟩]
    | _ => []

def Composition.trace {loops : Bool} (watched : Watched) :
    {σ α : Type} → {view : σ → World} → {script : Calls → Script σ α} →
    Composition loops view script → σ → List Moment
  | _, _, _, _, simple isSimple => isSimple.trace
  | _, _, _, _, endless _ => fun _ => []
  | _, _, _, _, @bind _ _ _ _ _ script _ first rest => fun state =>
      first.trace watched state ++
        (script watched.calls state).andTrace fun value => (rest value).trace watched
  | _, _, _, _, onWorld script => fun activation =>
      (script activation.frame).trace watched activation.world
  | _, _, _, _, inScope script => fun activation =>
      script.trace watched { activation with frame := activation.frame.push }
  | _, _, _, _, statement stmt script => fun activation =>
      ⟨.execute stmt, activation.world⟩ :: script.trace watched activation
  | _, _, _, _, inFrame frame script => fun world => script.trace watched ⟨frame, world⟩
  | _, _, _, _, spawn typeName arguments => watched.spawned typeName arguments
  | _, _, _, _, emit event payload => watched.emitted event payload

def traceBody (watched : Watched) (frame : Frame) (stmts : List Stmt) (world : World) :
    List Moment :=
  (Composition.runBody frame stmts (.inl rfl) : Composition true _ _).trace watched world

def traceSetUp (watched : Watched) (type : EntityType) (ref : EntityRef)
    (arguments : List Value) (world : World) : List Moment :=
  (Composition.setUp type ref arguments (.inl rfl) : Composition true _ _).trace watched world

namespace Outcome

variable {α : Type}

def leaving (activity : Activity) : Outcome World α → List Moment
  | returned _ world => [⟨.leave activity true, world⟩]
  | raised _ world => [⟨.leave activity false, world⟩]
  | endless => []

def isolating (ref : EntityRef) (phase : Phase) : Outcome World α → List Moment
  | raised error world =>
      [⟨if world.settings.isolateErrors then .absorb ref phase error
        else .blame ref phase error, world⟩]
  | returned .. | endless => []

end Outcome

section Dispatch

variable (inner : Option Watched)

def traceEnter {α : Type} (attempt : Attempt Unit → Act) (activity : Activity)
    (body : Calls → Script World α) (trace : Watched → World → List Moment) (world : World) :
    List Moment :=
  match inner with
  | none => [⟨attempt (.error (.recursionLimit maxCallDepth)), world⟩]
  | some watched =>
      ⟨attempt (.ok ()), world⟩ :: trace watched (world.enter activity) ++
        (body watched.calls (world.enter activity)).leaving activity

/-- The type that is constructed, if it is known and takes so many arguments. -/
def World.constructible (world : World) (typeName : String) (arguments : List Value) :
    Attempt EntityType :=
  match world.types.get? typeName with
  | none => .error (.unknownEntityType typeName)
  | some type =>
      if arguments.length = type.arity then .ok type
      else .error (.arityMismatch typeName type.arity arguments.length)

theorem World.constructible_failsPlainly (world : World) (typeName : String)
    (arguments : List Value) : FailsPlainly (world.constructible typeName arguments) := by
  unfold constructible
  split
  · exact (failsPlainly_error _).mpr trivial
  · split
    · exact failsPlainly_ok _
    · exact (failsPlainly_error _).mpr trivial

def traceConstruct (typeName : String) (arguments : List Value) (world : World) :
    List Moment :=
  match world.constructible typeName arguments with
  | .error error => [⟨.spawn typeName arguments (.error error), world⟩]
  | .ok type =>
      let ref : EntityRef := ⟨world.entities.size, type.name⟩
      traceEnter inner (fun answer => .spawn typeName arguments (answer.map fun _ => ref))
        (.construction ref) (build type ref arguments)
        (fun watched world => traceSetUp watched type ref arguments (world.make type)) world

def traceInvoke (ref : EntityRef) (call : EntityCall) (method : Method) (world : World) :
    List Moment :=
  let frame := Frame.ofCall ref method.parameters call.arguments
  traceEnter inner (.call ref call) (.call ref call)
    (fun calls => runBody calls frame method.body)
    (fun watched => traceBody watched frame method.body) world

def traceDeliver (call : EntityCall) (id : EntityId) (world : World) : List Moment :=
  match world.entity? id with
  | none => []
  | some entity =>
      if entity.destroyed && !call.reachesDestroyed then []
      else
        match call.method? entity.type with
        | none => []
        | some method =>
            let ref : EntityRef := ⟨id, entity.type.name⟩
            traceInvoke inner ref call method world ++
              (invoke (inner.map Watched.calls) ref call method world).isolating ref call.phase

def traceDeliverAll (call : EntityCall) : List EntityId → World → List Moment
  | [], _ => []
  | id :: rest, world =>
      traceDeliver inner call id world ++
        (deliver (inner.map Watched.calls) call id world).andTrace fun _ =>
          traceDeliverAll call rest

def traceBroadcast (call : EntityCall) (world : World) : List Moment :=
  traceDeliverAll inner call world.registry world

end Dispatch

theorem Calls.inside_succ (levels : Nat) : inside (levels + 1) = some (ofLevels levels) := rfl

namespace Watched

def around (inner : Option Watched) : Watched where
  calls := .around (inner.map Watched.calls)
  spawned := traceConstruct inner
  emitted event payload := traceBroadcast inner (.handler event payload)

def inside : Nat → Option Watched
  | 0 => none
  | levels + 1 => some (.around (inside levels))

/-- What can be started with so many levels of call depth left. -/
def ofLevels (levels : Nat) : Watched := .around (inside levels)

theorem inside_succ (levels : Nat) : inside (levels + 1) = some (ofLevels levels) := rfl

@[simp]
theorem calls_inside (levels : Nat) :
    (inside levels).map Watched.calls = Calls.inside levels := by
  induction levels with
  | zero => rfl
  | succ levels inductionHypothesis =>
      simp only [inside, Option.map_some, around, inductionHypothesis, Calls.inside]

@[simp]
theorem calls_ofLevels (levels : Nat) : (ofLevels levels).calls = .ofLevels levels :=
  congrArg Calls.around (calls_inside levels)

end Watched

namespace World

/-- What code that runs at the depth of the world can start. -/
def watched (world : World) : Watched := .ofLevels (maxCallDepth - world.depth)

@[simp]
theorem calls_watched (world : World) : world.watched.calls = world.calls :=
  Watched.calls_ofLevels _

def traceMain (world : World) : List Moment :=
  match world.main with
  | none => []
  | some entry => traceBody world.watched (.of none) entry.body world

def tracePhase (call : EntityCall) (world : World) : List Moment :=
  traceBroadcast (Watched.inside (maxCallDepth - world.depth)) call world

def traceTicks (delta : Float) (world : World) : List Moment :=
  tracePhase (.tick delta) (world.note (.began .tick)).removeDestroyed

def traceRenders (world : World) : List Moment := tracePhase .render (world.note (.began .render))

end World

namespace Session

def traceStep (elapsed : Float) (session : Session) : List Moment :=
  let delta := session.world.settings.clampDelta elapsed
  let pumped : Session := { session with world := session.world.pumpInput }
  pumped.world.traceTicks delta ++
    (onWorld (World.tickPhase delta) pumped).andTrace fun _ ticked => ticked.world.traceRenders

def traceFrame (now : Nat) (session : Session) : List Moment :=
  let started : Session := { session with lastStart := some now }
  match session.lastStart with
  | none => started.traceStep 0
  | some last => started.traceStep (Settings.secondsOfNanos (now - last))

end Session

/-- What happens while an operation runs, in order. -/
def Operation.trace (operation : Operation) (session : Session) : List Moment :=
  match operation with
  | spawn typeName arguments => session.world.watched.spawned typeName arguments session.world
  | emit event payload => session.world.watched.emitted event payload session.world
  | runMain => session.world.traceMain
  | tickPhase delta => session.world.traceTicks delta
  | renderPhase => session.world.traceRenders
  | step elapsed => session.traceStep elapsed
  | frameAt now => session.traceFrame now
  | install _ | load _ | loadAll _ | registerImage _ _ _ | destroy _ | setField _ _ _
  | pushKey _ | pumpInput | cancel => [⟨.work, session.world⟩]

/-- What happens while operations run in a row, up to one that has no end. -/
def Session.trace : List Operation → Session → List Moment
  | [], _ => []
  | operation :: rest, session =>
      operation.trace session ++
        match (operation.perform session).state? with
        | some after => trace rest after
        | none => []

end EntityScript
