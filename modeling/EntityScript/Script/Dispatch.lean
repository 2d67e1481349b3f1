import EntityScript.Script.Eval

/-!
Constructions, entity calls and broadcasts.

All three run script code, which may start further ones; each nested construction or
entity call takes up one level of call depth.  `Calls.ofLevels` ties the knot: with no
level left every attempt to go deeper is refused.
-/

namespace EntityScript

open Script

def note (event : Event) : Script World Unit := modify (·.note event)

/-- Run an activity a level deeper, if there is a level left. -/
def enter {α : Type} (inner : Option Calls) (activity : Activity)
    (body : Calls → Script World α) : Script World α :=
  match inner with
  | none => do
      note (.refused activity)
      raise (.recursionLimit maxCallDepth)
  | some calls => do
      modify (·.enter activity)
      andThen (body calls) fun succeeded world => world.leave activity succeeded

/-- Give the declared properties of a new entity their first values, in order. -/
def declareProperties (calls : Calls) (ref : EntityRef) :
    List Initializer → Script Activation Unit
  | [] => pure ()
  | initializer :: rest => do
      let value ← match initializer.value with
        | some expr => evaluate calls expr
        | none => pure .unset
      onWorld fun _ => do
        modify fun world => world.setField ref.id initializer.name value
        note (.declared ref initializer.name)
      declareProperties calls ref rest

/-- Run the initializers and then the constructor body of a new entity in one frame, so that
both see the parameters. -/
def setUp (calls : Calls) (type : EntityType) (ref : EntityRef) (arguments : List Value) :
    Script World Unit :=
  inFrame (Frame.ofCall ref type.constructor.parameters arguments) do
    declareProperties calls ref type.initializers
    execBlock calls type.constructor.body

/-- Make an entity; it is registered only once it is set up. -/
def build (type : EntityType) (ref : EntityRef) (arguments : List Value) (calls : Calls) :
    Script World EntityRef := do
  modify (·.make type)
  setUp calls type ref arguments
  modify (·.register ref)
  pure ref

/-- Construct an entity of a type that is known, from as many arguments as it takes. -/
def construct (inner : Option Calls) (typeName : String) (arguments : List Value) :
    Script World EntityRef := do
  let world ← get
  match world.types.get? typeName with
  | none => raise (.unknownEntityType typeName)
  | some type =>
      if arguments.length = type.arity then do
        let ref : EntityRef := ⟨world.entities.size, type.name⟩
        enter inner (.construction ref) (build type ref arguments)
      else raise (.arityMismatch typeName type.arity arguments.length)

def EntityCall.method? (type : EntityType) : EntityCall → Option Method
  | .tick _ => type.tick
  | .render => type.render
  | .handler event _ => type.handlers.get? event

def invoke (inner : Option Calls) (ref : EntityRef) (call : EntityCall) (method : Method) :
    Script World Unit :=
  enter inner (.call ref call) fun calls =>
    runBody calls (Frame.ofCall ref method.parameters call.arguments) method.body

/-- Keep the failure of an entity call from going further, or name the entity in it. -/
def isolate (ref : EntityRef) (phase : Phase) (script : Script World Unit) :
    Script World Unit :=
  rescue script fun error => do
    let world ← get
    if world.settings.isolateErrors then modify (·.log (.callFailed ref phase error))
    else raise (error.within ref phase)

/-- Make a call into one entity, and say whether its type answers it. -/
def deliver (inner : Option Calls) (call : EntityCall) (id : EntityId) :
    Script World Bool := do
  let world ← get
  match world.entity? id with
  | none => pure false
  | some entity =>
      if entity.destroyed && !call.reachesDestroyed then pure false
      else
        match call.method? entity.type with
        | none => pure false
        | some method => do
            let ref : EntityRef := ⟨id, entity.type.name⟩
            isolate ref call.phase (invoke inner ref call method)
            pure true

/-- Make a call into entities in order, and count those that answer it. -/
def deliverAll (inner : Option Calls) (call : EntityCall) : List EntityId → Script World Nat
  | [] => pure 0
  | id :: rest => do
      let answered ← deliver inner call id
      let count ← deliverAll inner call rest
      pure (if answered then count + 1 else count)

/-- Make a call into the entities that are registered when it starts. -/
def broadcast (inner : Option Calls) (call : EntityCall) : Script World Nat := do
  let world ← get
  deliverAll inner call world.registry

/-- What scripts can start when `inner` is what they can start one level deeper. -/
def Calls.around (inner : Option Calls) : Calls where
  spawn := construct inner
  emit event payload := broadcast inner (.handler event payload)

/-- What scripts can start with so many levels of call depth left, one level deeper. -/
def Calls.inside : Nat → Option Calls
  | 0 => none
  | levels + 1 => some (.around (inside levels))

/-- What scripts can start with so many levels of call depth left. -/
def Calls.ofLevels (levels : Nat) : Calls := .around (inside levels)

end EntityScript
