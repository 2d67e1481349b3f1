import EntityScript.Canvas
import EntityScript.Journal
import EntityScript.Keyboard
import EntityScript.Program
import EntityScript.Settings

/-!
A world: the entities that were made, those that are registered, the types they can be
made of, and what scripts draw on and read keys from.
-/

namespace EntityScript

/-- An entity.  It keeps the type it was made with, whatever is installed later. -/
structure Entity where
  type : EntityType
  fields : Bindings Value
  /-- Whether it is marked for removal. -/
  destroyed : Bool
  deriving Repr

/-- What runs once at the start, and the unit it is from. -/
structure MainEntry where
  unit : String
  body : List Stmt
  deriving Repr

structure World where
  settings : Settings
  types : Bindings EntityType
  main : Option MainEntry
  /-- Every entity ever made, by identity, also those that were never registered. -/
  entities : Array Entity
  /-- The registered entities, in the order in which they tick and render. -/
  registry : List EntityId
  canvas : Canvas
  keyboard : Keyboard
  images : Bindings Image
  /-- The number of images ever registered. -/
  imageCount : Nat
  /-- The number of active constructions and entity calls. -/
  depth : Nat
  journal : Journal

namespace World

def initial (settings : Settings) (hasKeys : Bool) : World where
  settings
  types := .empty
  main := none
  entities := #[]
  registry := []
  canvas := .ofSize (Number.ofNat settings.width.toNat) (Number.ofNat settings.height.toNat)
  keyboard := .idle hasKeys
  images := .empty
  imageCount := 0
  depth := 0
  journal := #[]

def note (world : World) (event : Event) : World :=
  { world with journal := world.journal.push event }

def log (world : World) (entry : LogEntry) : World := world.note (.logged entry)

def entity? (world : World) (id : EntityId) : Option Entity := world.entities[id]?

def type? (world : World) (id : EntityId) : Option EntityType :=
  (world.entity? id).map (·.type)

def ref? (world : World) (id : EntityId) : Option EntityRef :=
  (world.entity? id).map fun entity => ⟨id, entity.type.name⟩

def isDestroyed (world : World) (id : EntityId) : Bool :=
  (world.entity? id).any (·.destroyed)

def field? (world : World) (id : EntityId) (name : String) : Option Value :=
  (world.entity? id).bind (·.fields.get? name)

/-- Give a field of an entity a value; a field it does not have yet is created. -/
def setField (world : World) (id : EntityId) (name : String) (value : Value) : World :=
  { world with entities := world.entities.modify id fun entity =>
      { entity with fields := entity.fields.insert name value } }

/-- Mark an entity for removal; only the first time does anything. -/
def destroy (world : World) (ref : EntityRef) : World :=
  if (world.entity? ref.id).all (·.destroyed) then world
  else
    let marked := { world with entities := world.entities.modify ref.id fun entity =>
      { entity with destroyed := true } }
    marked.log (.destroyed ref)

/-- Make an entity without fields; it is not registered yet. -/
def make (world : World) (type : EntityType) : World :=
  { world with entities := world.entities.push ⟨type, .empty, false⟩ }

def register (world : World) (ref : EntityRef) : World :=
  { world with registry := world.registry ++ [ref.id] }.log (.spawned ref)

/-- Take the entities that are marked for removal out of the registry. -/
def removeDestroyed (world : World) : World :=
  let kept := world.registry.filter fun id => !world.isDestroyed id
  let removed := world.registry.length - kept.length
  let world := { world with registry := kept }
  if removed = 0 then world else world.log (.removed removed)

def enter (world : World) (activity : Activity) : World :=
  { world with depth := world.depth + 1 }.note (.entered activity)

def leave (world : World) (activity : Activity) (succeeded : Bool) : World :=
  { world with depth := world.depth - 1 }.note (.left activity succeeded)

def registerImage (world : World) (name : String) (width height : Float) : World :=
  { world with
    images := world.images.insert name ⟨world.imageCount, name, width, height⟩
    imageCount := world.imageCount + 1 }

def image (world : World) (name : String) : Attempt Image :=
  match world.images.get? name with
  | some image => .ok image
  | none => .error (.unknownImage name)

/-- Install one type; a type of the same name is replaced in its place. -/
def installType (world : World) (unit : String) (type : EntityType) : World :=
  let noted :=
    if world.types.contains type.name then world.log (.typeRedefined unit type.name) else world
  { noted with types := noted.types.insert type.name type }

def installMain (world : World) (unit : String) (body : List Stmt) : World :=
  let noted := match world.main with
    | some previous => world.log (.mainReplaced unit previous.unit)
    | none => world
  { noted with main := some ⟨unit, body⟩ }

def install (world : World) (program : Program) : World :=
  let world := program.types.foldl (·.installType program.name) world
  match program.main with
  | some body => world.installMain program.name body
  | none => world

def pushKey (world : World) (event : KeyEvent) : World :=
  { world with keyboard := world.keyboard.push event }

def pumpInput (world : World) : World :=
  { world with keyboard := world.keyboard.poll }

end World

end EntityScript
