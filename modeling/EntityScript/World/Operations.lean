import EntityScript.Script.Dispatch

/-!
What a host does with a world: run `main`, spawn, emit, destroy, and go through the
phases of a frame.
-/

namespace EntityScript.World

open Script

/-- What can be started one level deeper than the world is. -/
def inner (world : World) : Option Calls := Calls.inside (maxCallDepth - world.depth)

/-- What code that runs at the depth of the world can start. -/
def calls (world : World) : Calls := .around world.inner

/-- Run `main`, if there is one. -/
def runMain : Script World Unit := do
  let world ← get
  match world.main with
  | none => pure ()
  | some entry => runBody world.calls (.of none) entry.body

def spawn (typeName : String) (arguments : List Value) : Script World EntityRef := do
  (← get).calls.spawn typeName arguments

/-- Broadcast an event, and count the handlers that were called. -/
def emit (event : String) (payload : Value) : Script World Nat := do
  (← get).calls.emit event payload

/-- Make a call into the registered entities as a phase of a frame. -/
def runPhase (call : EntityCall) : Script World Unit := do
  let _ ← andThen (do broadcast (← get).inner call) fun _ world => world.note (.ended call.phase)
  pure ()

/-- Take destroyed entities out, then tick those that are left. -/
def tickPhase (delta : Float) : Script World Unit := do
  modify fun world => (world.note (.began .tick)).removeDestroyed
  runPhase (.tick delta)

/-- Render the entities that are not destroyed when their turn comes. -/
def renderPhase : Script World Unit := do
  modify (·.note (.began .render))
  runPhase .render

end EntityScript.World
