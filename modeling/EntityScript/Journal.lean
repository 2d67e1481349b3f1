import EntityScript.ScriptError
import EntityScript.UnitError

/-!
The journal of a world: what it logs, which constructions and entity calls are entered and
left, and which phases of frames begin and end, in order.
-/

namespace EntityScript

/-- How much a log entry matters. -/
inductive Level where
  | debug
  | info
  | warn
  | error
  deriving DecidableEq, Repr

def Level.name : Level → String
  | .debug => "debug"
  | .info => "info"
  | .warn => "warn"
  | .error => "error"

inductive LogEntry where
  /-- A script printed a text. -/
  | print (text : String)
  | unitLoaded (unit : String) (types : Nat) (hasMain : Bool)
  | unitFailed (failure : UnitError)
  | typeRedefined (unit type : String)
  | mainReplaced (unit previous : String)
  | spawned (entity : EntityRef)
  | destroyed (entity : EntityRef)
  | removed (count : Nat)
  | callFailed (entity : EntityRef) (phase : Phase) (error : ScriptError)
  | frame (number : Nat) (delta : Float) (entities : Nat)
  | cancelled (frames : Nat)
  deriving DecidableEq, Repr

namespace LogEntry

def level : LogEntry → Level
  | print _ | unitLoaded .. | mainReplaced .. | cancelled _ => .info
  | unitFailed _ => .error
  | typeRedefined .. | callFailed .. => .warn
  | spawned _ | destroyed _ | removed _ | frame .. => .debug

def message : LogEntry → String
  | print text => text
  | unitLoaded .. => "unit loaded"
  | unitFailed _ => "unit failed to load"
  | typeRedefined .. => "entity type redefined"
  | mainReplaced .. => "main entry point replaced"
  | spawned _ => "spawned"
  | destroyed _ => "destroyed"
  | removed _ => "removed destroyed entities"
  | callFailed .. => "entity call failed"
  | frame .. => "frame"
  | cancelled _ => "frame loop cancelled"

end LogEntry

/-- A call into an entity, with what it is called with. -/
inductive EntityCall where
  | tick (delta : Float)
  | render
  | handler (event : String) (payload : Value)
  deriving DecidableEq, Repr

namespace EntityCall

def phase : EntityCall → Phase
  | tick _ => .tick
  | render => .render
  | handler .. => .handler

def arguments : EntityCall → List Value
  | tick delta => [.number delta]
  | render => []
  | handler _ payload => [payload]

/-- Whether the call is still made into an entity that was marked destroyed. -/
def reachesDestroyed : EntityCall → Bool
  | render => false
  | tick _ | handler .. => true

end EntityCall

/-- What takes up a level of call depth. -/
inductive Activity where
  /-- The construction of an entity, under the identity it gets. -/
  | construction (entity : EntityRef)
  | call (entity : EntityRef) (call : EntityCall)
  deriving DecidableEq, Repr

inductive Event where
  | logged (entry : LogEntry)
  | entered (activity : Activity)
  /-- The activity ended, with a result or by failing. -/
  | left (activity : Activity) (succeeded : Bool)
  /-- The activity was not entered, because too many were active. -/
  | refused (activity : Activity)
  /-- A declared property got its first value. -/
  | declared (entity : EntityRef) (property : String)
  /-- A phase of a frame began. -/
  | began (phase : Phase)
  /-- A phase of a frame is over, with every turn taken or by failing. -/
  | ended (phase : Phase)
  deriving DecidableEq, Repr

/-- The log entry of an event, if it is one. -/
def Event.logged? : Event → Option LogEntry
  | .logged entry => some entry
  | _ => none

/-- Events in the order in which they happened. -/
abbrev Journal := Array Event

def Journal.log (journal : Journal) : List LogEntry := journal.toList.filterMap Event.logged?

end EntityScript
