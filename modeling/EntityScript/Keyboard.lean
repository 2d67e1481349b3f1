import EntityScript.Vector

/-!
Held keys.  Key events wait in a queue until the keyboard is polled; scripts see only
what polling has applied.
-/

namespace EntityScript

inductive KeyEvent where
  | down (key : String)
  | up (key : String)
  deriving DecidableEq, Repr

structure Keyboard where
  /-- The keys held down, each once. -/
  held : List String
  /-- Events since the last poll, oldest first. -/
  waiting : List KeyEvent
  /-- Whether there is a source of events at all. -/
  connected : Bool
  deriving DecidableEq, Repr

namespace Keyboard

def idle (connected : Bool) : Keyboard := ⟨[], [], connected⟩

/-- The held keys after an event. -/
def holdAfter (held : List String) : KeyEvent → List String
  | .down key => if key ∈ held then held else key :: held
  | .up key => held.filter (· ≠ key)

def apply (keyboard : Keyboard) (event : KeyEvent) : Keyboard :=
  { keyboard with held := holdAfter keyboard.held event }

def push (keyboard : Keyboard) (event : KeyEvent) : Keyboard :=
  { keyboard with waiting := keyboard.waiting ++ [event] }

/-- Apply the waiting events in order. -/
def poll (keyboard : Keyboard) : Keyboard :=
  if keyboard.connected then
    { keyboard with held := keyboard.waiting.foldl holdAfter keyboard.held, waiting := [] }
  else keyboard

def isDown (keyboard : Keyboard) (key : String) : Bool := key ∈ keyboard.held

/-- One when the key of the positive direction is held, minus one for the negative one. -/
def axis (keyboard : Keyboard) (negative positive : String) : Float :=
  let strength (key : String) : Float := if keyboard.isDown key then 1 else 0
  strength positive - strength negative

/-- The direction that four keys stand for. -/
def direction (keyboard : Keyboard) (left right up down : String) : Vector :=
  Vector.normalized ⟨keyboard.axis left right, keyboard.axis up down⟩

end Keyboard

end EntityScript
