import EntityScript.Number.Arithmetic
import EntityScript.Number.Notation

/-!
Vectors in surface coordinates; `y` grows downward.
-/

namespace EntityScript

structure Vector where
  x : Float
  y : Float
  deriving DecidableEq, Repr

namespace Vector

def zero : Vector := ⟨0, 0⟩

instance : Add Vector := ⟨fun a b => ⟨a.x + b.x, a.y + b.y⟩⟩

instance : Sub Vector := ⟨fun a b => ⟨a.x - b.x, a.y - b.y⟩⟩

instance : Neg Vector := ⟨fun a => ⟨-a.x, -a.y⟩⟩

def scale (a : Vector) (factor : Float) : Vector := ⟨a.x * factor, a.y * factor⟩

def shrink (a : Vector) (divisor : Float) : Vector := ⟨a.x / divisor, a.y / divisor⟩

def length (a : Vector) : Float := Number.hypotenuse a.x a.y

/-- The vector of length one in the same direction, or zero when there is none. -/
def normalized (a : Vector) : Vector := if 0 < a.length then a.shrink a.length else zero

def dot (a b : Vector) : Float := a.x * b.x + a.y * b.y

def distance (a b : Vector) : Float := (a - b).length

/-- Equality of components as numbers. -/
def equals (a b : Vector) : Bool := a.x == b.x && a.y == b.y

def text (a : Vector) : String :=
  "Vector2(" ++ Number.text a.x ++ ", " ++ Number.text a.y ++ ")"

end Vector

end EntityScript
