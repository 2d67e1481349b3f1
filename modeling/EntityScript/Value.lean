import EntityScript.Color
import EntityScript.Vector

/-!
The values scripts compute with.
-/

namespace EntityScript

/-- Entities are told apart by the order in which they were made. -/
abbrev EntityId := Nat

/-- A reference to an entity, with the name of its type. -/
structure EntityRef where
  id : EntityId
  typeName : String
  deriving DecidableEq, Repr

/-- An image the host registered.  Registering a name again makes another image. -/
structure Image where
  serial : Nat
  name : String
  width : Float
  height : Float
  deriving DecidableEq, Repr

inductive Value where
  /-- What a property without an initializer holds. -/
  | unset
  | bool (value : Bool)
  | number (value : Float)
  | text (content : String)
  | vector (value : Vector)
  | color (value : Color)
  | image (value : Image)
  | entity (ref : EntityRef)
  deriving DecidableEq, Repr

instance : Inhabited Value := ⟨.unset⟩

/-- The kinds of values. -/
inductive Kind where
  | unset
  | bool
  | number
  | text
  | vector
  | color
  | image
  | entity
  deriving DecidableEq, Repr

def Kind.name : Kind → String
  | .unset => "unset"
  | .bool => "bool"
  | .number => "number"
  | .text => "string"
  | .vector => "Vector2"
  | .color => "Color"
  | .image => "image"
  | .entity => "entity"

namespace Value

def kind : Value → Kind
  | unset => .unset
  | bool _ => .bool
  | number _ => .number
  | text _ => .text
  | vector _ => .vector
  | color _ => .color
  | image _ => .image
  | entity _ => .entity

/-- False, zero, what is not a number, the empty text and unset do not hold; all else
does. -/
def holds : Value → Bool
  | unset => false
  | bool value => value
  | number value => !(value == 0) && !value.isNaN
  | text content => !content.isEmpty
  | vector _ | color _ | image _ | entity _ => true

/-- Equality as scripts see it.  Numbers are equal as numbers, entities and images when
they are the same one, and values of different kinds never. -/
def equals : Value → Value → Bool
  | unset, unset => true
  | bool a, bool b => a = b
  | number a, number b => a == b
  | text a, text b => a = b
  | vector a, vector b => a.equals b
  | color a, color b => a.equals b
  | image a, image b => a.serial = b.serial
  | entity a, entity b => a.id = b.id
  | _, _ => false

def display : Value → String
  | unset => "unset"
  | bool true => "true"
  | bool false => "false"
  | number value => Number.text value
  | text content => content
  | vector value => value.text
  | color value => value.text
  | image value => "image(" ++ value.name ++ ")"
  | entity ref => ref.typeName ++ "#" ++ toString ref.id

end Value

end EntityScript
