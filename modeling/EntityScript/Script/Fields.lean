import EntityScript.Script
import EntityScript.Value.Conversion
import EntityScript.World

/-!
Reading and writing fields.  Vectors and colors are values: writing a component gives
another vector or color.  Entities are shared: writing a field changes the world.
-/

namespace EntityScript

open Script

def Vector.component (vector : Vector) (field : String) : Attempt Value :=
  match field with
  | "x" => .ok (.number vector.x)
  | "y" => .ok (.number vector.y)
  | _ => .error (.unknownField Kind.vector.name field)

def Color.component (color : Color) (field : String) : Attempt Value :=
  match field with
  | "r" => .ok (.number (channel color.red))
  | "g" => .ok (.number (channel color.green))
  | "b" => .ok (.number (channel color.blue))
  | "a" => .ok (.number color.alpha)
  | _ => .error (.unknownField Kind.color.name field)

def Image.component (image : Image) (field : String) : Attempt Value :=
  match field with
  | "width" => .ok (.number image.width)
  | "height" => .ok (.number image.height)
  | "name" => .ok (.text image.name)
  | _ => .error (.unknownField Kind.image.name field)

def Vector.withComponent (vector : Vector) (field : String) (value : Value) :
    Attempt Vector :=
  match field with
  | "x" => do pure { vector with x := ← value.asNumber }
  | "y" => do pure { vector with y := ← value.asNumber }
  | _ => .error (.unknownField Kind.vector.name field)

/-- The color with one component replaced, brought into range. -/
def Color.withComponent (color : Color) (field : String) (value : Value) :
    Attempt Color := do
  let number ← value.asNumber
  let red := Color.channel color.red
  let green := Color.channel color.green
  let blue := Color.channel color.blue
  match field with
  | "r" => pure (.ofChannels number green blue color.alpha)
  | "g" => pure (.ofChannels red number blue color.alpha)
  | "b" => pure (.ofChannels red green number color.alpha)
  | "a" => pure (color.withAlpha number)
  | _ => .error (.unknownField Kind.color.name field)

namespace World

def field (world : World) (ref : EntityRef) (name : String) : Attempt Value :=
  match world.field? ref.id name with
  | some value => .ok value
  | none => .error (.unknownField ref.typeName name)

def readField (world : World) (target : Value) (name : String) : Attempt Value :=
  match target with
  | .entity ref => world.field ref name
  | .vector vector => vector.component name
  | .color color => color.component name
  | .image image => image.component name
  | .text content =>
      if name = "length" then .ok (.number (Number.ofNat content.length))
      else .error (.typeMismatch (.readField name .text))
  | other => .error (.typeMismatch (.readField name other.kind))

def readPath (world : World) (target : Value) : List String → Attempt Value
  | [] => .ok target
  | name :: rest => do world.readPath (← world.readField target name) rest

end World

/-- Write a field of a value, and return the value with that field. -/
def writeField (target : Value) (name : String) (value : Value) : Script World Value :=
  match target with
  | .entity ref => do
      modify fun world => world.setField ref.id name value
      pure target
  | .vector vector => .vector <$> ofAttempt (vector.withComponent name value)
  | .color color => .color <$> ofAttempt (color.withComponent name value)
  | other => raise (.typeMismatch (.writeField name other.kind))

/-- Write the field at the end of a path, and return the value with that path. -/
def writePath (target : Value) (path : List String) (value : Value) : Script World Value :=
  match path with
  | [] => pure value
  | [name] => writeField target name value
  | name :: rest => do
      let inner ← ofAttempt ((← get).readField target name)
      let updated ← writePath inner rest value
      writeField target name updated

end EntityScript
