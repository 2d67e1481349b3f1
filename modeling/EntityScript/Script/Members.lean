import EntityScript.Script.Arguments
import EntityScript.Script
import EntityScript.World

/-!
What library members and methods do.  Each takes and converts its arguments one after the other,
and then looks at the world, or changes it.
-/

namespace EntityScript

open Script

def changeCanvas (change : Canvas → Canvas) : Script World Unit :=
  modify fun world => { world with canvas := change world.canvas }

/-- Call a member that does something with a color. -/
def callColored (change : Canvas → Color → Canvas) (name : String) (arguments : List Value) :
    Script World Value := do
  let color ← ofAttempt (colorArgument name arguments 0)
  changeCanvas (change · color)
  pure .unset

/-- Call a member that computes with one number. -/
def callUnary (f : Float → Float) (name : String) (arguments : List Value) :
    Script World Value := do
  let x ← ofAttempt (numberArgument name arguments 0)
  pure (.number (f x))

/-- Call a member that computes with two numbers. -/
def callBinary (f : Float → Float → Float) (name : String) (arguments : List Value) :
    Script World Value := do
  let x ← ofAttempt (numberArgument name arguments 0)
  let y ← ofAttempt (numberArgument name arguments 1)
  pure (.number (f x y))

def callBuiltin (builtin : Builtin) (arguments : List Value) : Script World Value :=
  let name := builtin.name
  match builtin with
  | .setResolution => do
      let width ← ofAttempt (numberArgument name arguments 0)
      let height ← ofAttempt (numberArgument name arguments 1)
      changeCanvas (·.setResolution width height)
      pure .unset
  | .width => do
      pure (.number (← gets (·.canvas.width)))
  | .height => do
      pure (.number (← gets (·.canvas.height)))
  | .setBackground => callColored .setBackground name arguments
  | .fill => callColored .setFill name arguments
  | .stroke => callColored .setStroke name arguments
  | .noFill => do
      changeCanvas (·.setFill .transparent)
      pure .unset
  | .noStroke => do
      changeCanvas (·.setStroke .transparent)
      pure .unset
  | .drawCircle => do
      let centre ← ofAttempt (vectorArgument name arguments 0)
      let radius ← ofAttempt (numberArgument name arguments 1)
      changeCanvas (·.drawCircle centre radius)
      pure .unset
  | .drawRect => do
      let corner ← ofAttempt (vectorArgument name arguments 0)
      let width ← ofAttempt (numberArgument name arguments 1)
      let height ← ofAttempt (numberArgument name arguments 2)
      changeCanvas (·.drawRectangle corner width height)
      pure .unset
  | .drawImage => do
      let given ← ofAttempt (argument name arguments 0)
      let image ← ofAttempt given.asImage
      let centre ← ofAttempt (vectorArgument name arguments 1)
      changeCanvas (·.drawImage image centre)
      pure .unset
  | .image => do
      let wanted ← ofAttempt (textArgument name arguments 0)
      pure (.image (← consult (·.image wanted)))
  | .getVector => do
      let left ← ofAttempt (textArgument name arguments 0)
      let right ← ofAttempt (textArgument name arguments 1)
      let up ← ofAttempt (textArgument name arguments 2)
      let down ← ofAttempt (textArgument name arguments 3)
      pure (.vector (← gets (·.keyboard.direction left right up down)))
  | .isDown => do
      let key ← ofAttempt (textArgument name arguments 0)
      pure (.bool (← gets (·.keyboard.isDown key)))
  | .colorNew => do
      -- The alpha comes last and is converted first.
      let alpha ← match arguments[3]? with
        | some value => ofAttempt value.asNumber
        | none => pure 1
      let red ← ofAttempt (numberArgument name arguments 0)
      let green ← ofAttempt (numberArgument name arguments 1)
      let blue ← ofAttempt (numberArgument name arguments 2)
      pure (.color (.ofChannels red green blue alpha))
  | .colorFromHex => do
      let text ← ofAttempt (textArgument name arguments 0)
      match Color.ofHex? text with
      | some color => pure (.color color)
      | none => raise (.invalidColor text)
  | .vectorNew => do
      let x ← ofAttempt (numberArgument name arguments 0)
      let y ← ofAttempt (numberArgument name arguments 1)
      pure (.vector ⟨x, y⟩)
  | .vectorZero => pure (.vector .zero)
  | .sin => callUnary Float.sin name arguments
  | .cos => callUnary Float.cos name arguments
  | .tan => callUnary Float.tan name arguments
  | .sqrt => callUnary Float.sqrt name arguments
  | .abs => callUnary Float.abs name arguments
  | .floor => callUnary Number.floor name arguments
  | .ceil => callUnary Number.ceil name arguments
  | .round => callUnary Number.round name arguments
  | .min => callBinary Number.least name arguments
  | .max => callBinary Number.greatest name arguments
  | .atan2 => callBinary Float.atan2 name arguments
  | .clamp => do
      let x ← ofAttempt (numberArgument name arguments 0)
      let low ← ofAttempt (numberArgument name arguments 1)
      let high ← ofAttempt (numberArgument name arguments 2)
      pure (.number (Number.clamp x low high))
  | .pi => pure (.number Number.pi)

/-- Call a method of a value. -/
def callMethod (target : Value) (method : String) (arguments : List Value) :
    Script World Value :=
  match target, method with
  | .vector vector, "add" => do
      ofAttempt (requireCount method arguments 1)
      let other ← ofAttempt (vectorArgument method arguments 0)
      pure (.vector (vector + other))
  | .vector vector, "sub" => do
      ofAttempt (requireCount method arguments 1)
      let other ← ofAttempt (vectorArgument method arguments 0)
      pure (.vector (vector - other))
  | .vector vector, "multiply" => do
      ofAttempt (requireCount method arguments 1)
      let factor ← ofAttempt (numberArgument method arguments 0)
      pure (.vector (vector.scale factor))
  | .vector vector, "length" => do
      ofAttempt (requireCount method arguments 0)
      pure (.number vector.length)
  | .vector vector, "normalized" => do
      ofAttempt (requireCount method arguments 0)
      pure (.vector vector.normalized)
  | .vector vector, "dot" => do
      ofAttempt (requireCount method arguments 1)
      let other ← ofAttempt (vectorArgument method arguments 0)
      pure (.number (vector.dot other))
  | .vector vector, "distance" => do
      ofAttempt (requireCount method arguments 1)
      let other ← ofAttempt (vectorArgument method arguments 0)
      pure (.number (vector.distance other))
  | .color color, "toString" => do
      ofAttempt (requireCount method arguments 0)
      pure (.text color.text)
  | .color color, "withAlpha" => do
      ofAttempt (requireCount method arguments 1)
      let alpha ← ofAttempt (numberArgument method arguments 0)
      pure (.color (color.withAlpha alpha))
  | .entity ref, "destroy" => do
      ofAttempt (requireCount method arguments 0)
      modify (·.destroy ref)
      pure .unset
  | .entity ref, "isDestroyed" => do
      ofAttempt (requireCount method arguments 0)
      pure (.bool (← gets (·.isDestroyed ref.id)))
  | _, _ => raise (.unknownMethod target.kind.name method)

end EntityScript
