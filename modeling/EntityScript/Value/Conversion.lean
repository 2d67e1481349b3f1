import EntityScript.ScriptError

/-!
Taking values as values of one kind.
-/

namespace EntityScript.Value

def mismatch {α : Type} (wanted : Kind) (value : Value) : Attempt α :=
  .error (.typeMismatch (.expected wanted value.kind))

def asNumber : Value → Attempt Float
  | number value => .ok value
  | unset => .error .unsetArithmetic
  | other => other.mismatch .number

def asVector : Value → Attempt Vector
  | vector value => .ok value
  | other => other.mismatch .vector

def asColor : Value → Attempt Color
  | color value => .ok value
  | other => other.mismatch .color

def asText : Value → Attempt String
  | text content => .ok content
  | other => other.mismatch .text

def asImage : Value → Attempt Image
  | image value => .ok value
  | other => other.mismatch .image

def asEntity : Value → Attempt EntityRef
  | entity ref => .ok ref
  | other => other.mismatch .entity

end EntityScript.Value
