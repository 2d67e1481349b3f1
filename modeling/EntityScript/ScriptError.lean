import EntityScript.Expr
import EntityScript.Value

/-!
What can go wrong while scripts run.
-/

namespace EntityScript

/-- The most spawns and entity calls that may be active at once. -/
def maxCallDepth : Nat := 32

/-- A kind of call into an entity. -/
inductive Phase where
  | tick
  | render
  | handler
  deriving DecidableEq, Repr

def Phase.name : Phase → String
  | .tick => "tick"
  | .render => "render"
  | .handler => "handler"

/-- A value of the wrong kind. -/
inductive Mismatch where
  | expected (wanted found : Kind)
  | operands (op : BinaryOp) (left right : Kind)
  | readField (field : String) (found : Kind)
  | writeField (field : String) (found : Kind)
  | assignThis
  deriving DecidableEq, Repr

def Mismatch.message : Mismatch → String
  | .expected wanted found => "expected " ++ wanted.name ++ ", got " ++ found.name
  | .operands op left right =>
      "cannot apply " ++ op.name ++ " to " ++ left.name ++ " and " ++ right.name
  | .readField field found => "cannot read field '" ++ field ++ "' of " ++ found.name
  | .writeField field found => "cannot set field '" ++ field ++ "' on " ++ found.name
  | .assignThis => "cannot assign to 'this'"

inductive ScriptError where
  | undefinedVariable (name : String)
  | unknownEntityType (name : String)
  | unknownField (owner field : String)
  | typeMismatch (mismatch : Mismatch)
  | arityMismatch (name : String) (expected found : Nat)
  | unknownMethod (target method : String)
  | invalidColor (text : String)
  | unknownImage (name : String)
  | thisOutsideEntity
  | unsetArithmetic
  | recursionLimit (limit : Nat)
  /-- A failure with the entity call it happened in. -/
  | inEntity (entity : EntityRef) (phase : Phase) (source : ScriptError)
  deriving DecidableEq, Repr

namespace ScriptError

def message : ScriptError → String
  | undefinedVariable name => "Undefined variable '" ++ name ++ "'"
  | unknownEntityType name => "Unknown entity type '" ++ name ++ "'"
  | unknownField owner field => "Entity '" ++ owner ++ "' has no field '" ++ field ++ "'"
  | typeMismatch mismatch => "Type mismatch: " ++ mismatch.message
  | arityMismatch name expected found =>
      "'" ++ name ++ "' expects " ++ toString expected ++ " argument(s), got "
        ++ toString found
  | unknownMethod target method => "No method '" ++ method ++ "' on " ++ target
  | invalidColor text => "Invalid color literal '" ++ text ++ "'"
  | unknownImage name => "Unknown image '" ++ name ++ "'"
  | thisOutsideEntity => "'this' used outside of an entity"
  | unsetArithmetic => "Unset value used in arithmetic"
  | recursionLimit limit => "Call depth limit of " ++ toString limit ++ " exceeded"
  | inEntity entity phase source =>
      phase.name ++ " of " ++ entity.typeName ++ "#" ++ toString entity.id ++ " failed: "
        ++ source.message

/-- The failure with the entity call it happened in; the innermost call is kept. -/
def within (error : ScriptError) (entity : EntityRef) (phase : Phase) : ScriptError :=
  match error with
  | inEntity .. => error
  | _ => inEntity entity phase error

end ScriptError

/-- A computation that either has a result or fails. -/
abbrev Attempt (α : Type) := Except ScriptError α

end EntityScript
