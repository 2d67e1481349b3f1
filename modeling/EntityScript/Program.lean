import EntityScript.Bindings
import EntityScript.Expr

/-!
Programs: what a unit of script text contributes to a world.
-/

namespace EntityScript

open Source (Span)

/-- A body and the names its arguments are bound to. -/
structure Method where
  parameters : List String
  body : List Stmt
  deriving Repr

instance : Inhabited Method := ⟨⟨[], []⟩⟩

/-- A declared property; without a value it starts unset. -/
structure Initializer where
  name : String
  value : Option Expr
  deriving Repr

/-- What entities of a type have in common. -/
structure EntityType where
  name : String
  /-- In declaration order, which is the order in which they run. -/
  initializers : List Initializer
  /-- Runs after the initializers, which see its parameters as well. -/
  constructor : Method
  tick : Option Method
  render : Option Method
  /-- By event. -/
  handlers : Bindings Method
  span : Span
  deriving Repr

def EntityType.arity (type : EntityType) : Nat := type.constructor.parameters.length

/-- Everything one unit contributes. -/
structure Program where
  name : String
  main : Option (List Stmt)
  types : List EntityType
  deriving Repr

end EntityScript
