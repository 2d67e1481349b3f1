import EntityScript.Token

/-!
The blocks of a unit.  Statements, conditions and initializers are still runs of
lexemes here; which tokens belong to which block is settled.
-/

namespace EntityScript

open Source (Span)

/-- A run of lexemes that is one statement or one expression. -/
structure Payload where
  lexemes : List Lexeme
  span : Span
  deriving Repr, DecidableEq

/-- How a property was declared. -/
inductive PropertyKind where
  | prop
  | state
  deriving Repr, DecidableEq

structure Property where
  name : String
  kind : PropertyKind
  initializer : Option Payload
  span : Span
  deriving Repr, DecidableEq

mutual

/-- What goes from a word to an `end`, or a statement.  Any block may hold any other one: that
`main` and entities are not inside of bodies, and all else is not outside of them, is for the
readers to see to. -/
inductive Block where
  | main (body : List Block) (span : Span)
  | entity (definition : EntityBlock)
  /-- Conditions with the bodies they guard, in order, and what runs when none holds. -/
  | choice (branches : List (Payload × List Block)) (otherwise : Option (List Block))
      (span : Span)
  /-- A counter that goes from a start up to a bound. -/
  | loop (counter : String) (start bound : Payload) (body : List Block) (span : Span)
  | statement (payload : Payload)
  deriving Repr

/-- A body with the names of its parameters. -/
structure Procedure where
  parameters : List String
  body : List Block
  span : Span
  deriving Repr

structure Handler where
  event : String
  parameters : List String
  body : List Block
  span : Span
  deriving Repr

/-- The blocks of an entity.  Properties and handlers are in source order. -/
structure EntityBlock where
  name : String
  properties : List Property
  init : Option Procedure
  /-- Its one parameter is bound to the seconds since the last tick. -/
  tick : Option Procedure
  /-- It has no parameters. -/
  render : Option Procedure
  handlers : List Handler
  span : Span
  deriving Repr

end

/-- A block at the top level of a unit. -/
abbrev Declaration := Block

end EntityScript
