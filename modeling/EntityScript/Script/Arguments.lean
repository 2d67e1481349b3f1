import EntityScript.Value.Conversion

/-!
Taking arguments of a call by position and kind.
-/

namespace EntityScript

/-- The argument at a position of the arguments given to a function. -/
def argument (function : String) (arguments : List Value) (position : Nat) : Attempt Value :=
  match arguments[position]? with
  | some value => .ok value
  | none => .error (.arityMismatch function (position + 1) arguments.length)

def numberArgument (function : String) (arguments : List Value) (position : Nat) :
    Attempt Float := do
  (← argument function arguments position).asNumber

def vectorArgument (function : String) (arguments : List Value) (position : Nat) :
    Attempt Vector := do
  (← argument function arguments position).asVector

def colorArgument (function : String) (arguments : List Value) (position : Nat) :
    Attempt Color := do
  (← argument function arguments position).asColor

def textArgument (function : String) (arguments : List Value) (position : Nat) :
    Attempt String := do
  (← argument function arguments position).asText

def requireCount (function : String) (arguments : List Value) (count : Nat) : Attempt Unit :=
  if arguments.length = count then .ok ()
  else .error (.arityMismatch function count arguments.length)

end EntityScript
