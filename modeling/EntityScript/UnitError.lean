import EntityScript.Diagnostic

/-!
Why a whole unit fails: its text could not be had, or there is a problem in it.
-/

namespace EntityScript

/-- A unit whose text could not be had. -/
structure SourceFailure where
  unit : String
  reason : String
  deriving DecidableEq, Repr

def SourceFailure.message (failure : SourceFailure) : String :=
  failure.unit ++ ": failed to load source: " ++ failure.reason

inductive UnitError where
  | source (failure : SourceFailure)
  | rejected (unit : String) (line column : Nat) (problem : Problem)
  deriving DecidableEq, Repr

namespace UnitError

def ofDiagnostic (unit text : String) (diagnostic : Diagnostic) : UnitError :=
  rejected unit diagnostic.span.line (diagnostic.column text) diagnostic.problem

def unit : UnitError → String
  | source failure => failure.unit
  | rejected unit .. => unit

/-- What a problem at a stage is called: a unit is parsed, then compiled. -/
def activity (stage : Stage) : String :=
  if stage.isStructural then "parse error" else "compile error"

def message : UnitError → String
  | source failure => failure.message
  | rejected unit line column problem =>
      unit ++ ":" ++ toString line ++ ":" ++ toString column ++ ": "
        ++ activity problem.stage ++ ": " ++ problem.message

end UnitError

end EntityScript
