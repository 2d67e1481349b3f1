import EntityScript.Program.Resolution
import EntityScript.World

/-!
Loading units into a world.  A unit is installed as a whole or not at all, and one that
fails does not keep others from being loaded.
-/

namespace EntityScript

/-- A unit of script text. -/
structure SourceUnit where
  name : String
  text : String
  deriving DecidableEq, Repr

/-- Which units were loaded and why the others were not, both in order. -/
structure LoadReport where
  loaded : List String
  failed : List UnitError
  deriving DecidableEq, Repr

namespace LoadReport

def empty : LoadReport := ⟨[], []⟩

def allLoaded (report : LoadReport) : Bool := report.failed.isEmpty

end LoadReport

namespace World

def load (world : World) (unit : SourceUnit) : Except UnitError World :=
  match Program.ofText unit.name unit.text with
  | .error diagnostic => .error (.ofDiagnostic unit.name unit.text diagnostic)
  | .ok program =>
      .ok ((world.install program).log
        (.unitLoaded unit.name program.types.length program.main.isSome))

/-- Load units in order and report on them behind those reported on before. -/
def loadFrom (world : World) (report : LoadReport) :
    List (Except SourceFailure SourceUnit) → World × LoadReport
  | [] => (world, report)
  | item :: rest =>
      let outcome : Except UnitError (String × World) := match item with
        | .error failure => .error (.source failure)
        | .ok unit => (world.load unit).map fun loaded => (unit.name, loaded)
      match outcome with
      | .ok (name, loaded) =>
          loadFrom loaded { report with loaded := report.loaded ++ [name] } rest
      | .error error =>
          loadFrom (world.log (.unitFailed error))
            { report with failed := report.failed ++ [error] } rest

def loadAll (world : World) (items : List (Except SourceFailure SourceUnit)) :
    World × LoadReport :=
  world.loadFrom .empty items

end World

end EntityScript
