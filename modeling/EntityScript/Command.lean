import EntityScript.Canvas.Dump
import EntityScript.Command.Arguments
import EntityScript.Command.Files
import EntityScript.Session
import EntityScript.Settings.Reader
import EntityScript.World.Loading

/-!
The two commands: `check` reports which units can be loaded, `run` loads units, runs
`main` and then frames.  They work on a tree of files; what they print, the exit code
and the files afterwards are their result.
-/

namespace EntityScript

open Script

/-- What a command leaves behind. -/
structure CommandResult where
  code : Nat
  output : String
  files : FileTree

namespace Command

def version : String := "ryx 0.1.0\n"

def usage : String :=
  "Usage: ryx [--config FILE] check PATH...\n" ++
  "       ryx [--config FILE] run PATH... [--frames N] [--dt SECONDS] [--hold KEY]...\n" ++
  "           [--dump-draws FILE] [--width N] [--height N] [--fps N] [--strict]\n"

/-- The units that a path stands for: a file, or the script files in a directory. -/
def unitPaths (files : FileTree) (extension path : String) : List String :=
  match files.at? path with
  | .ok (.directory entries) => FileTree.filesIn path extension entries
  | _ => [path]

def readUnit (files : FileTree) (path : String) : Except SourceFailure SourceUnit :=
  match files.read path with
  | .ok text => .ok ⟨path, text⟩
  | .error error => .error ⟨path, error.message⟩

/-- The units that paths stand for, in order. -/
def units (files : FileTree) (extension : String) (paths : List String) :
    List (Except SourceFailure SourceUnit) :=
  (paths.flatMap (unitPaths files extension)).map (readUnit files)

/-- The settings of a file; without a file there, or without one asked for, the default.
None when the file cannot be read as settings. -/
def settings? (files : FileTree) (config : Option String) : Option Settings :=
  match config with
  | none => some .default
  | some path =>
      match files.at? path with
      | .error _ => some .default
      | .ok _ =>
          match files.read path with
          | .ok text => Settings.ofText? text
          | .error _ => none

/-- What is printed about loading: a line for each unit, then how many there are. -/
def summary (loading : LoadReport) : String :=
  let loaded := loading.loaded.map fun name => "ok    " ++ name ++ "\n"
  let failed := loading.failed.map fun error => "FAIL  " ++ error.message ++ "\n"
  String.join (loaded ++ failed)
    ++ toString loading.loaded.length ++ " loaded, " ++ toString loading.failed.length
    ++ " failed\n"

def exitCode (loading : LoadReport) : Nat := if loading.allLoaded then 0 else 1

def settingsFor (options : RunOptions) (settings : Settings) : Settings :=
  { settings with
    width := options.width.getD settings.width
    height := options.height.getD settings.height
    targetFps := options.fps.getD settings.targetFps
    isolateErrors := settings.isolateErrors && !options.strict }

/-- The report and the world after units were loaded for a run. -/
def loadForRun (files : FileTree) (options : RunOptions) (settings : Settings)
    (paths : List String) : World × LoadReport :=
  let settings := settingsFor options settings
  let world := World.initial settings true
  let world := options.held.foldl (fun world key => world.pushKey (.down key)) world
  world.loadAll (units files settings.scriptExtension paths)

/-- What a run prints: the report, if a unit failed. -/
def runOutput (loading : LoadReport) : String :=
  if loading.allLoaded then "" else summary loading

def finish (files : FileTree) (options : RunOptions) (loading : LoadReport) (world : World) :
    CommandResult :=
  match options.dump with
  | none => ⟨exitCode loading, runOutput loading, files⟩
  | some path =>
      match files.write path world.canvas.dump with
      | .ok written => ⟨exitCode loading, runOutput loading, written⟩
      | .error _ => ⟨1, runOutput loading, files⟩

def fail (files : FileTree) (loading : LoadReport) : CommandResult :=
  ⟨1, runOutput loading, files⟩

def checkUnits (files : FileTree) (settings : Settings) (paths : List String) : CommandResult :=
  let world := World.initial settings false
  let (_, loading) := world.loadAll (units files settings.scriptExtension paths)
  ⟨exitCode loading, summary loading, files⟩

/-- Run units for a number of frames of fixed length.  There is no result when a script
never ends. -/
def runFrames? (files : FileTree) (options : RunOptions) (settings : Settings)
    (paths : List String) (frames : Nat) : Option CommandResult :=
  let (world, loading) := loadForRun files options settings paths
  let delta := options.delta.getD RunOptions.defaultDelta
  let script : Script Session Unit := do
    Session.onWorld World.runMain
    Session.runFixed delta frames
  match script (.start world) with
  | .returned _ session => some (finish files options loading session.world)
  | .raised _ _ => some (fail files loading)
  | .endless => none

def refuse (files : FileTree) : Refusal → CommandResult
  | .help => ⟨0, usage, files⟩
  | .version => ⟨0, version, files⟩
  | .usage => ⟨2, "", files⟩

/-- What to do for an invocation. -/
inductive Plan where
  | done (result : CommandResult)
  /-- Run in real time. -/
  | realTime (options : RunOptions) (settings : Settings) (paths : List String)

/-- Carry out an invocation, unless it runs in real time. -/
def planFor? (files : FileTree) (invocation : Invocation) : Option Plan :=
  match settings? files invocation.config with
  | none => some (.done ⟨2, "", files⟩)
  | some settings =>
      match invocation.command with
      | .check => some (.done (checkUnits files settings invocation.paths))
      | .run options =>
          match options.frames with
          | none => some (.realTime options settings invocation.paths)
          | some frames =>
              (runFrames? files options settings invocation.paths frames).map .done

/-- Carry out what arguments spell, unless it runs in real time. -/
def plan? (files : FileTree) (arguments : List String) : Option Plan :=
  match Invocation.ofArguments arguments with
  | .error refusal => some (.done (refuse files refusal))
  | .ok invocation => planFor? files invocation

end Command

end EntityScript
