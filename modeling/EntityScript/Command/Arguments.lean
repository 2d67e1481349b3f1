import EntityScript.Number.Reading

/-!
The arguments of the command line: a command, its paths and its options.
-/

namespace EntityScript

/-- What a run is asked to do. -/
structure RunOptions where
  /-- Run so many frames of fixed length instead of in real time. -/
  frames : Option Nat
  /-- Seconds for each frame of fixed length. -/
  delta : Option Float
  /-- Keys held down from the start. -/
  held : List String
  /-- Where to write the draw commands. -/
  dump : Option String
  width : Option UInt32
  height : Option UInt32
  fps : Option UInt32
  /-- End at the first entity failure. -/
  strict : Bool
  deriving Repr, DecidableEq

def RunOptions.none : RunOptions := ⟨.none, .none, [], .none, .none, .none, .none, false⟩

/-- The seconds for each frame when nothing else is asked for. -/
def RunOptions.defaultDelta : Float := 1 / 60

inductive Command where
  /-- Report which units can be loaded. -/
  | check
  /-- Run the units. -/
  | run (options : RunOptions)
  deriving Repr, DecidableEq

structure Invocation where
  command : Command
  paths : List String
  /-- The settings file. -/
  config : Option String
  deriving Repr, DecidableEq

def Invocation.mentioned (invocation : Invocation) : List String :=
  let dump := match invocation.command with
    | .check => []
    | .run options => options.dump.toList
  invocation.paths ++ invocation.config.toList ++ dump

/-- Why the arguments are no invocation. -/
inductive Refusal where
  | help
  | version
  | usage
  deriving Repr, DecidableEq

abbrev Parse (α : Type) := Except Refusal α

namespace Argument

def isOption (argument : String) : Bool :=
  match argument.toList with
  | '-' :: _ :: _ => true
  | _ => false

/-- The name of a long option, and the value that is attached to it. -/
def long? (argument : String) : Option (String × Option String) :=
  match argument.toList with
  | '-' :: '-' :: body =>
      let name := body.takeWhile (· ≠ '=')
      let value := match body.drop name.length with
        | [] => none
        | _ :: value => some (String.ofList value)
      some (String.ofList name, value)
  | _ => none

/-- Digits behind an optional plus sign. -/
def natural? (text : String) : Option Nat :=
  let digits := match text.toList with
    | '+' :: more => more
    | more => more
  if digits ≠ [] ∧ digits.all Char.isDigit then some (Number.natOfDigits digits) else none

/-- A whole number of 64 bits. -/
def word64 (text : String) : Parse Nat :=
  match natural? text with
  | some n => if n < UInt64.size then .ok n else .error .usage
  | none => .error .usage

/-- A whole number of 32 bits; zero may have a minus sign. -/
def word32 (text : String) : Parse UInt32 :=
  match text.toList with
  | '-' :: more =>
      if more ≠ [] ∧ more.all (· = '0') then .ok 0 else .error .usage
  | _ =>
      match natural? text with
      | some n => if n < UInt32.size then .ok (UInt32.ofNat n) else .error .usage
      | none => .error .usage

def number (text : String) : Parse Float :=
  match Number.ofText? text with
  | some x => .ok x
  | none => .error .usage

/-- A path, which has at least one character. -/
def path (text : String) : Parse String :=
  if text.isEmpty then .error .usage else .ok text

def once {α : Type} (old : Option α) (new : Parse α) : Parse (Option α) := do
  let value ← new
  match old with
  | none => pure (some value)
  | some _ => .error .usage

end Argument

namespace RunOptions

def put (options : RunOptions) (name value : String) : Parse RunOptions := do
  match name with
  | "frames" =>
      pure { options with frames := ← Argument.once options.frames (Argument.word64 value) }
  | "dt" => pure { options with delta := ← Argument.once options.delta (Argument.number value) }
  | "hold" => pure { options with held := options.held ++ [value] }
  | "dump-draws" =>
      pure { options with dump := ← Argument.once options.dump (Argument.path value) }
  | "width" => pure { options with width := ← Argument.once options.width (Argument.word32 value) }
  | "height" =>
      pure { options with height := ← Argument.once options.height (Argument.word32 value) }
  | "fps" => pure { options with fps := ← Argument.once options.fps (Argument.word32 value) }
  | _ => .error .usage

def hasValue (name : String) : Bool :=
  name ∈ ["frames", "dt", "hold", "dump-draws", "width", "height", "fps"]

end RunOptions

namespace Invocation

def put (invocation : Invocation) (name value : String) : Parse Invocation := do
  if name = "config" then
    pure { invocation with config := ← Argument.once invocation.config (Argument.path value) }
  else
    match invocation.command with
    | .check => .error .usage
    | .run options => pure { invocation with command := .run (← options.put name value) }

def hasValue (invocation : Invocation) (name : String) : Bool :=
  name = "config" ||
    match invocation.command with
    | .check => false
    | .run _ => RunOptions.hasValue name

def putFlag (invocation : Invocation) (name : String) : Parse Invocation :=
  match name, invocation.command with
  | "help", _ => .error .help
  | "strict", .run options =>
      if options.strict then .error .usage
      else .ok { invocation with command := .run { options with strict := true } }
  | _, _ => .error .usage

def putPath (invocation : Invocation) (text : String) : Parse Invocation := do
  pure { invocation with paths := invocation.paths ++ [← Argument.path text] }

/-- Take the arguments behind the name of a command.  Behind a bare double dash all of
them are paths. -/
def readArguments (invocation : Invocation) : List String → Parse Invocation
  | [] => .ok invocation
  | argument :: rest =>
      if argument = "--" then rest.foldlM putPath invocation
      else
        match Argument.long? argument with
        | some (name, some value) => do
            if invocation.hasValue name then (← invocation.put name value).readArguments rest
            else .error .usage
        | some (name, none) =>
            if invocation.hasValue name then
              match rest with
              | value :: more => do
                  if Argument.isOption value then .error .usage
                  else (← invocation.put name value).readArguments more
              | [] => .error .usage
            else do (← invocation.putFlag name).readArguments rest
        | none =>
            if Argument.isOption argument then
              if (argument.toList.drop 1).head? = some 'h' then .error .help
              else .error .usage
            else do (← invocation.putPath argument).readArguments rest

/-- Read a command with its arguments; it has at least one path.  Its settings file wins
over one given before the command. -/
def readCommand (command : Command) (config : Option String) (arguments : List String) :
    Parse Invocation := do
  let invocation ← readArguments ⟨command, [], none⟩ arguments
  if invocation.paths.isEmpty then .error .usage
  else pure { invocation with config := invocation.config.or config }

def readFrom (config : Option String) : List String → Parse Invocation
  | [] => .error .usage
  | "check" :: rest => readCommand .check config rest
  | "run" :: rest => readCommand (.run .none) config rest
  | ["help"] | ["help", "check"] | ["help", "run"] | ["help", "help"] => .error .help
  | "--help" :: _ => .error .help
  | "--version" :: _ => .error .version
  | "--config" :: value :: rest => do
      if Argument.isOption value then .error .usage
      else readFrom (← Argument.once config (Argument.path value)) rest
  | argument :: rest =>
      match Argument.long? argument with
      | some ("config", some value) => do
          readFrom (← Argument.once config (Argument.path value)) rest
      | some _ => .error .usage
      | none =>
          match argument.toList with
          | '-' :: 'h' :: _ => .error .help
          | '-' :: 'V' :: _ => .error .version
          | _ => .error .usage

def ofArguments (arguments : List String) : Parse Invocation := readFrom none arguments

end Invocation

end EntityScript
