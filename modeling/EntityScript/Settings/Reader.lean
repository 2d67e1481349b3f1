import EntityScript.Json.Reader
import EntityScript.Settings

/-!
Settings from JSON text: an object with any of the settings by name, or an array of them
in order.  What is not given has its default.
-/

namespace EntityScript

/-- The names of the settings, in order. -/
inductive Setting where
  | width
  | height
  | targetFps
  | maxFrameDelta
  | isolateErrors
  | scriptExtension
  deriving DecidableEq, Repr

namespace Setting

def all : List Setting :=
  [width, height, targetFps, maxFrameDelta, isolateErrors, scriptExtension]

def name : Setting → String
  | width => "width"
  | height => "height"
  | targetFps => "target_fps"
  | maxFrameDelta => "max_frame_delta"
  | isolateErrors => "isolate_entity_errors"
  | scriptExtension => "script_extension"

def ofName? (name : String) : Option Setting := all.find? (·.name = name)

end Setting

namespace Json

def toUInt32? : Json → Option UInt32
  | number literal => do
      let n ← literal.toNat?
      if n < UInt32.size then some (UInt32.ofNat n) else none
  | _ => none

/-- A number, or null for none. -/
def toOptionalFloat? : Json → Option (Option Float)
  | null => some none
  | number literal => literal.toFloat?.map some
  | _ => none

def toBool? : Json → Option Bool
  | bool value => some value
  | _ => none

def toText? : Json → Option String
  | text content => content
  | _ => none

end Json

namespace Settings

def put? (settings : Settings) (setting : Setting) (json : Json) : Option Settings :=
  match setting with
  | .width => json.toUInt32?.map fun width => { settings with width }
  | .height => json.toUInt32?.map fun height => { settings with height }
  | .targetFps => json.toUInt32?.map fun targetFps => { settings with targetFps }
  | .maxFrameDelta =>
      json.toOptionalFloat?.map fun maxFrameDelta => { settings with maxFrameDelta }
  | .isolateErrors => json.toBool?.map fun isolateErrors => { settings with isolateErrors }
  | .scriptExtension =>
      json.toText?.map fun scriptExtension => { settings with scriptExtension }

/-- The settings with members of an object put in.  No setting may be given twice; other
members are ignored. -/
def putMembers? (settings : Settings) (given : List Setting) :
    List (Option String × Json) → Option Settings
  | [] => some settings
  | (none, _) :: _ => none
  | (some key, json) :: rest =>
      match Setting.ofName? key with
      | none => settings.putMembers? given rest
      | some setting =>
          if setting ∈ given then none
          else do
            let settings ← settings.put? setting json
            settings.putMembers? (setting :: given) rest

/-- The settings with items of an array put in for settings in order. -/
def putItems? (settings : Settings) : List Setting → List Json → Option Settings
  | _, [] => some settings
  | [], _ :: _ => none
  | setting :: more, json :: rest => do
      let settings ← settings.put? setting json
      settings.putItems? more rest

def ofJson? : Json → Option Settings
  | .object members => default.putMembers? [] members
  | .array items => default.putItems? Setting.all items
  | _ => none

def ofText? (text : String) : Option Settings := do ofJson? (← Json.ofText? text)

end Settings

end EntityScript
