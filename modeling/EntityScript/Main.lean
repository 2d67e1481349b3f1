import EntityScript.Command

/-!
The command line program.  It takes a snapshot of the files that its arguments mention,
works on that, and writes back the file that is new in the result.
-/

namespace EntityScript.Command

/-- The file at a path, if there is one. -/
def fileOnDisk (path : String) : IO (Option FileTree) := do
  try
    let handle ← IO.FS.Handle.mk path .read
    let bytes ← handle.readBinToEnd
    pure (some (.file (String.fromUTF8? bytes)))
  catch _ => pure none

/-- The names in the directory at a path, if there is one. -/
def namesOnDisk (path : String) : IO (Option (List String)) := do
  let directory : IO.FS.DirEntry := ⟨path, ""⟩
  try
    let entries ← directory.root.readDir
    pure (some (entries.toList.map fun entry => entry.fileName))
  catch _ => pure none

/-- What is at a path.  In a directory only files with the extension are looked at. -/
def onDisk (extension path : String) : IO (Option FileTree) := do
  match ← namesOnDisk path with
  | none => fileOnDisk path
  | some names =>
      let entries ← names.filterMapM fun name => do
        let inner := FileTree.join path name
        if FileTree.extension? name ≠ some extension || (← namesOnDisk inner).isSome then
          pure none
        else
          pure ((← fileOnDisk inner).map fun tree => (name, tree))
      pure (some (.directory entries))

/-- The tree with what is at some names, unless it has something there. -/
def addTo (tree : FileTree) (names : List String) (item : FileTree) : FileTree :=
  if (tree.find names).toOption.isSome then tree else FileTree.place item names tree

/-- The tree with what is on disk at a path, and the directory it is in. -/
def addFromDisk (extension : String) (tree : FileTree) (path : String) : IO FileTree := do
  let above := FileTree.parent path
  let isInside := !above.isEmpty && (← namesOnDisk above).isSome
  let tree := if isInside then addTo tree (FileTree.names above) (.directory []) else tree
  match ← onDisk extension path with
  | none => pure tree
  | some (.file text) => pure (addTo tree (FileTree.names path) (.file text))
  | some (.directory entries) =>
      let tree := addTo tree (FileTree.names path) (.directory [])
      pure (entries.foldl (fun tree (name, item) =>
        addTo tree (FileTree.names path ++ [name]) item) tree)

def snapshot (extension : String) (paths : List String) : IO FileTree :=
  paths.foldlM (addFromDisk extension) (.directory [])

def snapshotFor (invocation : Invocation) : IO FileTree := do
  let settings := settings? (← snapshot "" invocation.config.toList) invocation.config
  snapshot (settings.getD .default).scriptExtension invocation.mentioned

/-- Write the file at a path if a command has changed it, and say whether that went well. -/
def writeBack (before after : FileTree) (path : String) : IO Bool := do
  match (before.read path).toOption, (after.read path).toOption with
  | old, some new =>
      if old = some new then pure true
      else
        try
          IO.FS.writeFile path new
          pure true
        catch _ => pure false
  | _, none => pure true

/-- Print what a command prints, write what it writes, and give its exit code. -/
def deliver (before : FileTree) (paths : List String) (result : CommandResult) : IO UInt32 := do
  IO.print result.output
  let written ← paths.mapM (writeBack before result.files)
  pure (if written.all id then UInt32.ofNat result.code else 1)

/-- Run frames in real time, one period apart, until one fails. -/
partial def pace (session : Session) (origin : Nat) (next : Nat) : IO Unit := do
  let now := (← IO.monoNanosNow) - origin
  if now < next then IO.sleep (UInt32.ofNat ((next - now + 999999) / 1000000))
  match Session.frameAt ((← IO.monoNanosNow) - origin) session with
  | .returned () session => pace session origin (next + session.world.settings.framePeriod)
  | .raised _ _ | .endless => pure ()

/-- Load units, run `main`, and then run in real time. -/
def runInRealTime (files : FileTree) (options : RunOptions) (settings : Settings)
    (paths : List String) : IO UInt32 := do
  let (world, loading) := loadForRun files options settings paths
  IO.print (runOutput loading)
  match Session.onWorld World.runMain (.start world) with
  | .returned () session => pace session (← IO.monoNanosNow) 0
  | .raised _ _ | .endless => pure ()
  pure 1

end EntityScript.Command

open EntityScript in
def main (arguments : List String) : IO UInt32 := do
  match Invocation.ofArguments arguments with
  | .error refusal => Command.deliver (.directory []) [] (Command.refuse (.directory []) refusal)
  | .ok invocation =>
      let files ← Command.snapshotFor invocation
      match Command.planFor? files invocation with
      | some (.done result) => Command.deliver files invocation.mentioned result
      | some (.realTime options settings paths) =>
          Command.runInRealTime files options settings paths
      | none => pure 1
