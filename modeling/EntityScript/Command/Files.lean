/-!
Trees of files.  Paths are texts whose parts a slash separates.
-/

namespace EntityScript

/-- A file with its text, or a directory with its entries. -/
inductive FileTree where
  /-- A file; there is no text when its bytes spell none. -/
  | file (text : Option String)
  | directory (entries : List (String × FileTree))

/-- Why a file cannot be read or written. -/
inductive FileError where
  | notFound
  | notDirectory
  | isDirectory
  | nameTooLong
  | notText
  deriving DecidableEq, Repr

def FileError.message : FileError → String
  | .notFound => "No such file or directory (os error 2)"
  | .notDirectory => "Not a directory (os error 20)"
  | .isDirectory => "Is a directory (os error 21)"
  | .nameTooLong => "File name too long (os error 36)"
  | .notText => "stream did not contain valid UTF-8"

namespace FileTree

def child? (name : String) : List (String × FileTree) → Option FileTree
  | [] => none
  | (other, tree) :: rest => if other = name then some tree else child? name rest

/-- What stands between the slashes of a path. -/
def parts (path : String) : List String := (path.toList.splitOn '/').map String.ofList

/-- Whether a part of a path is a name, rather than a step that stays or goes up. -/
def isName (part : String) : Bool := part ≠ "" && part ≠ "." && part ≠ ".."

/-- The names behind one step up.  The root directory is above itself, and above the
directory that relative paths start from is always another one. -/
def up (names : List String) : List String :=
  match names.getLast? with
  | none | some ".." => names ++ [".."]
  | some "/" => names
  | some _ => names.dropLast

/-- The names behind one part of a path. -/
def step (names : List String) (part : String) : List String :=
  if isName part then names ++ [part] else if part = ".." then up names else names

/-- The names a path starts from: those of the root directory when it is absolute. -/
def origin (path : String) : List String :=
  if path.toList.head? = some '/' then ["/"] else []

/-- The names that a path passes through in the end. -/
def names (path : String) : List String := (parts path).foldl step (origin path)

def maxNameBytes : Nat := 255

def maxPathBytes : Nat := 4095

/-- Why there is nothing under a name that a directory has no entry for. -/
def absence (name : String) : FileError :=
  if maxNameBytes < name.utf8ByteSize then .nameTooLong else .notFound

def find (tree : FileTree) : List String → Except FileError FileTree
  | [] => .ok tree
  | part :: rest =>
      match tree with
      | .file _ => .error .notDirectory
      | .directory entries =>
          match child? part entries with
          | none => .error (absence part)
          | some inner => inner.find rest

/-- The names of what the parts of a path lead to.  Only from a directory a path can stay
where it is or go up. -/
def resolve (tree : FileTree) (names : List String) :
    List String → Except FileError (List String)
  | [] => .ok names
  | part :: rest =>
      if isName part then tree.resolve (names ++ [part]) rest
      else
        match tree.find names with
        | .error error => .error error
        | .ok (.file _) => .error .notDirectory
        | .ok (.directory _) => tree.resolve (step names part) rest

/-- The names of what a path leads to. -/
def trace (tree : FileTree) (path : String) : Except FileError (List String) :=
  if maxPathBytes < path.utf8ByteSize then .error .nameTooLong
  else tree.resolve (origin path) (parts path)

def at? (tree : FileTree) (path : String) : Except FileError FileTree := do
  tree.find (← tree.trace path)

def read (tree : FileTree) (path : String) : Except FileError String :=
  match tree.at? path with
  | .error error => .error error
  | .ok (.directory _) => .error .isDirectory
  | .ok (.file none) => .error .notText
  | .ok (.file (some text)) => .ok text

def putEntry (name : String) (tree : FileTree) :
    List (String × FileTree) → List (String × FileTree)
  | [] => [(name, tree)]
  | (other, old) :: rest =>
      if other = name then (name, tree) :: rest else (other, old) :: putEntry name tree rest

/-- Write a file, which may be new, into a directory, which may not. -/
def writeAt (tree : FileTree) (text : String) : List String → Except FileError FileTree
  | [] =>
      match tree with
      | .file _ => .ok (.file (some text))
      | .directory _ => .error .isDirectory
  | part :: rest =>
      match tree with
      | .file _ => .error .notDirectory
      | .directory entries =>
          match child? part entries with
          | some inner => do
              let written ← inner.writeAt text rest
              pure (.directory (putEntry part written entries))
          | none =>
              if rest.isEmpty ∧ part.utf8ByteSize ≤ maxNameBytes then
                .ok (.directory (putEntry part (.file (some text)) entries))
              else .error (absence part)

def write (tree : FileTree) (path text : String) : Except FileError FileTree := do
  tree.writeAt text (← tree.trace path)

/-- Put a file or a directory where some names lead, and the directories on the way. -/
def place (item : FileTree) : List String → FileTree → FileTree
  | [], _ => item
  | part :: rest, tree =>
      let entries := match tree with
        | .directory entries => entries
        | .file _ => []
      let inner := (child? part entries).getD (.directory [])
      .directory (putEntry part (place item rest inner) entries)

def ofFiles (files : List (String × String)) : FileTree :=
  files.foldl (fun tree (path, text) => place (.file (some text)) (names path) tree) (.directory [])

/-- What follows the last dot of a file name, unless the dot is its first character. -/
def extension? (name : String) : Option String :=
  let behind := name.toList.reverse.takeWhile (· ≠ '.')
  if name.length ≤ behind.length + 1 then none
  else some (String.ofList behind.reverse)

def join (directory name : String) : String :=
  if directory.toList.getLast? = some '/' then directory ++ name else directory ++ "/" ++ name

def parent (path : String) : String :=
  String.ofList (path.toList.reverse.dropWhile (· ≠ '/')).reverse

/-- The paths of the files with an extension in a directory, sorted by name. -/
def filesIn (directory extension : String) (entries : List (String × FileTree)) :
    List String :=
  let names := entries.filterMap fun (name, tree) =>
    match tree with
    | .file _ => if extension? name = some extension then some name else none
    | .directory _ => none
  (names.mergeSort fun a b => !(b < a)).map (join directory)

end FileTree

end EntityScript
