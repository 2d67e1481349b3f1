/-!
Writing JSON text with one item or member to a line, indented by two spaces for each
level.
-/

namespace EntityScript

/-- What is to be written. -/
inductive JsonLayout where
  /-- A number, a word or a text as it is spelled. -/
  | atom (spelling : List Char)
  | array (items : List JsonLayout)
  | object (members : List (String × JsonLayout))
  deriving Repr

namespace JsonLayout

/-- Digits of a control character. -/
def controlDigits (n : Nat) : List Char :=
  let digits := Nat.toDigits 16 n
  List.replicate (4 - digits.length) '0' ++ digits

def escape (c : Char) : List Char :=
  if c = '\x22' then ['\\', '\x22']
  else if c = '\\' then ['\\', '\\']
  else if c = '\x08' then ['\\', 'b']
  else if c = '\x0c' then ['\\', 'f']
  else if c = '\n' then ['\\', 'n']
  else if c = '\r' then ['\\', 'r']
  else if c = '\t' then ['\\', 't']
  else if c.toNat < 0x20 then ['\\', 'u'] ++ controlDigits c.toNat
  else [c]

def spell (text : String) : List Char :=
  '\x22' :: text.toList.flatMap escape ++ ['\x22']

def text (content : String) : JsonLayout := .atom (spell content)

def newLine (level : Nat) : List Char := '\n' :: List.replicate (2 * level) ' '

mutual

def write (level : Nat) : JsonLayout → List Char
  | .atom spelling => spelling
  | .array [] => ['[', ']']
  | .array (item :: rest) =>
      '[' :: newLine (level + 1) ++ write (level + 1) item ++ writeItems (level + 1) rest
        ++ newLine level ++ [']']
  | .object [] => ['\x7b', '\x7d']
  | .object (member :: rest) =>
      '\x7b' :: newLine (level + 1) ++ writeMember (level + 1) member
        ++ writeMembers (level + 1) rest ++ newLine level ++ ['\x7d']

def writeItems (level : Nat) : List JsonLayout → List Char
  | [] => []
  | item :: rest => ',' :: newLine level ++ write level item ++ writeItems level rest

def writeMember (level : Nat) : String × JsonLayout → List Char
  | (name, value) => spell name ++ [':', ' '] ++ write level value

def writeMembers (level : Nat) : List (String × JsonLayout) → List Char
  | [] => []
  | member :: rest => ',' :: newLine level ++ writeMember level member ++ writeMembers level rest

end

def render (layout : JsonLayout) : String := String.ofList (write 0 layout)

end JsonLayout

end EntityScript
