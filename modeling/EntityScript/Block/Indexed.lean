import EntityScript.Block.Unit

/-!
Reading blocks by index.  There is one place in a fixed list of lexemes, and loops go on until they
are left.  Nothing in their shape says that these readers end: they stop where no lexeme has the
index, and where a loop or a reader comes back to itself at the place where it was.
-/

namespace EntityScript.Indexed

open Source (Span)

/-- Why reading stops before anything is found. -/
inductive Halt where
  | refused (diagnostic : Diagnostic)
  /-- No lexeme has the index. -/
  | outOfRange
  /-- A loop or a reader has come back to itself without taking a lexeme. -/
  | stalled
  deriving DecidableEq, Repr

/-- What is done from a place on, which may leave another place. -/
abbrev Run (α : Type) := StateT Nat (Except Halt) α

/-- What a token is to the payload in front of it. -/
inductive Verdict where
  | belongs
  | ends
  | refused (problem : StructureProblem)
  deriving DecidableEq

section Lexemes

variable (lexemes : List Lexeme)

def peek : Run Token := do
  return (lexemes[← get]?.map Lexeme.token).getD .eof

def position : Run Span := do
  return (lexemes[← get]?.map Lexeme.span).getD .none

def isHeaderArrow : Run Bool := do
  return lexemes[(← get) + 1]?.map Lexeme.token = some .arrow

def refuseAt {α : Type} (problem : StructureProblem) (span : Span) : Run α :=
  throw (.refused ⟨.structural problem, span⟩)

def refuse {α : Type} (problem : StructureProblem) : Run α := do
  refuseAt problem (← position lexemes)

/-- Take the lexeme at the place.  The last lexeme is not moved past. -/
def advance : Run Lexeme := fun place =>
  match lexemes[place]? with
  | none => .error .outOfRange
  | some lexeme => .ok (lexeme, if place < lexemes.length - 1 then place + 1 else place)

/-- Do what is done next, at a lexeme behind the place only. -/
def beyond {α : Type} (start : Nat) (run : Run α) : Run α := fun place =>
  if start < place ∧ place < lexemes.length then run place else .error .stalled

/-- Take turns until one of them leaves with a result.  A turn that does not leave has to have taken
a lexeme. -/
def iterate {σ α : Type} (turn : σ → Run (σ ⊕ α)) (state : σ) (start : Nat) :
    Except Halt (α × Nat) :=
  match turn state start with
  | .error halt => .error halt
  | .ok (.inr result, place) => .ok (result, place)
  | .ok (.inl state, place) =>
      if start < place ∧ place < lexemes.length then iterate turn state place else .error .stalled
termination_by lexemes.length - start

def take (wanted : Token) : Run Span := do
  let found ← peek lexemes
  if found = wanted then return (← advance lexemes).span
  else refuse lexemes (.expectedToken wanted found)

def takeWord (word : String) : Run Span := do
  let found ← peek lexemes
  if found = .name word then return (← advance lexemes).span
  else refuse lexemes (.expectedWord word found)

def takeName : Run (String × Span) := do
  match ← peek lexemes with
  | .name word => return (word, (← advance lexemes).span)
  | found => refuse lexemes (.expectedName found)

def takeEvent : Run String := do
  match ← peek lexemes with
  | .text event => do
      let _ ← advance lexemes
      return event
  | found => refuse lexemes (.expectedEvent found)

def takeEnd (block : BlockKind) (opener : Span) : Run Span := do
  match ← peek lexemes with
  | .kwEnd => return (← advance lexemes).span
  | .eof => refuse lexemes (.missingEnd block opener.line)
  | found => refuse lexemes (.expectedEnd block opener.line found)

def terminatorTurn (_ : Unit) : Run (Unit ⊕ Unit) := do
  let found ← peek lexemes
  if found = .newline ∨ found = .semicolon then
    let _ ← advance lexemes
    return .inl ()
  else return .inr ()

def passTerminators : Run Unit := iterate lexemes (terminatorTurn lexemes) ()

def annotationTurn (_ : Unit) : Run (Unit ⊕ Unit) := do
  match ← peek lexemes with
  | .unit _ => do
      let _ ← advance lexemes
      return .inl ()
  | .colon => do
      let _ ← advance lexemes
      let _ ← takeName lexemes
      return .inl ()
  | _ => return .inr ()

def passAnnotations : Run Unit := iterate lexemes (annotationTurn lexemes) ()

def payloadTurn (judge : Nat → Token → Verdict) :
    List Lexeme × Nat → Run (List Lexeme × Nat ⊕ List Lexeme)
  | (payload, depth) => do
      let found ← peek lexemes
      match judge depth found with
      | .ends => return .inr payload
      | .refused problem => refuse lexemes problem
      | .belongs => return .inl (payload ++ [← advance lexemes], found.depthAfter depth)

def payloadOf (kind : PayloadKind) (position : Span) : List Lexeme → Run Payload
  | [] => refuseAt (.missingPayload kind) position
  | first :: more => return .of first more

def collect (judge : Nat → Token → Verdict) (kind : PayloadKind) (position : Span) :
    Run Payload := do
  let payload ← iterate lexemes (payloadTurn lexemes judge) ([], 0)
  payloadOf kind position payload

def judgeBefore (stop : Token) (kind : PayloadKind) (depth : Nat) (token : Token) : Verdict :=
  if depth = 0 ∧ token = stop then .ends
  else if token.endsStatement then .refused (.expectedAfter stop kind)
  else .belongs

/-- Take a payload up to a token outside parentheses, and that token. -/
def collectUntil (stop : Token) (kind : PayloadKind) : Run Payload := do
  let start ← position lexemes
  let payload ← collect lexemes (judgeBefore stop kind) kind start
  let _ ← advance lexemes
  return payload

def judgeStatement (depth : Nat) (token : Token) : Verdict :=
  if token.endsStatement ∨ depth = 0 ∧ (token = .kwEnd ∨ token = .kwElse) then .ends
  else if depth = 0 ∧ token.isStructural then .refused (.unexpectedInStatement token)
  else .belongs

def parseStatement : Run Payload := do
  let start ← position lexemes
  collect lexemes judgeStatement .statement start

section Nested

/- How bodies are read that are inside of another one. -/
variable (nested : BlockKind → Span → Run (List Block))

def alternativeTurn (start : Nat) (opener : Span) :
    List (Payload × List Block) × Option (List Block) →
      Run (List (Payload × List Block) × Option (List Block) ⊕
        List (Payload × List Block) × Option (List Block))
  | (branches, otherwise) => do
      if (← peek lexemes) = .kwElse then
        let _ ← advance lexemes
        if (← peek lexemes) = .kwIf then
          let _ ← advance lexemes
          let condition ← collectUntil lexemes .kwThen .furtherCondition
          let body ← beyond lexemes start (nested .choice opener)
          return .inl (branches ++ [(condition, body)], otherwise)
        else
          let body ← beyond lexemes start (nested .choice opener)
          if (← peek lexemes) = .kwElse then refuse lexemes .elseAfterElse
          else return .inl (branches, some body)
      else return .inr (branches, otherwise)

def parseChoice : Run Block := do
  let start ← get
  let opener ← take lexemes .kwIf
  let condition ← collectUntil lexemes .kwThen .condition
  let body ← beyond lexemes start (nested .choice opener)
  let (branches, otherwise) ←
    iterate lexemes (alternativeTurn lexemes nested start opener) ([(condition, body)], none)
  let last ← takeEnd lexemes .choice opener
  return .choice branches otherwise (opener.union last)

def parseLoop : Run Block := do
  let start ← get
  let opener ← take lexemes .kwLoop
  let (counter, _) ← takeName lexemes
  let _ ← takeWord lexemes "from"
  let first ← collectUntil lexemes (.name "to") .loopStart
  let bound ← collectUntil lexemes .arrow .loopBound
  let body ← beyond lexemes start (nested .loop opener)
  let last ← takeEnd lexemes .loop opener
  return .loop counter first bound body (opener.union last)

def parseBlock : Run Block := do
  match ← peek lexemes with
  | .kwIf => parseChoice lexemes nested
  | .kwLoop => parseLoop lexemes nested
  | .kwEntity => refuse lexemes .entityInside
  | found => do
      if found = .name "main" ∧ (← isHeaderArrow lexemes) then refuse lexemes .mainInside
      else return .statement (← parseStatement lexemes)

def bodyTurn (kind : BlockKind) (opener : Span) (body : List Block) :
    Run (List Block ⊕ List Block) := do
  passTerminators lexemes
  match ← peek lexemes with
  | .kwEnd | .kwElse => return .inr body
  | .eof => refuse lexemes (.missingEnd kind opener.line)
  | _ => return .inl (body ++ [← parseBlock lexemes nested])

end Nested

/-- Read blocks up to an `end` or `else`.  Bodies inside are read the same way, behind the place
where the body starts. -/
def parseBody (kind : BlockKind) (opener : Span) (start : Nat) : Except Halt (List Block × Nat) :=
  let nested (kind : BlockKind) (opener : Span) : Run (List Block) := fun place =>
    if start < place ∧ place < lexemes.length then parseBody kind opener place
    else .error .stalled
  iterate lexemes (bodyTurn lexemes nested kind opener) [] start
termination_by lexemes.length - start

def parseProcedure (kind : BlockKind) (opener : Span) (parameters : List String) :
    Run Procedure := do
  let _ ← take lexemes .arrow
  let body ← parseBody lexemes kind opener
  let last ← takeEnd lexemes kind opener
  return ⟨parameters, body, opener.union last⟩

def parameterTurn (names : List String) : Run (List String ⊕ List String) := do
  let (word, position) ← takeName lexemes
  if word ∈ names then refuseAt (.duplicateParameter word) position
  else
    passAnnotations lexemes
    match ← peek lexemes with
    | .comma => do
        let _ ← advance lexemes
        return .inl (names ++ [word])
    | .rightParen => do
        let _ ← advance lexemes
        return .inr (names ++ [word])
    | found => refuse lexemes (.expectedParameterEnd found)

def parseParameters : Run (List String) := do
  let _ ← take lexemes .leftParen
  if (← peek lexemes) = .rightParen then
    let _ ← advance lexemes
    return []
  else iterate lexemes (parameterTurn lexemes) []

def parseOptionalParameters : Run (List String) := do
  if (← peek lexemes) = .leftParen then parseParameters lexemes else return []

def judgeInitializer (depth : Nat) (token : Token) : Verdict :=
  if token.endsStatement ∨ depth = 0 ∧ token = .kwEnd then .ends else .belongs

def parseInitializer (property : String) : Run (Option Payload) := do
  if (← peek lexemes) = .assign then
    let sign ← advance lexemes
    return some (← collect lexemes judgeInitializer (.initializer property) sign.span)
  else return none

def parseProperty : Run Property := do
  let keyword ← advance lexemes
  let kind : PropertyKind := if keyword.token = .name "state" then .state else .prop
  let (name, position) ← takeName lexemes
  passAnnotations lexemes
  let initializer ← parseInitializer lexemes name
  let found ← peek lexemes
  if found.endsStatement || found = .kwEnd then
    let last := match initializer with
      | some payload => payload.span
      | none => position
    return ⟨name, kind, initializer, keyword.span.union last⟩
  else refuse lexemes (.unexpectedAfterProperty found name)

def parseTick (opener : Span) : Run Procedure := do
  let parameters ← parseOptionalParameters lexemes
  let delta ← match parameters with
    | [] => pure defaultDeltaName
    | [name] => pure name
    | _ => refuseAt .tickParameters opener
  parseProcedure lexemes .tick opener [delta]

def parseRender (opener : Span) : Run Procedure := do
  let parameters ← parseOptionalParameters lexemes
  if parameters.isEmpty then parseProcedure lexemes .render opener []
  else refuseAt .renderParameters opener

def parseHandler (opener : Span) : Run Handler := do
  let event ← takeEvent lexemes
  let parameters ← parseOptionalParameters lexemes
  let procedure ← parseProcedure lexemes (.handler event) opener parameters
  return ⟨event, procedure.parameters, procedure.body, procedure.span⟩

def parseMember (entity : String) : Run Member := do
  let opener ← position lexemes
  match ← peek lexemes with
  | .name word =>
      match word with
      | "prop" | "state" => return .property (← parseProperty lexemes)
      | "init" => do
          let _ ← advance lexemes
          let parameters ← parseParameters lexemes
          return .init (← parseProcedure lexemes .init opener parameters)
      | "tick" => do
          let _ ← advance lexemes
          return .tick (← parseTick lexemes opener)
      | "render" => do
          let _ ← advance lexemes
          return .render (← parseRender lexemes opener)
      | "on" => do
          let _ ← advance lexemes
          return .handler (← parseHandler lexemes opener)
      | _ => refuseAt (.unknownMember word entity) opener
  | found => refuseAt (.unexpectedMember found entity) opener

/-- The entity with one more member, unless that is refused. -/
def extend (entity : EntityBlock) (member : Member) : Run EntityBlock :=
  match entity.add member with
  | .ok extended => return extended
  | .error diagnostic => throw (.refused diagnostic)

def memberTurn (opener : Span) (entity : EntityBlock) : Run (EntityBlock ⊕ EntityBlock) := do
  passTerminators lexemes
  match ← peek lexemes with
  | .kwEnd => do
      let last ← advance lexemes
      return .inr { entity with span := opener.union last.span }
  | .eof => refuse lexemes (.missingEnd (.entity entity.name) opener.line)
  | _ => do
      let member ← parseMember lexemes entity.name
      return .inl (← extend entity member)

def parseEntity : Run EntityBlock := do
  let opener ← take lexemes .kwEntity
  let (name, _) ← takeName lexemes
  iterate lexemes (memberTurn lexemes opener) (.empty name opener)

def parseMain : Run Declaration := do
  let opener ← takeWord lexemes "main"
  let procedure ← parseProcedure lexemes .main opener []
  return .main procedure.body procedure.span

def declarationTurn :
    List String × List Declaration → Run (List String × List Declaration ⊕ List Declaration)
  | (names, declarations) => do
      match ← peek lexemes with
      | .eof => return .inr declarations
      | .kwEntity => do
          let entity ← parseEntity lexemes
          if entity.name ∈ names then refuseAt (.entityDefinedTwice entity.name) entity.span
          else
            passTerminators lexemes
            return .inl (names ++ [entity.name], declarations ++ [.entity entity])
      | .name "main" => do
          let declaration ← parseMain lexemes
          passTerminators lexemes
          return .inl (names, declarations ++ [declaration])
      | found => refuse lexemes (.unexpectedTopLevel found)

def parseUnit : Run (List Declaration) := do
  passTerminators lexemes
  iterate lexemes (declarationTurn lexemes) ([], [])

/-- Read the declarations from the first lexeme on. -/
def parse : Except Halt (List Declaration) := (parseUnit lexemes).run' 0

end Lexemes

end EntityScript.Indexed
