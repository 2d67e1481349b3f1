import EntityScript.Block.Body

/-!
Entities: their properties, their `init`, `tick` and `render` procedures and their
event handlers.
-/

namespace EntityScript

open Source (Span)

/-- The name that the seconds since the last tick have unless a tick names them. -/
def defaultDeltaName : String := "delta"

/-- A part of an entity as it was read. -/
inductive Member where
  | property (declared : Property)
  | init (procedure : Procedure)
  | tick (procedure : Procedure)
  | render (procedure : Procedure)
  | handler (declared : Handler)
  deriving Repr

def Member.kind : Member → MemberKind
  | .property declared => .property declared.name
  | .init _ => .init
  | .tick _ => .tick
  | .render _ => .render
  | .handler declared => .handler declared.event

def Member.span : Member → Span
  | .property declared => declared.span
  | .init procedure => procedure.span
  | .tick procedure => procedure.span
  | .render procedure => procedure.span
  | .handler declared => declared.span

namespace EntityBlock

def empty (name : String) (span : Span) : EntityBlock :=
  ⟨name, [], none, none, none, [], span⟩

/-- Whether the entity already has the member, of which there may be only one. -/
def has (entity : EntityBlock) : MemberKind → Bool
  | .property name => entity.properties.any (·.name = name)
  | .init => entity.init.isSome
  | .tick => entity.tick.isSome
  | .render => entity.render.isSome
  | .handler event => entity.handlers.any (·.event = event)

/-- The entity with one more member, behind those of the same kind. -/
def put (entity : EntityBlock) : Member → EntityBlock
  | .property declared => { entity with properties := entity.properties ++ [declared] }
  | .init procedure => { entity with init := some procedure }
  | .tick procedure => { entity with tick := some procedure }
  | .render procedure => { entity with render := some procedure }
  | .handler declared => { entity with handlers := entity.handlers ++ [declared] }

/-- Add a member, unless the entity has it already. -/
def add (entity : EntityBlock) (member : Member) : Reading EntityBlock :=
  if entity.has member.kind then
    .error ⟨.structural (.duplicateMember member.kind entity.name), member.span⟩
  else .ok (entity.put member)

end EntityBlock

/-- Read parameter names behind an opening parenthesis or a comma, up to the closing
parenthesis.  No name may be one of those seen before. -/
def readParameterNames (seen : List String) (lexemes : List Lexeme) :
    Reading (Strict lexemes (List String)) := do
  let name ← expectName lexemes
  let (word, position) := name.value
  if word ∈ seen then .error ⟨.structural (.duplicateParameter word), position⟩
  else
    let annotations ← skipAnnotations name.rest
    match (name.behind annotations).relax.next? with
    | none => misplaced (.expectedParameterEnd .eof) []
    | some next =>
        match next.value.token with
        | .comma => do
            let more ← readParameterNames (word :: seen) next.rest
            pure ((next.behind more.relax).map fun more => word :: more)
        | .rightParen => pure (next.map fun _ => [word])
        | found => misplaced (.expectedParameterEnd found) annotations.rest
termination_by lexemes.length
decreasing_by all_goals grind

def readParameters (lexemes : List Lexeme) : Reading (Strict lexemes (List String)) := do
  let opening ← expect .leftParen lexemes
  match opening.relax.next? with
  | none => misplaced (.expectedName .eof) []
  | some next =>
      if next.value.token = .rightParen then pure (next.map fun _ => [])
      else do
        let names ← readParameterNames [] opening.rest
        pure (opening.behind names.relax)

/-- Read a parameter list if there is one. -/
def readOptionalParameters (lexemes : List Lexeme) : Reading (Lax lexemes (List String)) :=
  if nextToken lexemes = .leftParen then do
    let parameters ← readParameters lexemes
    pure parameters.relax
  else .ok (.staying [] lexemes)

/-- Read the arrow, the body and the `end` of a block with the given parameters. -/
def readProcedure (kind : BlockKind) (opener : Span) (parameters : List String)
    (lexemes : List Lexeme) : Reading (Strict lexemes Procedure) := do
  let arrow ← expect .arrow lexemes
  let body ← readBody kind opener arrow.rest
  let last ← expectEnd kind opener body.rest
  pure (((arrow.behind body).behind last.relax).map fun last =>
    ⟨parameters, body.value, opener.union last⟩)

def endsInitializer (depth : Nat) (token : Token) : Bool :=
  token.endsStatement || (depth = 0 && token = .kwEnd)

/-- Read the initializer of a property, if there is one. -/
def readInitializer (property : String) (lexemes : List Lexeme) :
    Reading (Lax lexemes (Option Payload)) :=
  match lexemes with
  | [] => .ok (.staying none [])
  | next :: rest =>
      if next.token = .assign then
        match takePayload endsInitializer rest with
        | none => missingPayload (.initializer property) next.span
        | some payload => .ok (payload.relax.relax.map some)
      else .ok (.staying none (next :: rest))

def readProperty (kind : PropertyKind) (opener : Span) (lexemes : List Lexeme) :
    Reading (Strict lexemes Property) := do
  let name ← expectName lexemes
  let (word, position) := name.value
  let annotations ← skipAnnotations name.rest
  let initializer ← readInitializer word annotations.rest
  let next := nextToken initializer.rest
  if next.endsStatement || next = .kwEnd then
    let last := match initializer.value with
      | some payload => payload.span
      | none => position
    pure (((name.behind annotations).behind initializer).map fun payload =>
      ⟨word, kind, payload, opener.union last⟩)
  else misplaced (.unexpectedAfterProperty next word) initializer.rest

def readTick (opener : Span) (lexemes : List Lexeme) : Reading (Lax lexemes Procedure) := do
  let parameters ← readOptionalParameters lexemes
  let delta ← match parameters.value with
    | [] => pure defaultDeltaName
    | [name] => pure name
    | _ => .error ⟨.structural .tickParameters, opener⟩
  let procedure ← readProcedure .tick opener [delta] parameters.rest
  pure (parameters.behind procedure.relax)

def readRender (opener : Span) (lexemes : List Lexeme) : Reading (Lax lexemes Procedure) := do
  let parameters ← readOptionalParameters lexemes
  if parameters.value.isEmpty then
    let procedure ← readProcedure .render opener [] parameters.rest
    pure (parameters.behind procedure.relax)
  else .error ⟨.structural .renderParameters, opener⟩

def readHandler (opener : Span) (lexemes : List Lexeme) : Reading (Lax lexemes Handler) :=
  match lexemes with
  | ⟨.text event, _⟩ :: rest => do
      let parameters ← readOptionalParameters rest
      let procedure ← readProcedure (.handler event) opener parameters.value parameters.rest
      pure ((parameters.behind procedure.relax).relax.map fun procedure =>
        ⟨event, procedure.parameters, procedure.body, procedure.span⟩)
  | other => misplaced (.expectedEvent (nextToken other)) other

/-- Read the member that starts with the given lexeme. -/
def readMember (entity : String) (next : Lexeme) (rest : List Lexeme) :
    Reading (Lax rest Member) :=
  match next.token with
  | .name word =>
      match word with
      | "prop" => do
          let property ← readProperty .prop next.span rest
          pure (property.relax.map .property)
      | "state" => do
          let property ← readProperty .state next.span rest
          pure (property.relax.map .property)
      | "init" => do
          let parameters ← readParameters rest
          let procedure ← readProcedure .init next.span parameters.value parameters.rest
          pure ((parameters.behind procedure.relax).relax.map .init)
      | "tick" => do
          let procedure ← readTick next.span rest
          pure (procedure.map .tick)
      | "render" => do
          let procedure ← readRender next.span rest
          pure (procedure.map .render)
      | "on" => do
          let handler ← readHandler next.span rest
          pure (handler.map .handler)
      | _ => .error ⟨.structural (.unknownMember word entity), next.span⟩
  | found => .error ⟨.structural (.unexpectedMember found entity), next.span⟩

/-- Read members up to the `end` of the entity and add them to those it has. -/
def readMembers (entity : EntityBlock) (opener : Span) (lexemes : List Lexeme) :
    Reading (Strict lexemes EntityBlock) :=
  let skipped := afterTerminators lexemes
  match skipped.next? with
  | none => misplaced (.missingEnd (.entity entity.name) opener.line) []
  | some next =>
      match next.value.token with
      | .kwEnd => .ok (next.map fun last => { entity with span := opener.union last.span })
      | .eof => misplaced (.missingEnd (.entity entity.name) opener.line) skipped.rest
      | _ => do
          let member ← readMember entity.name next.value next.rest
          let extended ← entity.add member.value
          let finished ← readMembers extended opener member.rest
          pure ((next.behind member).behind finished.relax)
termination_by lexemes.length
decreasing_by all_goals grind

def readEntity (opener : Span) (lexemes : List Lexeme) :
    Reading (Strict lexemes EntityBlock) := do
  let name ← expectName lexemes
  let entity ← readMembers (.empty name.value.1 opener) opener name.rest
  pure (name.behind entity.relax)

end EntityScript
