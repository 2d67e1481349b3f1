import EntityScript.Block.Unit

/-!
How the blocks of a unit are laid out.  The slots of a block are the places in its text in
order: some must hold given tokens, others may hold what means nothing to the block.  Printing
fills each slot.
-/

namespace EntityScript

open Source (Span)

/-- A place in the text of a unit. -/
inductive Slot where
  /-- A word, a name or a sign. -/
  | word (token : Token)
  /-- The token that a block starts with. -/
  | opening (token : Token)
  /-- The `end` of the innermost open block, which has the given span. -/
  | closing (span : Span)
  | payload (content : Payload)
  /-- Line ends and semicolons. -/
  | terminators
  /-- Units of measure, and colons with a name behind them. -/
  | annotations
  /-- The parameter list of a tick, which may be left out. -/
  | delta (name : String)
  /-- An empty parameter list, which may be left out. -/
  | noParameters
  deriving Repr, DecidableEq

namespace Slot

/-- What the slot means to the block it is of. -/
def words : Slot → List Token
  | word token | opening token => [token]
  | closing _ => [.kwEnd]
  | payload content => content.lexemes.map (·.token)
  | terminators | annotations | delta _ | noParameters => []

def printed : Slot → List Token
  | terminators => [.newline]
  | delta name => [.leftParen, .name name, .rightParen]
  | slot => slot.words

end Slot

/-- Items with terminators before and behind each of them. -/
def linesOf : List (List Slot) → List Slot
  | [] => [.terminators]
  | item :: rest => .terminators :: item ++ linesOf rest

mutual

/-- What may not be inside of a body has no place there. -/
def Block.slots : Block → List Slot
  | .statement payload => [.payload payload]
  | .choice branches otherwise span =>
      branchSlots [.opening .kwIf] branches ++ otherwiseSlots otherwise ++ [.closing span]
  | .loop counter start bound body span =>
      .opening .kwLoop :: .word (.name counter) :: .word (.name "from") :: .payload start ::
        .word (.name "to") :: .payload bound :: .word .arrow :: bodySlots body ++
        [.closing span]
  | .main _ _ | .entity _ => []

def bodySlots : List Block → List Slot
  | [] => [.terminators]
  | block :: rest => .terminators :: block.slots ++ bodySlots rest

/-- The slots of branches of which the first follows the given slots. -/
def branchSlots : List Slot → List (Payload × List Block) → List Slot
  | _, [] => []
  | lead, (condition, body) :: rest =>
      lead ++ .payload condition :: .word .kwThen :: bodySlots body ++
        branchSlots [.word .kwElse, .word .kwIf] rest

def otherwiseSlots : Option (List Block) → List Slot
  | none => []
  | some body => .word .kwElse :: bodySlots body

end

def nameSlots : List String → List Slot
  | [] => []
  | [name] => [.word (.name name), .annotations]
  | name :: next :: rest =>
      .word (.name name) :: .annotations :: .word .comma :: nameSlots (next :: rest)

def parameterSlots (names : List String) : List Slot :=
  .word .leftParen :: nameSlots names ++ [.word .rightParen]

/-- The slots of a procedure behind its parameters. -/
def procedureSlots (body : List Block) (span : Span) : List Slot :=
  .word .arrow :: bodySlots body ++ [.closing span]

def PropertyKind.word : PropertyKind → String
  | .prop => "prop"
  | .state => "state"

def Member.slots : Member → List Slot
  | .property ⟨name, kind, none, _⟩ =>
      [.word (.name kind.word), .word (.name name), .annotations]
  | .property ⟨name, kind, some initializer, _⟩ =>
      [.word (.name kind.word), .word (.name name), .annotations, .word .assign,
        .payload initializer]
  | .init ⟨parameters, body, span⟩ =>
      .opening (.name "init") :: parameterSlots parameters ++ procedureSlots body span
  | .tick ⟨parameters, body, span⟩ =>
      .opening (.name "tick") :: parameters.map .delta ++ procedureSlots body span
  | .render ⟨_, body, span⟩ =>
      .opening (.name "render") :: .noParameters :: procedureSlots body span
  | .handler ⟨event, [], body, span⟩ =>
      .opening (.name "on") :: .word (.text event) :: .noParameters :: procedureSlots body span
  | .handler ⟨event, name :: names, body, span⟩ =>
      .opening (.name "on") :: .word (.text event) :: parameterSlots (name :: names) ++
        procedureSlots body span

/-- A declaration with the members of an entity in the order in which they stand. -/
inductive Item where
  | main (body : List Block) (span : Span)
  | entity (name : String) (members : List Member) (span : Span)

namespace Item

def slots : Item → List Slot
  | main body span => .opening (.name "main") :: procedureSlots body span
  | entity name members span =>
      .opening .kwEntity :: .word (.name name) :: linesOf (members.map Member.slots) ++
        [.closing span]

def declaration : Item → Declaration
  | main body span => .main body span
  | entity name members span => .entity (members.foldl EntityBlock.put (.empty name span))

end Item

/-- The members of an entity by their kinds. -/
def EntityBlock.members (entity : EntityBlock) : List Member :=
  entity.properties.map .property ++ entity.init.toList.map .init ++
    entity.tick.toList.map .tick ++ entity.render.toList.map .render ++
    entity.handlers.map .handler

/-- What may not be outside of bodies has no place there. -/
def Declaration.slots : Declaration → List Slot
  | .main body span => (Item.main body span).slots
  | .entity definition => (Item.entity definition.name definition.members definition.span).slots
  | .choice _ _ _ | .loop _ _ _ _ _ | .statement _ => []

/-- The tokens of a unit, each statement, property, header and `end` on a line of its own. -/
def Declaration.printAll (declarations : List Declaration) : List Token :=
  (linesOf (declarations.map Declaration.slots)).tail.flatMap Slot.printed

def Payload.bare (payload : Payload) : Payload :=
  ⟨payload.lexemes.map fun lexeme => ⟨lexeme.token, .none⟩, .none⟩

def Property.bare (property : Property) : Property :=
  { property with initializer := property.initializer.map Payload.bare, span := .none }

mutual

/-- The block without its positions. -/
def Block.bare : Block → Block
  | .main body _ => .main (bareBody body) .none
  | .entity definition => .entity definition.bare
  | .choice branches otherwise _ =>
      .choice (bareBranches branches) (bareOtherwise otherwise) .none
  | .loop counter start bound body _ =>
      .loop counter start.bare bound.bare (bareBody body) .none
  | .statement payload => .statement payload.bare

def bareBody : List Block → List Block
  | [] => []
  | block :: rest => block.bare :: bareBody rest

def bareBranches : List (Payload × List Block) → List (Payload × List Block)
  | [] => []
  | (condition, body) :: rest => (condition.bare, bareBody body) :: bareBranches rest

def bareOtherwise : Option (List Block) → Option (List Block)
  | none => none
  | some body => some (bareBody body)

def Procedure.bare : Procedure → Procedure
  | ⟨parameters, body, _⟩ => ⟨parameters, bareBody body, .none⟩

def bareProcedure : Option Procedure → Option Procedure
  | none => none
  | some procedure => some procedure.bare

def Handler.bare : Handler → Handler
  | ⟨event, parameters, body, _⟩ => ⟨event, parameters, bareBody body, .none⟩

def bareHandlers : List Handler → List Handler
  | [] => []
  | handler :: rest => handler.bare :: bareHandlers rest

def EntityBlock.bare : EntityBlock → EntityBlock
  | ⟨name, properties, init, tick, render, handlers, _⟩ =>
      ⟨name, properties.map Property.bare, bareProcedure init, bareProcedure tick,
        bareProcedure render, bareHandlers handlers, .none⟩

end

def Member.bare : Member → Member
  | .property declared => .property declared.bare
  | .init procedure => .init procedure.bare
  | .tick procedure => .tick procedure.bare
  | .render procedure => .render procedure.bare
  | .handler declared => .handler declared.bare

end EntityScript
