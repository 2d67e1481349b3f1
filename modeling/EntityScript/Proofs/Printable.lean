import EntityScript.Block.Printer
import EntityScript.Proofs.Reads

/-!
Which blocks can be printed so that they are read back.  The payloads must not run into the
tokens that they are read up to.
-/

namespace EntityScript

/-- No token ends a statement, and none outside of parentheses is one of the given. -/
def staysClear (stops : List Token) : Nat → List Token → Bool
  | _, [] => true
  | depth, token :: rest =>
      !(token.endsStatement || (depth = 0 && token ∈ stops)) &&
        staysClear stops (token.depthAfter depth) rest

/-- How deep in parentheses what follows the tokens is. -/
def depthBehind (depth : Nat) (tokens : List Token) : Nat := tokens.foldl Token.depthAfter depth

namespace Payload

def tokens (payload : Payload) : List Token := payload.lexemes.map (·.token)

def clearOf (stops : List Token) (payload : Payload) : Bool :=
  !payload.tokens.isEmpty && staysClear stops 0 payload.tokens

/-- Whether the payload can stand in front of the token. -/
def fitsBefore (stop : Token) (payload : Payload) : Bool :=
  payload.clearOf [stop] && depthBehind 0 payload.tokens = 0

theorem bare_eq {payload other : Payload} (same : payload.tokens = other.tokens) :
    payload.bare = other.bare := by
  have bare (payload : Payload) : payload.bare = ⟨payload.tokens.map (⟨·, .none⟩), .none⟩ := by
    simp [Payload.bare, tokens]
  rw [bare, bare, same]

end Payload

/-- A payload is taken up to the first token that it may not have. -/
theorem splitPayload_append {ends : Nat → Token → Bool} (stops : List Token)
    (stopping : ∀ depth token, ends depth token =
      (token.endsStatement || (depth = 0 && token ∈ stops)))
    {depth : Nat} {part rest : List Lexeme}
    (clear : staysClear stops depth (part.map (·.token)) = true)
    (stop : ends (depthBehind depth (part.map (·.token))) (nextToken rest) = true) :
    splitPayload ends depth (part ++ rest) = (part, rest) := by
  induction part generalizing depth with
  | nil =>
      cases rest with
      | nil => rfl
      | cons next more => exact if_pos stop
  | cons first more inductionHypothesis =>
      simp only [List.map_cons, staysClear, ← stopping, Bool.and_eq_true,
        Bool.not_eq_true'] at clear
      rw [List.cons_append, splitPayload, if_neg (by simp [clear.1]),
        inductionHypothesis clear.2 stop]

/-- The tokens that a statement outside of parentheses may not have. -/
def statementStops : List Token :=
  [.kwEnd, .kwElse, .kwThen, .arrow, .kwEntity, .kwIf, .kwLoop]

mutual

def Block.printable : Block → Bool
  | .statement payload => payload.clearOf statementStops
  | .choice branches otherwise _ =>
      !branches.isEmpty && printableBranches branches && printableOtherwise otherwise
  | .loop _ start bound body _ =>
      start.fitsBefore (.name "to") && bound.fitsBefore .arrow && printableBody body
  | .main _ _ | .entity _ => false

def printableBody : List Block → Bool
  | [] => true
  | block :: rest => block.printable && printableBody rest

def printableBranches : List (Payload × List Block) → Bool
  | [] => true
  | (condition, body) :: rest =>
      condition.fitsBefore .kwThen && printableBody body && printableBranches rest

def printableOtherwise : Option (List Block) → Bool
  | none => true
  | some body => printableBody body

end

/-- A member that can be printed by itself. -/
def Member.Printable : Member → Prop
  | .property declared =>
      ∀ initializer ∈ declared.initializer, initializer.clearOf [.kwEnd] = true
  | .init procedure => procedure.parameters.Nodup ∧ printableBody procedure.body = true
  | .tick procedure => procedure.parameters.length = 1 ∧ printableBody procedure.body = true
  | .render procedure => procedure.parameters = [] ∧ printableBody procedure.body = true
  | .handler declared => declared.parameters.Nodup ∧ printableBody declared.body = true

instance : DecidablePred Member.Printable
  | .property declared =>
      inferInstanceAs (Decidable (∀ initializer ∈ declared.initializer, _ = true))
  | .init procedure => inferInstanceAs (Decidable (procedure.parameters.Nodup ∧ _ = true))
  | .tick procedure => inferInstanceAs (Decidable (procedure.parameters.length = 1 ∧ _ = true))
  | .render procedure => inferInstanceAs (Decidable (procedure.parameters = [] ∧ _ = true))
  | .handler declared => inferInstanceAs (Decidable (declared.parameters.Nodup ∧ _ = true))

/-- An entity that can be printed: there is at most one property of a name and one handler of
an event. -/
structure EntityBlock.Printable (entity : EntityBlock) : Prop where
  members : ∀ member ∈ entity.members, member.Printable
  propertyNames : (entity.properties.map (·.name)).Nodup
  events : (entity.handlers.map (·.event)).Nodup

def Declaration.Printable : Declaration → Prop
  | .main body _ => printableBody body = true
  | .entity definition => definition.Printable
  | .choice _ _ _ | .loop _ _ _ _ _ | .statement _ => False

instance (entity : EntityBlock) : Decidable entity.Printable :=
  decidable_of_iff ((∀ member ∈ entity.members, member.Printable) ∧
      (entity.properties.map (·.name)).Nodup ∧ (entity.handlers.map (·.event)).Nodup)
    ⟨fun ⟨members, names, events⟩ => ⟨members, names, events⟩,
      fun ⟨members, names, events⟩ => ⟨members, names, events⟩⟩

instance : DecidablePred Declaration.Printable
  | .main body _ => inferInstanceAs (Decidable (printableBody body = true))
  | .entity definition => inferInstanceAs (Decidable definition.Printable)
  | .choice _ _ _ | .loop _ _ _ _ _ | .statement _ => inferInstanceAs (Decidable False)

/-- The names of the entities among the declarations. -/
def entityNames : List Declaration → List String
  | [] => []
  | .entity definition :: rest => definition.name :: entityNames rest
  | _ :: rest => entityNames rest

/-- The lexemes are what the slots are printed as. -/
def Prints (slots : List Slot) (part : List Lexeme) : Prop :=
  part.map (·.token) = slots.flatMap Slot.printed

section Prints

variable {slot : Slot} {slots others : List Slot} {part : List Lexeme}

theorem prints_nil : Prints [] part ↔ part = [] := List.map_eq_nil_iff

theorem prints_append :
    Prints (slots ++ others) part ↔
      ∃ before behind, part = before ++ behind ∧ Prints slots before ∧ Prints others behind := by
  rw [Prints, List.flatMap_append, List.map_eq_append_iff]
  rfl

theorem prints_blank (blank : slot.printed = []) :
    Prints (slot :: slots) part ↔ Prints slots part := by
  rw [Prints, List.flatMap_cons, blank, List.nil_append, Prints]

theorem prints_single {token : Token} (single : slot.printed = [token]) :
    Prints (slot :: slots) part ↔
      ∃ lexeme more, part = lexeme :: more ∧ lexeme.token = token ∧ Prints slots more := by
  rw [Prints, List.flatMap_cons, single, List.singleton_append, List.map_eq_cons_iff]
  rfl

theorem prints_first {token : Token} {lexeme : Lexeme} (single : slot.printed = [token]) :
    Prints (slot :: slots) (lexeme :: part) ↔ lexeme.token = token ∧ Prints slots part := by
  rw [prints_single single]
  constructor
  · rintro ⟨_, _, same, found, printed⟩
    cases same
    exact ⟨found, printed⟩
  · exact fun ⟨found, printed⟩ => ⟨lexeme, part, rfl, found, printed⟩

theorem prints_last {token : Token} (single : slot.printed = [token]) :
    Prints [slot] part ↔ ∃ lexeme, part = [lexeme] ∧ lexeme.token = token := by
  rw [prints_single single]
  constructor
  · rintro ⟨lexeme, more, rfl, found, printed⟩
    cases prints_nil.mp printed
    exact ⟨lexeme, rfl, found⟩
  · rintro ⟨lexeme, rfl, found⟩
    exact ⟨lexeme, [], rfl, found, prints_nil.mpr rfl⟩

theorem prints_payload {payload : Payload} :
    Prints (.payload payload :: slots) part ↔
      ∃ before behind, part = before ++ behind ∧ before.map (·.token) = payload.tokens ∧
        Prints slots behind := by
  rw [Prints, List.flatMap_cons, List.map_eq_append_iff]
  rfl

/-- The delta of a tick is printed as its parameter list. -/
theorem prints_delta {name : String} :
    Prints (.delta name :: slots) part ↔ Prints (parameterSlots [name] ++ slots) part := Iff.rfl

theorem bodySlots_eq (body : List Block) : bodySlots body = linesOf (body.map Block.slots) := by
  induction body with
  | nil => rfl
  | cons block rest inductionHypothesis =>
      rw [bodySlots, inductionHypothesis, List.map_cons, linesOf]

/-- Lines start with a line end. -/
theorem newline_of_prints_lines {lines : List (List Slot)} (printed : Prints (linesOf lines) part)
    (rest : List Lexeme) : nextToken (part ++ rest) = .newline := by
  cases lines with
  | nil =>
      obtain ⟨line, rfl, ends⟩ := (prints_last rfl).mp printed
      exact ends
  | cons =>
      obtain ⟨line, more, rfl, ends, _⟩ := (prints_single rfl).mp printed
      exact ends

theorem newline_of_prints_body {body : List Block} (printed : Prints (bodySlots body) part)
    (rest : List Lexeme) : nextToken (part ++ rest) = .newline :=
  newline_of_prints_lines (bodySlots_eq body ▸ printed) rest

end Prints

end EntityScript
