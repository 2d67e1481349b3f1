import EntityScript.Block.Printer

/-!
Accounts of what a text says: which lexemes stand in which slots.
-/

namespace EntityScript

open Source (Span)

/-- Units of measure, and colons with a name behind them. -/
def annotates : List Token → Bool
  | [] => true
  | .unit _ :: rest => annotates rest
  | .colon :: .name _ :: rest => annotates rest
  | _ => false

/-- Whether neither a block nor the text ends with the token. -/
def Token.continues : Token → Bool
  | .kwEnd | .eof => false
  | _ => true

namespace Slot

/-- Whether the lexemes may stand in the slot. -/
def Fits : Slot → List Lexeme → Prop
  | word token, part | opening token, part =>
      token.continues = true ∧ part.map (·.token) = [token]
  | closing _, part => part.map (·.token) = [.kwEnd]
  | payload content, part =>
      part = content.lexemes ∧ ∀ lexeme ∈ part, lexeme.token.endsStatement = false
  | terminators, part => ∀ lexeme ∈ part, lexeme.token = .newline ∨ lexeme.token = .semicolon
  | annotations, part => annotates (part.map (·.token)) = true
  | delta name, part =>
      (name = defaultDeltaName ∧
        (part = [] ∨ part.map (·.token) = [.leftParen, .rightParen])) ∨
      ∃ marks, annotates marks = true ∧
        part.map (·.token) = .leftParen :: .name name :: marks ++ [.rightParen]
  | noParameters, part => part = [] ∨ part.map (·.token) = [.leftParen, .rightParen]

/-- Whether what stands in the slot means something to the block that it is of. -/
def counts : Slot → Bool
  | terminators | annotations | delta _ | noParameters => false
  | _ => true

def isPayload : Slot → Bool
  | payload _ => true
  | _ => false

def isClosing : Slot → Bool
  | closing _ => true
  | _ => false

/-- Whether a block starts or ends at the slot. -/
def bounds : Slot → Bool
  | opening _ | closing _ => true
  | _ => false

variable {slot : Slot} {part : List Lexeme}

theorem Fits.words (fits : slot.Fits part) (counted : slot.counts = true) :
    part.map (·.token) = slot.words := by
  cases slot with
  | word | opening => exact fits.2
  | closing => exact fits
  | payload content => exact congrArg _ fits.1
  | _ => cases counted

theorem annotates_continues {tokens : List Token} (marks : annotates tokens = true) :
    ∀ token ∈ tokens, token.continues = true := by
  fun_induction annotates tokens <;> simp_all [Token.continues]

theorem Fits.continues (fits : slot.Fits part) (outside : slot.isPayload = false)
    (inner : slot.isClosing = false) : ∀ lexeme ∈ part, lexeme.token.continues = true := by
  rw [← List.forall_mem_map (P := (Token.continues · = true))]
  cases slot with
  | word | opening =>
      obtain ⟨plain, same⟩ := fits
      rw [same]
      simpa using plain
  | closing => cases inner
  | payload => cases outside
  | terminators =>
      rw [List.forall_mem_map]
      intro lexeme among
      rcases fits lexeme among with found | found <;> rw [found] <;> rfl
  | annotations => exact annotates_continues fits
  | delta name =>
      rcases fits with ⟨_, rfl | same⟩ | ⟨marks, annotated, same⟩
      · simp
      · simp [same, Token.continues]
      · have inside := annotates_continues annotated
        simp only [same, List.cons_append, List.forall_mem_cons, List.forall_mem_append]
        exact ⟨rfl, rfl, inside, rfl, List.forall_mem_nil _⟩
  | noParameters =>
      rcases fits with rfl | same
      · simp
      · simp [same, Token.continues]

/-- Outside of payloads an `end` stands only where a block ends. -/
theorem Fits.count_kwEnd (fits : slot.Fits part) (outside : slot.isPayload = false) :
    (part.map (·.token)).count .kwEnd = if slot.isClosing then 1 else 0 := by
  cases inner : slot.isClosing with
  | true =>
      cases slot with
      | closing =>
          have same : part.map (·.token) = [.kwEnd] := fits
          rw [same]
          rfl
      | _ => cases inner
  | false =>
      refine List.count_eq_zero.mpr fun member => ?_
      obtain ⟨lexeme, among, ends⟩ := List.mem_map.mp member
      have goes := fits.continues outside inner lexeme among
      rw [ends] at goes
      cases goes

theorem Fits.ne_eof (fits : slot.Fits part) : ∀ lexeme ∈ part, lexeme.token ≠ .eof := by
  intro lexeme among ends
  cases outside : slot.isPayload with
  | true =>
      cases slot with
      | payload =>
          have goes := fits.2 lexeme among
          rw [ends] at goes
          cases goes
      | _ => cases outside
  | false =>
      cases inner : slot.isClosing with
      | true =>
          cases slot with
          | closing =>
              have same : part.map (·.token) = [.kwEnd] := fits
              have member : lexeme.token ∈ [.kwEnd] := same ▸ List.mem_map_of_mem among
              rw [ends] at member
              cases List.mem_singleton.mp member
          | _ => cases inner
      | false =>
          have goes := fits.continues outside inner lexeme among
          rw [ends] at goes
          cases goes

end Slot

section Payloads

variable {good better : Payload → Prop} {slot : Slot} {slots others : List Slot}

/-- If the slot holds a payload, then a good one. -/
def Slot.Holds (good : Payload → Prop) : Slot → Prop
  | payload content => good content
  | _ => True

def SlotsHold (good : Payload → Prop) (slots : List Slot) : Prop := ∀ slot ∈ slots, slot.Holds good

theorem Slot.holds_of_isPayload (outside : slot.isPayload = false) : slot.Holds good := by
  cases slot <;> first | exact trivial | cases outside

theorem slotsHold_nil : SlotsHold good [] := List.forall_mem_nil _

theorem slotsHold_cons : SlotsHold good (slot :: slots) ↔ slot.Holds good ∧ SlotsHold good slots :=
  List.forall_mem_cons

theorem slotsHold_append :
    SlotsHold good (slots ++ others) ↔ SlotsHold good slots ∧ SlotsHold good others :=
  List.forall_mem_append

theorem slotsHold_of_isPayload (outside : ∀ slot ∈ slots, slot.isPayload = false) :
    SlotsHold good slots :=
  fun slot among => Slot.holds_of_isPayload (outside slot among)

theorem slotsHold_iff :
    SlotsHold good slots ↔ ∀ payload, Slot.payload payload ∈ slots → good payload := by
  constructor
  · exact fun holds payload among => holds _ among
  · intro holds slot among
    cases slot with
    | payload content => exact holds content among
    | _ => trivial

theorem slotsHold_linesOf {lines : List (List Slot)} :
    SlotsHold good (linesOf lines) ↔ ∀ slots ∈ lines, SlotsHold good slots := by
  induction lines with
  | nil => exact iff_of_true (slotsHold_cons.mpr ⟨trivial, slotsHold_nil⟩) (List.forall_mem_nil _)
  | cons slots rest inductionHypothesis =>
      rw [linesOf, slotsHold_append, slotsHold_cons, inductionHypothesis, List.forall_mem_cons]
      exact ⟨fun holds => ⟨holds.1.2, holds.2⟩, fun holds => ⟨⟨trivial, holds.1⟩, holds.2⟩⟩

theorem slotsHold_branch {lead : List Slot} {condition : Payload} {body : List Block}
    {branches : List (Payload × List Block)} :
    SlotsHold good (branchSlots lead ((condition, body) :: branches)) ↔
      SlotsHold good lead ∧ good condition ∧ SlotsHold good (bodySlots body) ∧
        SlotsHold good (branchSlots [.word .kwElse, .word .kwIf] branches) := by
  rw [branchSlots, slotsHold_append, slotsHold_append, slotsHold_cons, slotsHold_cons]
  exact ⟨fun ⟨⟨leads, guard, _, inside⟩, further⟩ => ⟨leads, guard, inside, further⟩,
    fun ⟨leads, guard, inside, further⟩ => ⟨⟨leads, guard, trivial, inside⟩, further⟩⟩

theorem slotsHold_nameSlots (names : List String) : SlotsHold good (nameSlots names) := by
  fun_induction nameSlots names with
  | case1 => exact slotsHold_nil
  | case2 => exact slotsHold_of_isPayload (by simp [Slot.isPayload])
  | case3 name next rest inductionHypothesis =>
      rw [slotsHold_cons, slotsHold_cons, slotsHold_cons]
      exact ⟨trivial, trivial, trivial, inductionHypothesis⟩

theorem slotsHold_parameterSlots (names : List String) :
    SlotsHold good (parameterSlots names) := by
  rw [parameterSlots, slotsHold_append, slotsHold_cons, slotsHold_cons]
  exact ⟨⟨trivial, slotsHold_nameSlots names⟩, trivial, slotsHold_nil⟩

theorem slotsHold_procedureSlots {body : List Block} {span : Span} :
    SlotsHold good (procedureSlots body span) ↔ SlotsHold good (bodySlots body) := by
  rw [procedureSlots, slotsHold_append, slotsHold_cons, slotsHold_cons]
  exact ⟨fun holds => holds.1.2, fun holds => ⟨⟨trivial, holds⟩, trivial, slotsHold_nil⟩⟩

/-- The payloads of a member are its initializer or those of its body. -/
def Member.Holds (good : Payload → Prop) : Member → Prop
  | property declared => ∀ payload ∈ declared.initializer, good payload
  | init procedure | tick procedure | render procedure => SlotsHold good (bodySlots procedure.body)
  | handler declared => SlotsHold good (bodySlots declared.body)

theorem slotsHold_member {member : Member} : SlotsHold good member.slots ↔ member.Holds good := by
  have headed {lead : List Slot} {body : List Block} {span : Span}
      (leads : SlotsHold good lead) :
      SlotsHold good (lead ++ procedureSlots body span) ↔ SlotsHold good (bodySlots body) := by
    rw [slotsHold_append, slotsHold_procedureSlots]
    exact and_iff_right leads
  have word {slot : Slot} {slots : List Slot} (outside : slot.isPayload = false)
      (holds : SlotsHold good slots) : SlotsHold good (slot :: slots) :=
    slotsHold_cons.mpr ⟨Slot.holds_of_isPayload outside, holds⟩
  unfold Member.slots
  split
  next => exact iff_of_true (slotsHold_of_isPayload (by simp [Slot.isPayload])) nofun
  next name kind initializer span =>
    simp only [slotsHold_cons, Slot.Holds, true_and, slotsHold_nil, and_true, Member.Holds]
    exact ⟨fun holds => fun _ same => Option.some.inj same ▸ holds, fun holds => holds _ rfl⟩
  next parameters body span => exact headed (word rfl (slotsHold_parameterSlots parameters))
  next parameters body span =>
    refine headed (word rfl (slotsHold_of_isPayload ?_))
    exact List.forall_mem_map.mpr fun _ _ => rfl
  next body span => exact headed (word rfl (word rfl slotsHold_nil))
  next event body span => exact headed (word rfl (word rfl (word rfl slotsHold_nil)))
  next event name names body span =>
    exact headed (word rfl (word rfl (slotsHold_parameterSlots (name :: names))))

end Payloads

/-- Slots with the lexemes that stand in them. -/
abbrev Account := List (Slot × List Lexeme)

namespace Account

def slots (account : Account) : List Slot := account.map Prod.fst

def lexemes (account : Account) : List Lexeme := account.flatMap Prod.snd

/-- In every slot stands what may. -/
def Fits (account : Account) : Prop := ∀ entry ∈ account, entry.1.Fits entry.2

/-- Each block ends at the first `end` behind the blocks in it: its span goes from its opener,
which is the innermost of those not closed yet, to this `end`.  The openers are of the blocks
that are open before. -/
def Closes : List Lexeme → Account → Prop
  | openers, [] => openers = []
  | openers, (.opening _, part) :: rest => Closes (part ++ openers) rest
  | openers, (.closing span, part) :: rest =>
      ∃ opener outer last, openers = opener :: outer ∧ part = [last] ∧
        span = opener.span.union last.span ∧ Closes outer rest
  | openers, _ :: rest => Closes openers rest

/-- All blocks that start in the account end in it. -/
def Balanced (account : Account) : Prop :=
  ∀ openers more, Closes openers (account ++ more) ↔ Closes openers more

variable {account other : Account}

@[simp]
theorem lexemes_append : (account ++ other).lexemes = account.lexemes ++ other.lexemes :=
  List.flatMap_append

@[simp]
theorem slots_append : (account ++ other).slots = account.slots ++ other.slots :=
  List.map_append

theorem Fits.append (fits : account.Fits) (fits' : other.Fits) : (account ++ other).Fits :=
  List.forall_mem_append.mpr ⟨fits, fits'⟩

theorem Balanced.append (balanced : account.Balanced) (balanced' : other.Balanced) :
    (account ++ other).Balanced := by
  intro openers more
  rw [List.append_assoc, balanced, balanced']

theorem Balanced.single {slot : Slot} (inside : slot.bounds = false) (part : List Lexeme) :
    Balanced [(slot, part)] := by
  intro openers more
  cases slot <;> first | rfl | cases inside

theorem Balanced.block (balanced : account.Balanced) (token : Token) (opener last : Lexeme) :
    Balanced ((.opening token, [opener]) :: account ++
      [(.closing (opener.span.union last.span), [last])]) := by
  intro openers more
  rw [List.cons_append, List.cons_append, List.append_assoc]
  change Closes (opener :: openers) (account ++ _) ↔ _
  rw [balanced]
  constructor
  · rintro ⟨_, _, _, same, _, _, closes⟩
    cases same
    exact closes
  · exact fun closes => ⟨opener, openers, last, rfl, rfl, rfl, closes⟩

/-- The lexemes in slots that mean something are those that the slots mean. -/
theorem Fits.words (fits : account.Fits) :
    (lexemes (account.filter (·.1.counts))).map (·.token) = account.slots.flatMap Slot.words := by
  induction account with
  | nil => rfl
  | cons entry rest inductionHypothesis =>
      obtain ⟨here, others⟩ := List.forall_mem_cons.mp fits
      cases counted : entry.1.counts with
      | true =>
          rw [List.filter_cons_of_pos (by simp [counted])]
          simp only [lexemes, slots, List.flatMap_cons, List.map_append, List.map_cons] at *
          rw [inductionHypothesis others, here.words counted]
      | false =>
          have wordless : entry.1.words = [] := by
            cases slot : entry.1 <;> rw [slot] at counted <;> first | rfl | cases counted
          rw [List.filter_cons_of_neg (by simp [counted])]
          simp only [slots, List.flatMap_cons, List.map_cons, wordless, List.nil_append] at *
          exact inductionHypothesis others

theorem Fits.ne_eof (fits : account.Fits) : ∀ lexeme ∈ account.lexemes, lexeme.token ≠ .eof := by
  intro lexeme among
  obtain ⟨entry, one, inside⟩ := List.mem_flatMap.mp among
  exact (fits entry one).ne_eof lexeme inside

/-- Outside of payloads there are as many `end` as blocks. -/
theorem Fits.count_kwEnd (fits : account.Fits) :
    ((lexemes (account.filter (!·.1.isPayload))).map (·.token)).count .kwEnd =
      account.slots.countP Slot.isClosing := by
  induction account with
  | nil => rfl
  | cons entry rest inductionHypothesis =>
      obtain ⟨here, others⟩ := List.forall_mem_cons.mp fits
      cases outside : entry.1.isPayload with
      | false =>
          rw [List.filter_cons_of_pos (by simp [outside])]
          simp only [lexemes, slots, List.flatMap_cons, List.map_append, List.map_cons,
            List.count_append, List.countP_cons] at *
          rw [inductionHypothesis others, here.count_kwEnd outside, Nat.add_comm]
      | true =>
          have inner : entry.1.isClosing = false := by
            cases slot : entry.1 <;> rw [slot] at outside <;> first | rfl | cases outside
          rw [List.filter_cons_of_neg (by simp [outside])]
          simp only [slots, List.map_cons, List.countP_cons, inner] at *
          exact inductionHypothesis others

/-- A payload is a slice of the text. -/
theorem Fits.slice {before after : Account} {payload : Payload} {part : List Lexeme}
    (fits : account.Fits) (split : account = before ++ (.payload payload, part) :: after) :
    account.lexemes = before.lexemes ++ payload.lexemes ++ after.lexemes := by
  have here : part = payload.lexemes := (fits (.payload payload, part) (by simp [split])).1
  simp [split, here, lexemes]

end Account

/-- In front of the rest the lexemes are laid out in the slots. -/
def Laid (lexemes : List Lexeme) (slots : List Slot) (rest : List Lexeme) : Prop :=
  ∃ account : Account, account.slots = slots ∧ account.lexemes ++ rest = lexemes ∧
    account.Fits ∧ account.Balanced

namespace Laid

variable {lexemes middle rest part : List Lexeme} {slots others : List Slot}

theorem nil : Laid rest [] rest := ⟨[], rfl, rfl, nofun, fun _ _ => Iff.rfl⟩

theorem append (laid : Laid lexemes slots middle) (laid' : Laid middle others rest) :
    Laid lexemes (slots ++ others) rest := by
  obtain ⟨account, rfl, rfl, fits, balanced⟩ := laid
  obtain ⟨other, rfl, rfl, fits', balanced'⟩ := laid'
  exact ⟨account ++ other, by simp, by simp, fits.append fits', balanced.append balanced'⟩

theorem single {slot : Slot} (inside : slot.bounds = false) (fits : slot.Fits part) :
    Laid (part ++ rest) [slot] rest :=
  ⟨[(slot, part)], rfl, by simp [Account.lexemes], by simpa [Account.Fits] using fits,
    .single inside part⟩

theorem cons {slot : Slot} (inside : slot.bounds = false) (fits : slot.Fits part)
    (laid : Laid middle slots rest) : Laid (part ++ middle) (slot :: slots) rest :=
  (single inside fits).append laid

theorem word {lexeme : Lexeme} {token : Token} (found : lexeme.token = token)
    (plain : token.continues = true) (laid : Laid middle slots rest) :
    Laid (lexeme :: middle) (.word token :: slots) rest := by
  have fits : (Slot.word token).Fits [lexeme] := ⟨plain, by simp [found]⟩
  exact cons rfl fits laid

theorem block {opener last : Lexeme} {token : Token} (opens : opener.token = token)
    (plain : token.continues = true) (laid : Laid middle slots (last :: rest))
    (closes : last.token = .kwEnd) :
    Laid (opener :: middle)
      (.opening token :: slots ++ [.closing (opener.span.union last.span)]) rest := by
  obtain ⟨account, rfl, rfl, fits, balanced⟩ := laid
  refine ⟨_, ?_, ?_, ?_, balanced.block token opener last⟩
  · simp [Account.slots]
  · simp [Account.lexemes]
  · apply Account.Fits.append
    · exact List.forall_mem_cons.mpr ⟨⟨plain, by simp [opens]⟩, fits⟩
    · simpa [Account.Fits, Slot.Fits] using closes

theorem suffix (laid : Laid lexemes slots rest) : rest <:+ lexemes := by
  obtain ⟨account, _, same, _⟩ := laid
  exact ⟨account.lexemes, same⟩

end Laid

end EntityScript
