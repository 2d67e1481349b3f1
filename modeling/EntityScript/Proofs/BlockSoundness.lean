import EntityScript.Proofs.Accounts
import EntityScript.Proofs.BlockRules

/-!
What is read is accounted for: each lexeme stands in a slot of the blocks that are read.
-/

namespace EntityScript

open Source (Span)

section Parts

variable {lexemes rest : List Lexeme}

theorem laid_skipTerminators (lexemes : List Lexeme) :
    Laid lexemes [.terminators] (skipTerminators lexemes) := by
  obtain ⟨part, same, ends⟩ := exists_skipTerminators lexemes
  have laid : Laid (part ++ skipTerminators lexemes) [.terminators] (skipTerminators lexemes) :=
    .single rfl ends
  rwa [← same] at laid

/-- A payload goes on as long as it may not end. -/
theorem splitPayload_prefix {ends : Nat → Token → Bool} (lexemes : List Lexeme) (depth : Nat)
    {P : Token → Prop}
    (inside : ∀ depth token, ends depth token = false → P token) :
    ∀ lexeme ∈ (splitPayload ends depth lexemes).1, P lexeme.token := by
  induction lexemes generalizing depth with
  | nil => exact List.forall_mem_nil _
  | cons next more inductionHypothesis =>
      rw [splitPayload]
      split
      next => exact List.forall_mem_nil _
      next goes =>
        exact List.forall_mem_cons.mpr ⟨inside depth _ (eq_false_of_ne_true goes),
          inductionHypothesis _⟩

theorem laid_splitPayload {ends : Nat → Token → Bool} {first : Lexeme} {more : List Lexeme}
    (inside : ∀ depth token, ends depth token = false → token.endsStatement = false)
    (split : splitPayload ends 0 lexemes = (first :: more, rest)) :
    Laid lexemes [.payload (Payload.of first more)] rest := by
  have whole := append_splitPayload ends 0 lexemes
  have goes := splitPayload_prefix lexemes 0 inside
  rw [split] at whole goes
  rw [← whole]
  exact .single rfl ⟨rfl, goes⟩

theorem laid_payloadUntil {stop : Token} {kind : PayloadKind} {payload : Payload}
    (plain : stop.continues = true) (reads : Reads (payloadUntil stop kind lexemes) payload rest) :
    Laid lexemes [.payload payload, .word stop] rest := by
  obtain ⟨first, more, next, split, stops, rfl⟩ := reads_payloadUntil.mp reads
  refine (laid_splitPayload ?_ split).append (.word stops plain .nil)
  intro depth token goes
  exact (Bool.or_eq_false_iff.mp goes).2

theorem laid_readStatement {payload : Payload}
    (reads : Reads (readStatement lexemes) payload rest) :
    Laid lexemes [.payload payload] rest := by
  obtain ⟨first, more, split, _, rfl⟩ := reads_readStatement.mp reads
  refine laid_splitPayload ?_ split
  intro depth token goes
  exact (Bool.or_eq_false_iff.mp goes).1

end Parts

section Bodies

mutual

theorem laid_readBody {kind : BlockKind} {opener : Span} {blocks : List Block}
    {lexemes rest : List Lexeme} (reads : Reads (readBody kind opener lexemes) blocks rest) :
    Laid lexemes (bodySlots blocks) rest := by
  obtain ⟨next, more, skipped, cases⟩ := reads_readBody.mp reads
  have shorter : more.length < lexemes.length := length_skipTerminators_cons skipped
  have lead := laid_skipTerminators lexemes
  rw [skipped] at lead
  rcases cases with ⟨_, rfl, rfl⟩ | ⟨_, _, _, block, middle, first, others, further, rfl⟩
  · exact lead
  · have shorter' := first.within
    exact lead.append ((laid_readBlock first).append (laid_readBody further))
termination_by 2 * lexemes.length + 0
decreasing_by all_goals omega

theorem laid_readBlock {next : Lexeme} {block : Block} {lexemes rest : List Lexeme}
    (reads : Reads (readBlock next lexemes) block rest) :
    Laid (next :: lexemes) block.slots rest := by
  by_cases conditional : next.token = .kwIf
  · exact laid_readChoice conditional ((reads_readBlock_of_if conditional).mp reads)
  by_cases repeated : next.token = .kwLoop
  · exact laid_readLoop repeated ((reads_readBlock_of_loop repeated).mp reads)
  · obtain ⟨_, _, payload, statement, rfl⟩ :=
      (reads_readBlock_of_other conditional repeated).mp reads
    exact laid_readStatement statement
termination_by 2 * lexemes.length + 1
decreasing_by all_goals omega

theorem laid_readChoice {opener : Lexeme} {block : Block} {lexemes rest : List Lexeme}
    (opens : opener.token = .kwIf) (reads : Reads (readChoice opener.span lexemes) block rest) :
    Laid (opener :: lexemes) block.slots rest := by
  obtain ⟨condition, inside, guarded, body, behind, first, further, middle, others, _, ended,
    rfl⟩ := reads_readChoice.mp reads
  have shorter := guarded.within
  have shorter' := first.within
  obtain ⟨last, rfl, closes, rfl⟩ := reads_expectEnd.mp ended
  have branches := (laid_payloadUntil rfl guarded).append
    ((laid_readBody first).append (laid_readAlternatives others))
  simpa [Block.slots, branchSlots] using branches.block opens rfl closes
termination_by 2 * lexemes.length + 0
decreasing_by all_goals omega

theorem laid_readAlternatives {opener : Span}
    {further : List (Payload × List Block) × Option (List Block)} {lexemes rest : List Lexeme}
    (reads : Reads (readAlternatives opener lexemes) further rest) :
    Laid lexemes (branchSlots [.word .kwElse, .word .kwIf] further.1 ++
      otherwiseSlots further.2) rest := by
  by_cases alternative : nextToken lexemes = .kwElse
  · obtain ⟨next, more, same, found, shorter⟩ := cons_of_nextToken alternative nofun
    rw [same] at reads ⊢
    by_cases conditional : nextToken more = .kwIf
    · obtain ⟨inner, inside, same', found', shorter'⟩ := cons_of_nextToken conditional nofun
      rw [same'] at reads ⊢
      obtain ⟨condition, inside, guarded, body, behind, first, others, last, rfl⟩ :=
        (reads_readAlternatives_of_if found found').mp reads
      have shorter'' := guarded.within
      have shorter''' := first.within
      have branches := (laid_payloadUntil rfl guarded).append
        ((laid_readBody first).append (laid_readAlternatives last))
      simpa [branchSlots] using (branches.word found' rfl).word found rfl
    · obtain ⟨body, inner, _, rfl⟩ := (reads_readAlternatives_of_else found conditional).mp reads
      simpa [branchSlots, otherwiseSlots] using (laid_readBody inner).word found rfl
  · obtain ⟨rfl, rfl⟩ := (reads_readAlternatives_of_other alternative).mp reads
    exact .nil
termination_by 2 * lexemes.length + 0
decreasing_by all_goals omega

theorem laid_readLoop {opener : Lexeme} {block : Block} {lexemes rest : List Lexeme}
    (opens : opener.token = .kwLoop) (reads : Reads (readLoop opener.span lexemes) block rest) :
    Laid (opener :: lexemes) block.slots rest := by
  obtain ⟨counter, named, counted, origin, started, from_, start, bounded, lower, bound, inside,
    upper, body, behind, inner, _, ended, rfl⟩ := reads_readLoop.mp reads
  have shorter := counted.within
  have shorter' := from_.within
  have shorter'' := lower.within
  have shorter''' := upper.within
  obtain ⟨name, rfl, found, _⟩ := reads_expectName.mp counted
  obtain ⟨word, rfl, found', _⟩ := reads_expectWord.mp from_
  obtain ⟨last, rfl, closes, rfl⟩ := reads_expectEnd.mp ended
  have range := (laid_payloadUntil rfl lower).append (laid_payloadUntil rfl upper)
  have header := (range.word found' rfl).word found rfl
  simpa [Block.slots] using (header.append (laid_readBody inner)).block opens rfl closes
termination_by 2 * lexemes.length + 0
decreasing_by all_goals omega

end

end Bodies

section Parameters

variable {lexemes rest : List Lexeme}

theorem exists_skipAnnotations {lexemes rest : List Lexeme}
    (reads : Reads (skipAnnotations lexemes) () rest) :
    ∃ part, lexemes = part ++ rest ∧ annotates (part.map (·.token)) = true := by
  cases next : nextToken lexemes with
  | unit measure =>
      obtain ⟨lexeme, more, same, found, shorter⟩ := cons_of_nextToken next nofun
      rw [same] at reads
      obtain ⟨part, taken, annotated⟩ :=
        exists_skipAnnotations ((reads_skipAnnotations_of_unit found).mp reads)
      exact ⟨lexeme :: part, by rw [same, taken, List.cons_append],
        by simpa [found, annotates] using annotated⟩
  | colon =>
      obtain ⟨lexeme, more, same, found, shorter⟩ := cons_of_nextToken next nofun
      rw [same] at reads
      obtain ⟨name, middle, named, further⟩ := (reads_skipAnnotations_of_colon found).mp reads
      have shorter' := named.within
      obtain ⟨word, rfl, found', _⟩ := reads_expectName.mp named
      obtain ⟨part, taken, annotated⟩ := exists_skipAnnotations further
      exact ⟨lexeme :: word :: part, by rw [same, taken, List.cons_append, List.cons_append],
        by simpa [found, found', annotates] using annotated⟩
  | _ =>
      have plain : (nextToken lexemes).opensAnnotations = false := by rw [next]; rfl
      exact ⟨[], (reads_skipAnnotations_of_none plain).mp reads, rfl⟩
termination_by lexemes.length
decreasing_by all_goals omega

theorem laid_skipAnnotations (reads : Reads (skipAnnotations lexemes) () rest) :
    Laid lexemes [.annotations] rest := by
  obtain ⟨part, rfl, annotated⟩ := exists_skipAnnotations reads
  exact .single rfl annotated

theorem laid_readParameterNames {seen names : List String} {lexemes rest : List Lexeme}
    (reads : Reads (readParameterNames seen lexemes) names rest) :
    Laid lexemes (nameSlots names ++ [.word .rightParen]) rest ∧ names ≠ [] := by
  obtain ⟨name, behind, named, _, middle, skipped, next, more, rfl, cases⟩ :=
    reads_readParameterNames.mp reads
  have shorter := named.within
  have shorter' := skipped.within
  obtain ⟨word, rfl, found, _⟩ := reads_expectName.mp named
  have lead := laid_skipAnnotations skipped
  rcases cases with ⟨separates, others, further, rfl⟩ | ⟨closes, rfl, rfl⟩
  · obtain ⟨laid, several⟩ := laid_readParameterNames further
    obtain ⟨second, others, rfl⟩ := List.exists_cons_of_ne_nil several
    exact ⟨(lead.append (laid.word separates rfl)).word found rfl, nofun⟩
  · exact ⟨(lead.append (.word closes rfl .nil)).word found rfl, nofun⟩
termination_by lexemes.length
decreasing_by simp only [List.length_cons] at *; omega

theorem laid_readParameters {names : List String}
    (reads : Reads (readParameters lexemes) names rest) :
    Laid lexemes (parameterSlots names) rest := by
  obtain ⟨opening, more, rfl, opens, ⟨closing, rfl, closes, rfl⟩ | ⟨_, listed⟩⟩ :=
    reads_readParameters.mp reads
  · exact .word opens rfl (.word closes rfl .nil)
  · exact (laid_readParameterNames listed).1.word opens rfl

theorem laid_readOptionalParameters {name : String} {names : List String}
    (reads : Reads (readOptionalParameters lexemes) (name :: names) rest) :
    Laid lexemes (parameterSlots (name :: names)) rest := by
  by_cases opens : nextToken lexemes = .leftParen
  · exact laid_readParameters ((reads_readOptionalParameters_of_some opens).mp reads)
  · obtain ⟨empty, _⟩ := (reads_readOptionalParameters_of_none opens).mp reads
    cases empty

/-- An empty parameter list may be left out. -/
theorem exists_noParameters (reads : Reads (readOptionalParameters lexemes) [] rest) :
    ∃ part, lexemes = part ++ rest ∧
      (part = [] ∨ part.map (·.token) = [.leftParen, .rightParen]) := by
  by_cases opens : nextToken lexemes = .leftParen
  · rw [reads_readOptionalParameters_of_some opens] at reads
    obtain ⟨opening, more, rfl, found, ⟨closing, rfl, closes, _⟩ | ⟨_, listed⟩⟩ :=
      reads_readParameters.mp reads
    · exact ⟨[opening, closing], rfl, .inr (by simp [found, closes])⟩
    · exact absurd rfl (laid_readParameterNames listed).2
  · exact ⟨[], ((reads_readOptionalParameters_of_none opens).mp reads).2, .inl rfl⟩

theorem laid_noParameters (reads : Reads (readOptionalParameters lexemes) [] rest) :
    Laid lexemes [.noParameters] rest := by
  obtain ⟨part, rfl, empty⟩ := exists_noParameters reads
  exact .single rfl empty

theorem exists_delta {name : String}
    (reads : Reads (readOptionalParameters lexemes) [name] rest) :
    ∃ part marks, lexemes = part ++ rest ∧ annotates marks = true ∧
      part.map (·.token) = .leftParen :: .name name :: marks ++ [.rightParen] := by
  by_cases opens : nextToken lexemes = .leftParen
  · rw [reads_readOptionalParameters_of_some opens] at reads
    obtain ⟨opening, more, rfl, found, ⟨_, _, _, empty⟩ | ⟨_, listed⟩⟩ :=
      reads_readParameters.mp reads
    · cases empty
    · obtain ⟨⟨word, _⟩, behind, named, _, middle, skipped, next, more, rfl, cases⟩ :=
        reads_readParameterNames.mp listed
      obtain ⟨lexeme, rfl, found', _⟩ := reads_expectName.mp named
      obtain ⟨part, rfl, annotated⟩ := exists_skipAnnotations skipped
      rcases cases with ⟨_, others, further, same⟩ | ⟨closes, same, rfl⟩
      · cases same
        exact absurd rfl (laid_readParameterNames further).2
      · cases same
        exact ⟨opening :: lexeme :: part ++ [next], part.map (·.token), by simp, annotated,
          by simp [found, found', closes]⟩
  · obtain ⟨empty, _⟩ := (reads_readOptionalParameters_of_none opens).mp reads
    cases empty

end Parameters

section Members

variable {lexemes middle rest : List Lexeme}

theorem laid_readProcedure {kind : BlockKind} {opener : Lexeme} {token : Token}
    {parameters : List String} {procedure : Procedure} {slots : List Slot}
    (opens : opener.token = token) (plain : token.continues = true)
    (header : Laid lexemes slots middle)
    (reads : Reads (readProcedure kind opener.span parameters middle) procedure rest) :
    Laid (opener :: lexemes)
      (.opening token :: slots ++ procedureSlots procedure.body procedure.span) rest := by
  obtain ⟨_, inside, pointed, body, behind, inner, _, ended, rfl⟩ := reads_readProcedure.mp reads
  obtain ⟨arrow, rfl, points, _⟩ := reads_expect.mp pointed
  obtain ⟨last, rfl, closes, rfl⟩ := reads_expectEnd.mp ended
  have whole := header.append ((laid_readBody inner).word points rfl)
  simpa [procedureSlots] using whole.block opens plain closes

theorem parameters_readProcedure {kind : BlockKind} {opener : Span} {parameters : List String}
    {procedure : Procedure}
    (reads : Reads (readProcedure kind opener parameters lexemes) procedure rest) :
    procedure.parameters = parameters := by
  obtain ⟨_, _, _, _, _, _, _, _, rfl⟩ := reads_readProcedure.mp reads
  rfl

theorem laid_readProperty {kind : PropertyKind} {opener : Lexeme} {property : Property}
    (opens : opener.token = .name kind.word)
    (reads : Reads (readProperty kind opener.span lexemes) property rest) :
    Laid (opener :: lexemes) (Member.property property).slots rest := by
  obtain ⟨name, behind, named, middle, skipped, initializer, initialized, _, rfl⟩ :=
    reads_readProperty.mp reads
  obtain ⟨word, rfl, found, _⟩ := reads_expectName.mp named
  have header := ((laid_skipAnnotations skipped).word found rfl).word opens rfl
  by_cases assigned : nextToken middle = .assign
  · obtain ⟨sign, more, rfl, assigns, _⟩ := cons_of_nextToken assigned nofun
    obtain ⟨first, others, split, rfl⟩ :=
      (reads_readInitializer_of_some assigns).mp initialized
    have payload : Laid more [.payload (Payload.of first others)] rest := by
      refine laid_splitPayload ?_ split
      intro depth token goes
      exact (Bool.or_eq_false_iff.mp goes).1
    exact header.append (payload.word assigns rfl)
  · obtain ⟨rfl, rfl⟩ := (reads_readInitializer_of_none assigned).mp initialized
    exact header

theorem laid_readTick {opener : Lexeme} {procedure : Procedure}
    (opens : opener.token = .name "tick")
    (reads : Reads (readTick opener.span lexemes) procedure rest) :
    Laid (opener :: lexemes) (Member.tick procedure).slots rest := by
  obtain ⟨parameters, behind, listed, delta, cases, inner⟩ := reads_readTick.mp reads
  have named := parameters_readProcedure inner
  have header : Laid lexemes [.delta delta] behind := by
    rcases cases with ⟨rfl, rfl⟩ | rfl
    · obtain ⟨part, rfl, empty⟩ := exists_noParameters listed
      exact .single rfl (.inl ⟨rfl, empty⟩)
    · obtain ⟨part, marks, rfl, annotated, same⟩ := exists_delta listed
      exact .single rfl (.inr ⟨marks, annotated, same⟩)
  have laid := laid_readProcedure opens rfl header inner
  obtain ⟨parameters, body, span⟩ := procedure
  cases named
  exact laid

theorem laid_readHandler {opener : Lexeme} {handler : Handler}
    (opens : opener.token = .name "on")
    (reads : Reads (readHandler opener.span lexemes) handler rest) :
    Laid (opener :: lexemes) (Member.handler handler).slots rest := by
  obtain ⟨event, more, rfl, name, found, parameters, behind, listed, ⟨names, body, span⟩, inner,
    rfl⟩ := reads_readHandler.mp reads
  cases parameters_readProcedure inner
  cases names with
  | nil => exact laid_readProcedure opens rfl ((laid_noParameters listed).word found rfl) inner
  | cons =>
      exact laid_readProcedure opens rfl ((laid_readOptionalParameters listed).word found rfl) inner

theorem laid_readMember {entity : String} {next : Lexeme} {member : Member}
    (reads : Reads (readMember entity next lexemes) member rest) :
    Laid (next :: lexemes) member.slots rest := by
  rcases reads_readMember.mp reads with ⟨kind, opens, property, inner, rfl⟩ |
    ⟨opens, parameters, behind, listed, ⟨_, body, span⟩, inner, rfl⟩ |
    ⟨opens, procedure, inner, rfl⟩ | ⟨opens, procedure, inner, rfl⟩ | ⟨opens, handler, inner, rfl⟩
  · exact laid_readProperty opens inner
  · cases parameters_readProcedure inner
    exact laid_readProcedure opens rfl (laid_readParameters listed) inner
  · exact laid_readTick opens inner
  · obtain ⟨behind, listed, inner⟩ := reads_readRender.mp inner
    cases procedure
    exact laid_readProcedure opens rfl (laid_noParameters listed) inner
  · exact laid_readHandler opens inner

end Members

end EntityScript
