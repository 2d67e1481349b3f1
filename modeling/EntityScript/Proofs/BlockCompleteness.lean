import EntityScript.Proofs.BlockRules
import EntityScript.Proofs.Printable

/-!
What is printed is read: behind the printed tokens of a block its reader has read the block,
apart from positions.
-/

namespace EntityScript

open Source (Span)

section Payloads

variable {part rest : List Lexeme} {slots : List Slot} {payload : Payload}

/-- A payload that is printed is not empty, and nothing in it ends it. -/
theorem exists_prints_payload {stops : List Token} (clear : payload.clearOf stops = true)
    (printed : Prints (.payload payload :: slots) part) :
    ∃ first more behind, part = first :: more ++ behind ∧
      (first :: more).map (·.token) = payload.tokens ∧
      staysClear stops 0 payload.tokens = true ∧ Prints slots behind := by
  obtain ⟨before, behind, rfl, same, further⟩ := prints_payload.mp printed
  simp only [Payload.clearOf, Bool.and_eq_true, Bool.not_eq_true'] at clear
  cases before with
  | nil =>
      rw [← same] at clear
      cases clear.1
  | cons first more => exact ⟨first, more, behind, rfl, same, clear.2, further⟩

theorem exists_payloadUntil {stop : Token} (fits : payload.fitsBefore stop = true)
    (printed : Prints (.payload payload :: .word stop :: slots) part) :
    ∃ behind, Prints slots behind ∧ ∀ kind rest, ∃ read,
      Reads (payloadUntil stop kind (part ++ rest)) read (behind ++ rest) ∧
      read.bare = payload.bare := by
  simp only [Payload.fitsBefore, Bool.and_eq_true, decide_eq_true_eq] at fits
  obtain ⟨first, more, _, rfl, same, clear, stopped⟩ := exists_prints_payload fits.1 printed
  obtain ⟨next, behind, rfl, stops, further⟩ := (prints_single rfl).mp stopped
  refine ⟨behind, further, fun kind rest => ⟨Payload.of first more, ?_, Payload.bare_eq same⟩⟩
  refine reads_payloadUntil.mpr ⟨first, more, next, ?_, stops, rfl⟩
  rw [List.append_assoc]
  apply splitPayload_append [stop]
  · intro depth token
    simp [endsBefore, Bool.or_comm]
  · rwa [same]
  · rw [same, fits.2]
    simp [endsBefore, stops]

theorem exists_readStatement {first : Lexeme}
    (clear : payload.clearOf statementStops = true)
    (printed : Prints [.payload payload] (first :: part)) (ends : nextToken rest = .newline) :
    ∃ read, Reads (readStatement (first :: (part ++ rest))) read rest ∧
      read.bare = payload.bare := by
  obtain ⟨_, more, behind, split, same, clear, empty⟩ := exists_prints_payload clear printed
  cases prints_nil.mp empty
  rw [List.append_nil] at split
  cases split
  refine ⟨Payload.of first part, ?_, Payload.bare_eq same⟩
  refine reads_readStatement.mpr ⟨first, part, ?_, by rw [ends]; rfl, rfl⟩
  rw [← List.cons_append]
  apply splitPayload_append statementStops
  · intro depth token
    cases token <;>
      simp [endsStatementText, statementStops, Token.isStructural, Token.endsStatement]
  · rwa [same]
  · rw [ends]
    rfl

end Payloads

section Bodies

/-- Whether a body ends in front of the lexemes. -/
def EndsBody (rest : List Lexeme) : Prop := nextToken rest = .kwEnd ∨ nextToken rest = .kwElse

/-- Whether a block may start with the token. -/
def Token.startsBlock (token : Token) : Bool :=
  !(token.endsStatement || token = .kwEnd || token = .kwElse)

theorem Token.ne_of_startsBlock {token : Token} (starts : token.startsBlock = true) :
    token ≠ .kwEnd ∧ token ≠ .kwElse ∧ token ≠ .eof ∧ token ≠ .newline ∧ token ≠ .semicolon := by
  refine ⟨?_, ?_, ?_, ?_, ?_⟩ <;> rintro rfl <;> cases starts

theorem Token.startsBlock_of_ne {token : Token} (other : token ≠ .kwEnd ∧ token ≠ .kwElse ∧
    token ≠ .eof ∧ token ≠ .newline ∧ token ≠ .semicolon) : token.startsBlock = true := by
  cases token <;> first | rfl | simp at other

theorem exists_prints_block {block : Block} (printable : block.printable = true)
    {slots : List Slot} {part : List Lexeme} (printed : Prints (block.slots ++ slots) part) :
    ∃ next more behind, part = next :: (more ++ behind) ∧ next.token.startsBlock = true ∧
      Prints block.slots (next :: more) ∧ Prints slots behind := by
  obtain ⟨before, behind, rfl, printed, printed'⟩ := prints_append.mp printed
  cases block with
  | statement payload =>
      obtain ⟨first, more, none, rfl, same, clear, empty⟩ := exists_prints_payload printable printed
      refine ⟨first, more ++ none, behind, rfl, ?_, printed, printed'⟩
      rw [← same] at clear
      simp only [List.map_cons, staysClear, Bool.and_eq_true, Bool.not_eq_true'] at clear
      have clear := clear.1
      generalize first.token = token at clear
      cases token <;> first | rfl | cases clear
  | choice branches otherwise span =>
      cases branches with
      | nil => cases printable
      | cons branch others =>
          obtain ⟨next, more, rfl, opens, _⟩ := (prints_single rfl).mp printed
          exact ⟨next, more, behind, rfl, by rw [opens]; rfl, printed, printed'⟩
  | loop =>
      obtain ⟨next, more, rfl, opens, _⟩ := (prints_single rfl).mp printed
      exact ⟨next, more, behind, rfl, by rw [opens]; rfl, printed, printed'⟩
  | main | entity => cases printable

/-- A printed statement does not start a `main`. -/
theorem startsMain_of_clear {stops : List Token} {first : Lexeme} {part rest : List Lexeme}
    (clear : staysClear stops 0 ((first :: part).map (·.token)) = true)
    (pointed : Token.arrow ∈ stops) (unpointed : nextToken rest ≠ .arrow) :
    startsMain (first :: (part ++ rest)) = false := by
  cases part with
  | nil =>
      cases rest with
      | nil => rfl
      | cons next more =>
          have unpointed : next.token ≠ .arrow := unpointed
          simp [startsMain, unpointed]
  | cons second part =>
      simp only [List.cons_append, startsMain, Bool.and_eq_false_iff, decide_eq_false_iff_not]
      by_cases named : first.token = .name "main"
      · refine .inr fun found => ?_
        simp [staysClear, named, found, Token.depthAfter, pointed] at clear
      · exact .inl named

theorem exists_readBlock_statement {payload : Payload} {next : Lexeme} {part rest : List Lexeme}
    (clear : payload.clearOf statementStops = true)
    (printed : Prints (Block.statement payload).slots (next :: part))
    (ends : nextToken rest = .newline) :
    ∃ read, Reads (readBlock next (part ++ rest)) read rest ∧
      read.bare = (Block.statement payload).bare := by
  obtain ⟨_, _, none, split, same, clear', empty⟩ := exists_prints_payload clear printed
  cases prints_nil.mp empty
  rw [List.append_nil] at split
  rw [← split] at same
  rw [← same] at clear'
  have plain : next.token ∉ statementStops := by
    simp only [List.map_cons, staysClear, Bool.and_eq_true, Bool.not_eq_true',
      Bool.or_eq_false_iff] at clear'
    simpa using clear'.1.2
  simp only [statementStops, List.mem_cons, not_or] at plain
  obtain ⟨_, _, _, _, nested, unconditional, unrepeated, _⟩ := plain
  obtain ⟨read, reads, bare⟩ := exists_readStatement clear printed ends
  refine ⟨.statement read, ?_, congrArg Block.statement bare⟩
  rw [reads_readBlock_of_other unconditional unrepeated]
  exact ⟨nested, startsMain_of_clear clear' (by decide) (by simp [ends]), read, reads, rfl⟩

/-- The slots of what stands behind the first branch of a choice. -/
def alternativeSlots (branches : List (Payload × List Block)) (otherwise : Option (List Block)) :
    List Slot :=
  branchSlots [.word .kwElse, .word .kwIf] branches ++ otherwiseSlots otherwise

theorem alternativeSlots_cons (condition : Payload) (body : List Block)
    (others : List (Payload × List Block)) (otherwise : Option (List Block)) :
    alternativeSlots ((condition, body) :: others) otherwise =
      .word .kwElse :: .word .kwIf :: .payload condition :: .word .kwThen :: (bodySlots body ++
        alternativeSlots others otherwise) := by
  simp [alternativeSlots, branchSlots]

theorem slots_choice (condition : Payload) (body : List Block)
    (others : List (Payload × List Block)) (otherwise : Option (List Block)) (span : Span) :
    (Block.choice ((condition, body) :: others) otherwise span).slots =
      .opening .kwIf :: ((.payload condition :: .word .kwThen :: (bodySlots body ++
        alternativeSlots others otherwise)) ++ [.closing span]) := by
  simp [Block.slots, alternativeSlots, branchSlots]

theorem endsBody_of_prints {branches : List (Payload × List Block)}
    {otherwise : Option (List Block)} {part rest : List Lexeme}
    (printed : Prints (alternativeSlots branches otherwise) part)
    (ends : nextToken rest = .kwEnd) : EndsBody (part ++ rest) := by
  cases branches with
  | nil =>
      cases otherwise with
      | none =>
          cases prints_nil.mp printed
          exact .inl ends
      | some body =>
          obtain ⟨word, more, rfl, alternative, _⟩ := (prints_single rfl).mp printed
          exact .inr alternative
  | cons branch others =>
      obtain ⟨word, more, rfl, alternative, _⟩ := (prints_single rfl).mp printed
      exact .inr alternative

mutual

theorem exists_readBody {body : List Block} (printable : printableBody body = true)
    {part rest : List Lexeme} (printed : Prints (bodySlots body) part) (ends : EndsBody rest)
    (kind : BlockKind) (opener : Span) :
    ∃ read, Reads (readBody kind opener (part ++ rest)) read rest ∧
      bareBody read = bareBody body := by
  cases body with
  | nil =>
      obtain ⟨line, rfl, found⟩ := (prints_last rfl).mp printed
      have inside : nextToken rest ≠ .eof := by rcases ends with ends | ends <;> simp [ends]
      obtain ⟨next, more, rfl, same, _⟩ := cons_of_nextToken rfl inside
      rw [EndsBody, nextToken_cons] at ends
      have other : next.token ≠ .newline ∧ next.token ≠ .semicolon := by
        rcases ends with ends | ends <;> simp [ends]
      exact ⟨[], reads_readBody.mpr ⟨next, more, skipTerminators_line found other,
        .inl ⟨ends, rfl, rfl⟩⟩, rfl⟩
  | cons block others =>
      simp only [printableBody, Bool.and_eq_true] at printable
      obtain ⟨line, part, rfl, found, further⟩ := (prints_single rfl).mp printed
      obtain ⟨next, more, behind, rfl, starts, first, last⟩ :=
        exists_prints_block printable.1 further
      obtain ⟨block', reads, bare⟩ :=
        exists_readBlock printable.1 first (newline_of_prints_body last rest)
      obtain ⟨others', reads', bare'⟩ := exists_readBody printable.2 last ends kind opener
      obtain ⟨unended, unalternative, unfinished, other⟩ := Token.ne_of_startsBlock starts
      rw [← List.append_assoc] at reads
      refine ⟨block' :: others', reads_readBody.mpr ⟨next, _, skipTerminators_line found other,
        .inr ⟨unended, unalternative, unfinished, block', behind ++ rest, reads, others', reads',
          rfl⟩⟩, ?_⟩
      simp only [bareBody, bare, bare']
termination_by sizeOf body
decreasing_by all_goals subst_vars; simp only [List.cons.sizeOf_spec]; omega

theorem exists_readBlock {block : Block} (printable : block.printable = true) {next : Lexeme}
    {part rest : List Lexeme} (printed : Prints block.slots (next :: part))
    (ends : nextToken rest = .newline) :
    ∃ read, Reads (readBlock next (part ++ rest)) read rest ∧ read.bare = block.bare := by
  cases block with
  | main | entity => cases printable
  | statement payload => exact exists_readBlock_statement printable printed ends
  | choice branches otherwise span =>
      cases branches with
      | nil => cases printable
      | cons branch others =>
          -- With an equation the measure sees the parts of the branch.
          obtain ⟨condition, body, rfl⟩ : ∃ condition body, branch = (condition, body) :=
            ⟨_, _, rfl⟩
          simp only [Block.printable, printableBranches, Bool.and_eq_true] at printable
          obtain ⟨⟨_, ⟨fits, printable⟩, printable'⟩, printable''⟩ := printable
          rw [slots_choice] at printed
          obtain ⟨opens, further⟩ := (prints_first rfl).mp printed
          obtain ⟨inside, _, rfl, inner, closing⟩ := prints_append.mp further
          obtain ⟨last, rfl, closes⟩ := (prints_last rfl).mp closing
          obtain ⟨condition', _, body', _, further', guarded, first, others', bare, bare', bare'',
            bare'''⟩ := exists_readBranches fits printable printable' printable'' inner
              (show nextToken (last :: rest) = .kwEnd from closes) .condition next.span
          refine ⟨.choice ((condition', body') :: further'.1) further'.2
            (next.span.union last.span), ?_, ?_⟩
          · rw [reads_readBlock_of_if opens, reads_readChoice, List.append_assoc]
            exact ⟨condition', _, guarded, body', _, first, further', _, others', last.span,
              reads_expectEnd.mpr ⟨last, rfl, closes, rfl⟩, rfl⟩
          · simp only [Block.bare, bareBranches, bare, bare', bare'', bare''']
  | loop counter start bound body span =>
      simp only [Block.printable, Bool.and_eq_true] at printable
      obtain ⟨opens, further⟩ := (prints_first rfl).mp printed
      obtain ⟨name, part, rfl, named, further⟩ := (prints_single rfl).mp further
      obtain ⟨word, part, rfl, started, further⟩ := (prints_single rfl).mp further
      obtain ⟨part', further, lower⟩ := exists_payloadUntil printable.1.1 further
      obtain ⟨part'', further, upper⟩ := exists_payloadUntil printable.1.2 further
      obtain ⟨inside, _, rfl, inner, closing⟩ := prints_append.mp further
      obtain ⟨last, rfl, closes⟩ := (prints_last rfl).mp closing
      obtain ⟨start', lower, bare⟩ := lower .loopStart rest
      obtain ⟨bound', upper, bare'⟩ := upper .loopBound rest
      rw [List.append_assoc] at upper
      have stops : EndsBody (last :: rest) := .inl closes
      obtain ⟨body', inner, bare''⟩ := exists_readBody printable.2 inner stops .loop next.span
      refine ⟨.loop counter start' bound' body' (next.span.union last.span), ?_, ?_⟩
      · rw [reads_readBlock_of_loop opens, reads_readLoop]
        exact ⟨(counter, name.span), _, reads_expectName.mpr ⟨name, rfl, named, rfl⟩, word.span, _,
          reads_expectWord.mpr ⟨word, rfl, started, rfl⟩, start', _, lower, bound', _, upper,
          body', _, inner, last.span, reads_expectEnd.mpr ⟨last, rfl, closes, rfl⟩, rfl⟩
      · simp only [Block.bare, bare, bare', bare'']
termination_by sizeOf block
decreasing_by
  all_goals
    subst_vars
    simp only [Block.choice.sizeOf_spec, Block.loop.sizeOf_spec, List.cons.sizeOf_spec,
      Prod.mk.sizeOf_spec]
    omega

/-- Behind the first word of a branch the branch is read, and the branches behind it. -/
theorem exists_readBranches {condition : Payload} {body : List Block}
    {others : List (Payload × List Block)} {otherwise : Option (List Block)}
    (fits : condition.fitsBefore .kwThen = true) (printable : printableBody body = true)
    (printable' : printableBranches others = true)
    (printable'' : printableOtherwise otherwise = true) {part rest : List Lexeme}
    (printed : Prints (.payload condition :: .word .kwThen :: (bodySlots body ++
      alternativeSlots others otherwise)) part) (ends : nextToken rest = .kwEnd)
    (kind : PayloadKind) (opener : Span) :
    ∃ condition' inside body' middle further,
      Reads (payloadUntil .kwThen kind (part ++ rest)) condition' inside ∧
      Reads (readBody .choice opener inside) body' middle ∧
      Reads (readAlternatives opener middle) further rest ∧
      condition'.bare = condition.bare ∧ bareBody body' = bareBody body ∧
      bareBranches further.1 = bareBranches others ∧
      bareOtherwise further.2 = bareOtherwise otherwise := by
  obtain ⟨behind, further, guarded⟩ := exists_payloadUntil fits printed
  obtain ⟨inside, last, rfl, inner, alternatives⟩ := prints_append.mp further
  obtain ⟨condition', guarded, bare⟩ := guarded kind rest
  rw [List.append_assoc] at guarded
  have stops : EndsBody (last ++ rest) := endsBody_of_prints alternatives ends
  obtain ⟨body', first, bare'⟩ := exists_readBody printable inner stops .choice opener
  obtain ⟨further, others, bare'', bare'''⟩ :=
    exists_readAlternatives printable' printable'' alternatives ends opener
  exact ⟨condition', _, body', _, further, guarded, first, others, bare, bare', bare'', bare'''⟩
termination_by sizeOf body + sizeOf others + sizeOf otherwise + 1
decreasing_by all_goals omega

theorem exists_readAlternatives {branches : List (Payload × List Block)}
    {otherwise : Option (List Block)} (printable : printableBranches branches = true)
    (printable' : printableOtherwise otherwise = true) {part rest : List Lexeme}
    (printed : Prints (alternativeSlots branches otherwise) part)
    (ends : nextToken rest = .kwEnd) (opener : Span) :
    ∃ further, Reads (readAlternatives opener (part ++ rest)) further rest ∧
      bareBranches further.1 = bareBranches branches ∧
      bareOtherwise further.2 = bareOtherwise otherwise := by
  cases branches with
  | nil =>
      cases otherwise with
      | none =>
          cases prints_nil.mp printed
          have apart : nextToken ([] ++ rest) ≠ .kwElse := by simp [ends]
          exact ⟨([], none), (reads_readAlternatives_of_other apart).mpr ⟨rfl, rfl⟩, rfl, rfl⟩
      | some body =>
          obtain ⟨word, part, rfl, alternative, inner⟩ := (prints_single rfl).mp printed
          obtain ⟨body', reads, bare⟩ :=
            exists_readBody printable' inner (.inl ends) .choice opener
          have unconditional : nextToken (part ++ rest) ≠ .kwIf := by
            simp [newline_of_prints_body inner]
          refine ⟨([], some body'), ?_, rfl, congrArg some bare⟩
          rw [List.cons_append, reads_readAlternatives_of_else alternative unconditional]
          exact ⟨body', reads, by simp [ends], rfl⟩
  | cons branch others =>
      obtain ⟨condition, body, rfl⟩ : ∃ condition body, branch = (condition, body) :=
        ⟨_, _, rfl⟩
      simp only [printableBranches, Bool.and_eq_true] at printable
      rw [alternativeSlots_cons] at printed
      obtain ⟨word, part, rfl, alternative, further⟩ := (prints_single rfl).mp printed
      obtain ⟨word', part, rfl, conditional, further⟩ := (prints_single rfl).mp further
      obtain ⟨condition', _, body', _, further', guarded, first, others', bare, bare', bare'',
        bare'''⟩ := exists_readBranches printable.1.1 printable.1.2 printable.2 printable'
          further ends .furtherCondition opener
      refine ⟨((condition', body') :: further'.1, further'.2), ?_, ?_, bare'''⟩
      · rw [List.cons_append, List.cons_append,
          reads_readAlternatives_of_if alternative conditional]
        exact ⟨condition', _, guarded, body', _, first, further', others', rfl⟩
      · simp only [bareBranches, bare, bare', bare'']
termination_by sizeOf branches + sizeOf otherwise
decreasing_by
  all_goals
    subst_vars
    simp only [List.nil.sizeOf_spec, List.cons.sizeOf_spec, Prod.mk.sizeOf_spec,
      Option.some.sizeOf_spec]
    omega

end

end Bodies

end EntityScript
