import EntityScript.Proofs.BlockCompleteness
import EntityScript.Proofs.Refilling

/-!
What is read can be read again with other payloads: the lexemes of a body or a member may be
refilled, and what is read of them then is alike, with the other payloads in it.
-/

namespace EntityScript

open Source (Span)

/-! ### Blocks that are alike -/

section Alike

variable (R : Payload → Payload → Prop)

mutual

/-- The blocks are the same apart from payloads, and those of the one are related to those of the
other. -/
inductive Block.Alike : Block → Block → Prop
  | statement {payload other} (related : R payload other) :
      Block.Alike (.statement payload) (.statement other)
  | choice {branches branches' otherwise otherwise' span}
      (guarded : BranchesAlike branches branches') (last : OtherwiseAlike otherwise otherwise') :
      Block.Alike (.choice branches otherwise span) (.choice branches' otherwise' span)
  | loop {counter start start' bound bound' body body' span} (lower : R start start')
      (upper : R bound bound') (inside : BodyAlike body body') :
      Block.Alike (.loop counter start bound body span) (.loop counter start' bound' body' span)

inductive BodyAlike : List Block → List Block → Prop
  | nil : BodyAlike [] []
  | cons {block block' rest rest'} (first : Block.Alike block block')
      (further : BodyAlike rest rest') : BodyAlike (block :: rest) (block' :: rest')

inductive BranchesAlike : List (Payload × List Block) → List (Payload × List Block) → Prop
  | nil : BranchesAlike [] []
  | cons {condition condition' body body' rest rest'} (guard : R condition condition')
      (inside : BodyAlike body body') (further : BranchesAlike rest rest') :
      BranchesAlike ((condition, body) :: rest) ((condition', body') :: rest')

inductive OtherwiseAlike : Option (List Block) → Option (List Block) → Prop
  | none : OtherwiseAlike none none
  | some {body body'} (inside : BodyAlike body body') : OtherwiseAlike (some body) (some body')

end

variable {R}

mutual

/-- Blocks whose payloads are the same are the same. -/
theorem Block.Alike.eq {block block' : Block} (alike : Block.Alike Eq block block') :
    block = block' := by
  cases alike with
  | statement related => rw [related]
  | choice guarded last =>
      cases last with
      | none => rw [guarded.eq]
      | some inside => rw [guarded.eq, inside.eq]
  | loop lower upper inside => rw [lower, upper, inside.eq]

theorem BodyAlike.eq {body body' : List Block} (alike : BodyAlike Eq body body') :
    body = body' := by
  cases alike with
  | nil => rfl
  | cons first further => rw [first.eq, further.eq]

theorem BranchesAlike.eq {branches branches' : List (Payload × List Block)}
    (alike : BranchesAlike Eq branches branches') : branches = branches' := by
  cases alike with
  | nil => rfl
  | cons guard inside further => rw [guard, inside.eq, further.eq]

end

variable (R)

structure Property.Alike (property other : Property) : Prop where
  name : property.name = other.name
  kind : property.kind = other.kind
  initializer : Option.Rel R property.initializer other.initializer
  /-- A property ends where its initializer does. -/
  span : property.initializer = other.initializer → property.span = other.span

structure Procedure.Alike (procedure other : Procedure) : Prop where
  parameters : procedure.parameters = other.parameters
  body : BodyAlike R procedure.body other.body
  span : procedure.span = other.span

structure Handler.Alike (handler other : Handler) : Prop where
  event : handler.event = other.event
  parameters : handler.parameters = other.parameters
  body : BodyAlike R handler.body other.body
  span : handler.span = other.span

inductive Member.Alike : Member → Member → Prop
  | property {declared other} (alike : declared.Alike R other) :
      Member.Alike (.property declared) (.property other)
  | init {procedure other} (alike : procedure.Alike R other) :
      Member.Alike (.init procedure) (.init other)
  | tick {procedure other} (alike : procedure.Alike R other) :
      Member.Alike (.tick procedure) (.tick other)
  | render {procedure other} (alike : procedure.Alike R other) :
      Member.Alike (.render procedure) (.render other)
  | handler {declared other} (alike : declared.Alike R other) :
      Member.Alike (.handler declared) (.handler other)

theorem Property.Alike.eq {property other : Property} (alike : property.Alike Eq other) :
    property = other := by
  obtain ⟨name, kind, initializer, span⟩ := property
  obtain ⟨name', kind', initializer', span'⟩ := other
  obtain ⟨rfl, rfl, related, spans⟩ := alike
  have same : initializer = initializer' := by
    cases related with
    | none => rfl
    | some related => rw [related]
  rw [same, show span = span' from spans same]

theorem Procedure.Alike.eq {procedure other : Procedure} (alike : procedure.Alike Eq other) :
    procedure = other := by
  obtain ⟨parameters, body, span⟩ := procedure
  obtain ⟨parameters', body', span'⟩ := other
  obtain ⟨rfl, inside, rfl⟩ := alike
  rw [show body = body' from inside.eq]

theorem Handler.Alike.eq {handler other : Handler} (alike : handler.Alike Eq other) :
    handler = other := by
  obtain ⟨event, parameters, body, span⟩ := handler
  obtain ⟨event', parameters', body', span'⟩ := other
  obtain ⟨rfl, rfl, inside, rfl⟩ := alike
  rw [show body = body' from inside.eq]

theorem Member.Alike.eq {member other : Member} (alike : member.Alike Eq other) :
    member = other := by
  cases alike with
  | property alike => rw [alike.eq]
  | init alike => rw [alike.eq]
  | tick alike => rw [alike.eq]
  | render alike => rw [alike.eq]
  | handler alike => rw [alike.eq]

end Alike

/-! ### First tokens -/

/-- Whether the token can be one of a statement, outside of parentheses. -/
def Token.inStatement (token : Token) : Bool :=
  !(token.endsStatement || token ∈ statementStops)

/-- The lexemes start with the same token, unless both start with one of a statement. -/
def Echoes (lexemes' lexemes : List Lexeme) : Prop :=
  nextToken lexemes' = nextToken lexemes ∨
    (nextToken lexemes').inStatement = true ∧ (nextToken lexemes).inStatement = true

section Echoes

variable {lexemes lexemes' rest rest' : List Lexeme}

theorem Echoes.append (echoes : Echoes rest' rest) (part : List Lexeme) :
    Echoes (part ++ rest') (part ++ rest) := by
  cases part with
  | nil => exact echoes
  | cons => exact .inl rfl

theorem Echoes.eq (echoes : Echoes lexemes' lexemes)
    (other : (nextToken lexemes).inStatement = false) :
    nextToken lexemes' = nextToken lexemes := by
  rcases echoes with same | ⟨_, starts⟩
  · exact same
  · cases other.symm.trans starts

theorem Token.startsBlock_of_inStatement {token : Token}
    (starts : token.inStatement = true) : token.startsBlock = true := by
  cases token <;> first | rfl | cases starts

theorem Echoes.startsBlock (echoes : Echoes lexemes' lexemes)
    (starts : (nextToken lexemes).startsBlock = true) :
    (nextToken lexemes').startsBlock = true := by
  rcases echoes with same | ⟨starts', _⟩
  · rwa [same]
  · exact Token.startsBlock_of_inStatement starts'

theorem Echoes.ne_kwIf (echoes : Echoes lexemes' lexemes)
    (unconditional : nextToken lexemes ≠ .kwIf) : nextToken lexemes' ≠ .kwIf := by
  rcases echoes with same | ⟨starts, _⟩
  · rwa [same]
  · intro found
    rw [found] at starts
    cases starts

end Echoes

/-! ### Payloads -/

section Payloads

variable {R : Payload → Payload → Prop} [Std.Refl R] {lexemes rest : List Lexeme}

theorem endsStatement_of_staysClear {stops : List Token} {depth : Nat} {part : List Lexeme}
    (clear : staysClear stops depth (part.map (·.token)) = true) :
    ∀ lexeme ∈ part, lexeme.token.endsStatement = false := by
  induction part generalizing depth with
  | nil => nofun
  | cons first more inductionHypothesis =>
      obtain ⟨⟨goes, _⟩, further⟩ := staysClear_cons.mp clear
      exact List.forall_mem_cons.mpr ⟨goes, inductionHypothesis further⟩

theorem endsBefore_eq {stop : Token} (depth : Nat) (token : Token) :
    endsBefore stop depth token = (token.endsStatement || (depth = 0 && token ∈ [stop])) := by
  simp [endsBefore, Bool.or_comm]

theorem endsStatementText_eq (depth : Nat) (token : Token) :
    endsStatementText depth token =
      (token.endsStatement || (depth = 0 && token ∈ statementStops)) := by
  cases token <;>
    simp [endsStatementText, statementStops, Token.isStructural, Token.endsStatement]

theorem refillable_payloadUntil {stop : Token} {kind : PayloadKind} {payload : Payload}
    (plain : stop.continues = true) (known : stop ∈ stopsBefore [.word stop])
    (reads : Reads (payloadUntil stop kind lexemes) payload rest) :
    Refillable R lexemes [.payload payload, .word stop] rest fun slots part =>
      ∃ new, slots = [.payload new, .word stop] ∧ R payload new ∧
        ∀ rest', Reads (payloadUntil stop kind (part ++ rest')) new rest' := by
  obtain ⟨first, more, next, split, stops, rfl⟩ := reads_payloadUntil.mp reads
  obtain ⟨rfl, clear, _⟩ := (splitPayload_eq endsBefore_eq).mp split
  have goes := endsStatement_of_staysClear clear
  refine (Refillable.payloadWord goes stops plain).mono ?_
  rintro _ _ ⟨new, rfl, rfl, related, replaces⟩
  refine ⟨new, rfl, related, fun rest' => ?_⟩
  have split' : splitPayload (endsBefore stop) 0 (new.lexemes ++ next :: rest') =
      (new.lexemes, next :: rest') := replaces.split endsBefore_eq (by simpa using known) split rfl
  obtain ⟨first', more', rfl⟩ := replaces.made
  rw [List.append_assoc]
  exact reads_payloadUntil.mpr ⟨first', more', next, split', stops, rfl⟩

theorem refillable_readStatement {payload : Payload}
    (reads : Reads (readStatement lexemes) payload rest) :
    Refillable R lexemes [.payload payload] rest fun slots part =>
      ∃ new, slots = [.payload new] ∧ R payload new ∧ ∃ next more, part = next :: more ∧
        staysClear statementStops 0 (part.map (·.token)) = true ∧
        ∀ rest', Echoes rest' rest → nextToken rest' ≠ .arrow ∧
          Reads (readStatement (part ++ rest')) new rest' := by
  obtain ⟨first, more, split, bounded, rfl⟩ := reads_readStatement.mp reads
  obtain ⟨rfl, clear, stop⟩ := (splitPayload_eq endsStatementText_eq).mp split
  have goes := endsStatement_of_staysClear clear
  have ended : (nextToken rest).inStatement = false := by
    rw [endsStatementText_eq] at stop
    cases ends : (nextToken rest).endsStatement <;> simp_all [Token.inStatement]
  refine (Refillable.payload goes).mono ?_
  rintro _ _ ⟨new, rfl, rfl, related, replaces⟩
  have clear' := replaces.clear statementStops (fun _ among => among) clear
  obtain ⟨first', more', rfl⟩ := replaces.made
  refine ⟨_, rfl, related, first', more', rfl, clear', fun rest' echoes => ?_⟩
  have same := echoes.eq ended
  refine ⟨fun points => ?_, reads_readStatement.mpr ⟨first', more', ?_, same ▸ bounded, rfl⟩⟩
  · rw [← same, points] at bounded
    cases bounded
  · exact replaces.split endsStatementText_eq (fun _ among => among) split same

end Payloads

/-! ### Bodies -/

section Bodies

variable {R : Payload → Payload → Prop}

/-- Terminators stay, and what is behind them still is behind them. -/
theorem refillable_skipTerminators (lexemes : List Lexeme) :
    Refillable R lexemes [.terminators] (skipTerminators lexemes) fun slots part =>
      slots = [.terminators] ∧ ∀ rest', Echoes rest' (skipTerminators lexemes) →
        Echoes (part ++ rest') lexemes ∧ skipTerminators (part ++ rest') = rest' := by
  obtain ⟨part, same, terminate⟩ := exists_skipTerminators lexemes
  have fixed : Refillable R (part ++ skipTerminators lexemes) [.terminators]
      (skipTerminators lexemes) _ := .fixed _ rfl rfl rfl terminate
  rw [← same] at fixed
  refine fixed.mono ?_
  rintro _ part ⟨rfl, rfl⟩
  refine ⟨rfl, fun rest' echoes => ⟨?_, skipTerminators_append terminate ?_⟩⟩
  · rw [same]
    exact echoes.append part
  · have other := other_of_skipTerminators lexemes
    rcases echoes with same | ⟨starts, _⟩
    · rwa [same]
    · obtain ⟨_, _, _, other⟩ := Token.ne_of_startsBlock (Token.startsBlock_of_inStatement starts)
      exact other

theorem Token.ne_of_inStatement {token : Token} (starts : token.inStatement = true) :
    token ≠ .kwIf ∧ token ≠ .kwLoop ∧ token ≠ .kwEntity := by
  refine ⟨?_, ?_, ?_⟩ <;> rintro rfl <;> cases starts

theorem inStatement_of_staysClear {next : Lexeme} {more : List Lexeme}
    (clear : staysClear statementStops 0 ((next :: more).map (·.token)) = true) :
    next.token.inStatement = true := by
  obtain ⟨⟨goes, inside⟩, _⟩ := staysClear_cons.mp clear
  simp [Token.inStatement, goes, inside rfl]

theorem inStatement_of_readStatement {next : Lexeme} {payload : Payload}
    {lexemes rest : List Lexeme}
    (reads : Reads (readStatement (next :: lexemes)) payload rest) :
    next.token.inStatement = true := by
  obtain ⟨first, more, split, _, _⟩ := reads_readStatement.mp reads
  obtain ⟨same, clear, _⟩ := (splitPayload_eq endsStatementText_eq).mp split
  cases same
  exact inStatement_of_staysClear clear

/-- A block that is read anew starts with the same token, unless it is a statement. -/
def Block.Again (R : Payload → Payload → Prop) (block : Block) (next : Lexeme)
    (rest : List Lexeme) (slots : List Slot) (part : List Lexeme) : Prop :=
  ∃ block', block.Alike R block' ∧ slots = block'.slots ∧ ∃ next' more, part = next' :: more ∧
    (∀ inside, Echoes (next' :: inside) [next]) ∧
    ∀ rest', Echoes rest' rest → Reads (readBlock next' (more ++ rest')) block' rest'

mutual

theorem refillable_readBody [Std.Refl R] {kind : BlockKind} {opener : Span} {blocks : List Block}
    {lexemes rest : List Lexeme} (reads : Reads (readBody kind opener lexemes) blocks rest) :
    Refillable R lexemes (bodySlots blocks) rest fun slots part =>
      ∃ blocks', BodyAlike R blocks blocks' ∧ slots = bodySlots blocks' ∧
        ∀ rest', Echoes rest' rest → Echoes (part ++ rest') lexemes ∧
          Reads (readBody kind opener (part ++ rest')) blocks' rest' := by
  obtain ⟨next, more, skipped, cases⟩ := reads_readBody.mp reads
  have shorter : more.length < lexemes.length := length_skipTerminators_cons skipped
  have lead := refillable_skipTerminators (R := R) lexemes
  have other := other_of_skipTerminators lexemes
  rw [skipped] at lead other
  rcases cases with ⟨ends, rfl, rfl⟩ | ⟨unended, unalternative, unfinished, block, middle, first,
    others, further, rfl⟩
  · refine lead.mono ?_
    rintro _ part ⟨rfl, again⟩
    refine ⟨[], .nil, rfl, fun rest' echoes => ?_⟩
    obtain ⟨echoes', skipped'⟩ := again rest' echoes
    have stops : (nextToken (next :: more)).inStatement = false ∧ next.token ≠ .eof := by
      rcases ends with ends | ends <;> simp [ends, Token.inStatement, statementStops]
    obtain ⟨next', more', rfl, same, _⟩ := cons_of_nextToken (echoes.eq stops.1) stops.2
    exact ⟨echoes', reads_readBody.mpr ⟨next', more', skipped', .inl ⟨same ▸ ends, rfl, rfl⟩⟩⟩
  · have shorter' := first.within
    refine (lead.append ((refillable_readBlock first).append (refillable_readBody further))).mono ?_
    rintro _ _ ⟨_, _, part, _, rfl, rfl, ⟨rfl, again⟩, _, _, _, inner, rfl, rfl,
      ⟨block', alike, rfl, next', more', rfl, heads, again'⟩, others', alike', rfl, again''⟩
    refine ⟨block' :: others', .cons alike alike', rfl, fun rest' echoes => ?_⟩
    obtain ⟨echoes', reads'⟩ := again'' rest' echoes
    obtain ⟨echoes'', skipped'⟩ := again (next' :: (more' ++ (inner ++ rest'))) (heads _)
    have starts : next.token.startsBlock = true :=
      Token.startsBlock_of_ne ⟨unended, unalternative, unfinished, other⟩
    obtain ⟨unended', unalternative', unfinished', _⟩ :=
      Token.ne_of_startsBlock ((heads []).startsBlock starts)
    refine ⟨by simpa using echoes'', reads_readBody.mpr ⟨next', _, by simpa using skipped', .inr
      ⟨unended', unalternative', unfinished', block', _, again' _ echoes', others', reads', rfl⟩⟩⟩
termination_by 2 * lexemes.length + 0
decreasing_by all_goals omega

theorem refillable_readBlock [Std.Refl R] {next : Lexeme} {block : Block}
    {lexemes rest : List Lexeme}
    (reads : Reads (readBlock next lexemes) block rest) :
    Refillable R (next :: lexemes) block.slots rest (block.Again R next rest) := by
  by_cases conditional : next.token = .kwIf
  · refine (refillable_readChoice conditional
      ((reads_readBlock_of_if conditional).mp reads)).mono ?_
    rintro _ _ ⟨block', alike, rfl, more, rfl, again⟩
    exact ⟨block', alike, rfl, next, more, rfl, fun _ => .inl rfl,
      fun rest' _ => (reads_readBlock_of_if conditional).mpr (again rest')⟩
  by_cases repeated : next.token = .kwLoop
  · refine (refillable_readLoop repeated ((reads_readBlock_of_loop repeated).mp reads)).mono ?_
    rintro _ _ ⟨block', alike, rfl, more, rfl, again⟩
    exact ⟨block', alike, rfl, next, more, rfl, fun _ => .inl rfl,
      fun rest' _ => (reads_readBlock_of_loop repeated).mpr (again rest')⟩
  · obtain ⟨_, _, payload, statement, rfl⟩ :=
      (reads_readBlock_of_other conditional repeated).mp reads
    have starts := inStatement_of_readStatement statement
    refine (refillable_readStatement statement).mono ?_
    rintro _ _ ⟨new, rfl, related, next', more, rfl, clear, again⟩
    have starts' := inStatement_of_staysClear clear
    obtain ⟨unconditional, unrepeated, nested⟩ := Token.ne_of_inStatement starts'
    refine ⟨.statement new, .statement related, rfl, next', more, rfl,
      fun _ => .inr ⟨starts', starts⟩, fun rest' echoes => ?_⟩
    obtain ⟨unpointed, statement'⟩ := again rest' echoes
    exact (reads_readBlock_of_other unconditional unrepeated).mpr
      ⟨nested, startsMain_of_clear clear (by decide) unpointed, new, statement', rfl⟩
termination_by 2 * lexemes.length + 1
decreasing_by all_goals omega

theorem refillable_readChoice [Std.Refl R] {opener : Lexeme} {block : Block}
    {lexemes rest : List Lexeme}
    (opens : opener.token = .kwIf) (reads : Reads (readChoice opener.span lexemes) block rest) :
    Refillable R (opener :: lexemes) block.slots rest fun slots part =>
      ∃ block', block.Alike R block' ∧ slots = block'.slots ∧ ∃ more, part = opener :: more ∧
        ∀ rest', Reads (readChoice opener.span (more ++ rest')) block' rest' := by
  obtain ⟨condition, inside, guarded, body, behind, first, further, middle, others, _, ended,
    rfl⟩ := reads_readChoice.mp reads
  have shorter := guarded.within
  have shorter' := first.within
  obtain ⟨last, rfl, closes, rfl⟩ := reads_expectEnd.mp ended
  have branches := (refillable_payloadUntil rfl (by decide) guarded).append
    ((refillable_readBody first).append (refillable_readAlternatives others))
  have whole := branches.block opens rfl closes
  simp only [Block.slots, branchSlots, List.cons_append, List.nil_append, List.append_assoc]
    at whole ⊢
  refine whole.mono ?_
  rintro _ _ ⟨_, _, rfl, rfl, _, _, guarding, _, rfl, rfl, ⟨condition', rfl, guard, again⟩, _, _,
    part, part', rfl, rfl, ⟨body', alike, rfl, again'⟩, further', alike', alike'', rfl, again''⟩
  refine ⟨.choice ((condition', body') :: further'.1) further'.2 (opener.span.union last.span),
    .choice (.cons guard alike alike') alike'', by simp [Block.slots, branchSlots],
    guarding ++ (part ++ part') ++ [last], rfl, fun rest' => ?_⟩
  obtain ⟨same, reads''⟩ := again'' (last :: rest') rfl
  have reads' := (again' _ (.inl same)).2
  rw [List.append_assoc, List.append_assoc, List.append_assoc]
  exact reads_readChoice.mpr ⟨condition', _, again _, body', _, reads', further', _, reads'',
    last.span, reads_expectEnd.mpr ⟨last, rfl, closes, rfl⟩, rfl⟩
termination_by 2 * lexemes.length + 0
decreasing_by all_goals omega

theorem refillable_readAlternatives [Std.Refl R] {opener : Span}
    {further : List (Payload × List Block) × Option (List Block)} {lexemes rest : List Lexeme}
    (reads : Reads (readAlternatives opener lexemes) further rest) :
    Refillable R lexemes (branchSlots [.word .kwElse, .word .kwIf] further.1 ++
      otherwiseSlots further.2) rest fun slots part =>
      ∃ further' : List (Payload × List Block) × Option (List Block),
        BranchesAlike R further.1 further'.1 ∧ OtherwiseAlike R further.2 further'.2 ∧
        slots = branchSlots [.word .kwElse, .word .kwIf] further'.1 ++
          otherwiseSlots further'.2 ∧
        ∀ rest', nextToken rest' = nextToken rest → nextToken (part ++ rest') = nextToken lexemes ∧
          Reads (readAlternatives opener (part ++ rest')) further' rest' := by
  by_cases alternative : nextToken lexemes = .kwElse
  · obtain ⟨next, more, same, found, shorter⟩ := cons_of_nextToken alternative nofun
    rw [same] at reads ⊢
    by_cases conditional : nextToken more = .kwIf
    · obtain ⟨inner, inside, same', found', shorter'⟩ := cons_of_nextToken conditional nofun
      rw [same'] at reads ⊢
      obtain ⟨condition, inside, guarded, body, behind, first, others, last, rfl⟩ :=
        (reads_readAlternatives_of_if found found').mp reads
      have shorter'' := guarded.within
      have shorter''' := first.within
      have branches := (refillable_payloadUntil rfl (by decide) guarded).append
        ((refillable_readBody first).append (refillable_readAlternatives last))
      have whole := (branches.word found' rfl).word found rfl
      simp only [branchSlots, List.cons_append, List.nil_append, List.append_assoc] at whole ⊢
      refine whole.mono ?_
      rintro _ _ ⟨_, _, rfl, rfl, _, _, rfl, rfl, _, _, guarding, _, rfl, rfl,
        ⟨condition', rfl, guard, again⟩, _, _, part, part', rfl, rfl, ⟨body', alike, rfl, again'⟩,
        further', alike', alike'', rfl, again''⟩
      refine ⟨((condition', body') :: further'.1, further'.2), .cons guard alike alike', alike'',
        by simp [branchSlots], fun rest' same => ⟨rfl, ?_⟩⟩
      obtain ⟨same, reads''⟩ := again'' rest' same
      have reads' := (again' _ (.inl same)).2
      rw [List.cons_append, List.cons_append, List.append_assoc, List.append_assoc]
      exact (reads_readAlternatives_of_if found found').mpr
        ⟨condition', _, again _, body', _, reads', further', reads'', rfl⟩
    · obtain ⟨body, inner, closed, rfl⟩ :=
        (reads_readAlternatives_of_else found conditional).mp reads
      refine Refillable.mono ((refillable_readBody inner).word found rfl) ?_
      rintro _ _ ⟨_, _, rfl, rfl, body', alike, rfl, again⟩
      refine ⟨([], some body'), .nil, .some alike, rfl, fun rest' same => ⟨rfl, ?_⟩⟩
      obtain ⟨echoes, reads'⟩ := again rest' (.inl same)
      exact (reads_readAlternatives_of_else found (echoes.ne_kwIf conditional)).mpr
        ⟨body', reads', same ▸ closed, rfl⟩
  · obtain ⟨rfl, rfl⟩ := (reads_readAlternatives_of_other alternative).mp reads
    refine Refillable.nil.mono ?_
    rintro _ _ ⟨rfl, rfl⟩
    exact ⟨([], none), .nil, .none, rfl, fun rest' same =>
      ⟨same, (reads_readAlternatives_of_other (same ▸ alternative)).mpr ⟨rfl, rfl⟩⟩⟩
termination_by 2 * lexemes.length + 0
decreasing_by all_goals omega

theorem refillable_readLoop [Std.Refl R] {opener : Lexeme} {block : Block}
    {lexemes rest : List Lexeme}
    (opens : opener.token = .kwLoop) (reads : Reads (readLoop opener.span lexemes) block rest) :
    Refillable R (opener :: lexemes) block.slots rest fun slots part =>
      ∃ block', block.Alike R block' ∧ slots = block'.slots ∧ ∃ more, part = opener :: more ∧
        ∀ rest', Reads (readLoop opener.span (more ++ rest')) block' rest' := by
  obtain ⟨counter, named, counted, origin, started, from_, start, bounded, lower, bound, inside,
    upper, body, behind, inner, _, ended, rfl⟩ := reads_readLoop.mp reads
  have shorter := counted.within
  have shorter' := from_.within
  have shorter'' := lower.within
  have shorter''' := upper.within
  obtain ⟨name, rfl, found, position⟩ := reads_expectName.mp counted
  obtain ⟨word, rfl, found', position'⟩ := reads_expectWord.mp from_
  obtain ⟨last, rfl, closes, rfl⟩ := reads_expectEnd.mp ended
  have range := (refillable_payloadUntil rfl (by decide) lower).append
    ((refillable_payloadUntil rfl (by decide) upper).append (refillable_readBody inner))
  have whole := ((range.word found' rfl).word found rfl).block opens rfl closes
  simp only [Block.slots, List.cons_append, List.nil_append] at whole ⊢
  refine whole.mono ?_
  rintro _ _ ⟨_, _, rfl, rfl, _, _, rfl, rfl, _, _, rfl, rfl, _, _, starting, _, rfl, rfl,
    ⟨start', rfl, lower', again⟩, _, _, bounding, part, rfl, rfl, ⟨bound', rfl, upper', again'⟩,
    body', alike, rfl, again''⟩
  refine ⟨.loop counter.1 start' bound' body' (opener.span.union last.span),
    .loop lower' upper' alike, by simp [Block.slots],
    name :: word :: (starting ++ (bounding ++ part)) ++ [last], rfl, fun rest' => ?_⟩
  have reads'' := (again'' (last :: rest') (.inl rfl)).2
  rw [List.cons_append, List.cons_append, List.cons_append, List.cons_append, List.append_assoc,
    List.append_assoc, List.append_assoc]
  exact reads_readLoop.mpr ⟨counter, _, reads_expectName.mpr ⟨name, rfl, found, position⟩, origin,
    _, reads_expectWord.mpr ⟨word, rfl, found', position'⟩, start', _, again _, bound', _,
    again' _, body', _, reads'', last.span, reads_expectEnd.mpr ⟨last, rfl, closes, rfl⟩, rfl⟩
termination_by 2 * lexemes.length + 0
decreasing_by all_goals omega

end

end Bodies

end EntityScript
