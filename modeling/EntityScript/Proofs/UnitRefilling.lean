import EntityScript.Proofs.BlockRefilling
import EntityScript.Proofs.UnitCompleteness
import EntityScript.Proofs.UnitSoundness

/-!
A unit that is accepted is accepted with other payloads and marks in the slots of its account as
well, and its declarations are what it was with those in their places.
-/

namespace EntityScript

open Source (Span)

variable {R : Payload → Payload → Prop}

/-! ### Parameters -/

section Parameters

variable {lexemes rest : List Lexeme}

theorem reads_skipAnnotations {part : List Lexeme}
    (annotated : annotates (part.map (·.token)) = true)
    (plain : (nextToken rest).opensAnnotations = false) :
    Reads (skipAnnotations (part ++ rest)) () rest := by
  generalize tokens : part.map (·.token) = marks at annotated
  fun_induction annotates marks generalizing part with
  | case1 =>
      cases List.map_eq_nil_iff.mp tokens
      exact (reads_skipAnnotations_of_none plain).mpr rfl
  | case2 measure marks inductionHypothesis =>
      obtain ⟨unit, part, rfl, found, further⟩ := List.map_eq_cons_iff.mp tokens
      exact (reads_skipAnnotations_of_unit found).mpr (inductionHypothesis further annotated)
  | case3 word marks inductionHypothesis =>
      obtain ⟨colon, _, rfl, found, named⟩ := List.map_eq_cons_iff.mp tokens
      obtain ⟨name, part, rfl, found', further⟩ := List.map_eq_cons_iff.mp named
      exact (reads_skipAnnotations_of_colon found).mpr ⟨(word, name.span), _,
        reads_expectName.mpr ⟨name, rfl, found', rfl⟩, inductionHypothesis further annotated⟩
  | case4 => cases annotated

theorem refillable_skipAnnotations (reads : Reads (skipAnnotations lexemes) () rest) :
    Refillable R lexemes [.annotations] rest fun slots part =>
      slots = [.annotations] ∧ ∀ rest', (nextToken rest').opensAnnotations = false →
        Reads (skipAnnotations (part ++ rest')) () rest' := by
  obtain ⟨part, rfl, annotated⟩ := exists_skipAnnotations reads
  refine (Refillable.marked .annotations rfl rfl annotated).mono ?_
  rintro _ _ ⟨rfl, annotated'⟩
  exact ⟨rfl, fun rest' plain => reads_skipAnnotations annotated' plain⟩

theorem refillable_readParameterNames {seen names : List String} {lexemes rest : List Lexeme}
    (reads : Reads (readParameterNames seen lexemes) names rest) :
    Refillable R lexemes (nameSlots names ++ [.word .rightParen]) rest fun slots part =>
      slots = nameSlots names ++ [.word .rightParen] ∧
        ∀ rest', nextToken (part ++ rest') = nextToken lexemes ∧
          Reads (readParameterNames seen (part ++ rest')) names rest' := by
  obtain ⟨name, behind, named, fresh, middle, skipped, next, more, rfl, cases⟩ :=
    reads_readParameterNames.mp reads
  have shorter := named.within
  have shorter' := skipped.within
  obtain ⟨word, rfl, found, position⟩ := reads_expectName.mp named
  have lead := refillable_skipAnnotations (R := R) skipped
  have named' (rest') : Reads (expectName (word :: rest')) name rest' :=
    reads_expectName.mpr ⟨word, rfl, found, position⟩
  rcases cases with ⟨separates, others, further, rfl⟩ | ⟨closes, rfl, rfl⟩
  · obtain ⟨second, others, rfl⟩ :=
      List.exists_cons_of_ne_nil (laid_readParameterNames further).2
    have whole := lead.append ((refillable_readParameterNames further).word separates rfl)
    refine (whole.word found rfl).mono ?_
    rintro _ _ ⟨_, _, rfl, rfl, _, _, part, _, rfl, rfl, ⟨rfl, again⟩, _, listing, rfl, rfl, rfl,
      again'⟩
    refine ⟨rfl, fun rest' => ⟨rfl, reads_readParameterNames.mpr
      ⟨name, part ++ next :: listing ++ rest', named' _, fresh, next :: (listing ++ rest'), ?_,
        next, _, rfl, .inl ⟨separates, _, (again' rest').2, rfl⟩⟩⟩⟩
    rw [List.append_assoc]
    exact again _ (by rw [List.cons_append, nextToken_cons, separates]; rfl)
  · have whole := lead.append (Refillable.nil.word closes rfl)
    refine (whole.word found rfl).mono ?_
    rintro _ _ ⟨_, _, rfl, rfl, _, _, part, _, rfl, rfl, ⟨rfl, again⟩, _, _, rfl, rfl, rfl, rfl⟩
    refine ⟨rfl, fun rest' => ⟨rfl, reads_readParameterNames.mpr
      ⟨name, part ++ [next] ++ rest', named' _, fresh, next :: rest', ?_, next, rest', rfl,
        .inr ⟨closes, rfl, rfl⟩⟩⟩⟩
    rw [List.append_assoc]
    exact again _ (by rw [List.cons_append, nextToken_cons, closes]; rfl)
termination_by lexemes.length
decreasing_by simp only [List.length_cons] at *; omega

theorem refillable_readParameters {names : List String}
    (reads : Reads (readParameters lexemes) names rest) :
    Refillable R lexemes (parameterSlots names) rest fun slots part =>
      slots = parameterSlots names ∧ ∀ rest', nextToken (part ++ rest') = .leftParen ∧
        Reads (readParameters (part ++ rest')) names rest' := by
  obtain ⟨opening, more, rfl, opens, ⟨closing, rfl, closes, rfl⟩ | ⟨unclosed, listed⟩⟩ :=
    reads_readParameters.mp reads
  · refine ((Refillable.nil.word closes rfl).word opens rfl).mono ?_
    rintro _ _ ⟨_, _, rfl, rfl, _, _, rfl, rfl, rfl, rfl⟩
    exact ⟨rfl, fun rest' => ⟨opens, reads_readParameters.mpr
      ⟨opening, _, rfl, opens, .inl ⟨closing, rfl, closes, rfl⟩⟩⟩⟩
  · refine ((refillable_readParameterNames listed).word opens rfl).mono ?_
    rintro _ _ ⟨_, listing, rfl, rfl, rfl, again⟩
    refine ⟨rfl, fun rest' => ⟨opens, reads_readParameters.mpr
      ⟨opening, listing ++ rest', rfl, opens, .inr ⟨?_, (again rest').2⟩⟩⟩⟩
    rw [(again rest').1]
    exact unclosed

theorem refillable_readOptionalParameters {name : String} {names : List String}
    (reads : Reads (readOptionalParameters lexemes) (name :: names) rest) :
    Refillable R lexemes (parameterSlots (name :: names)) rest fun slots part =>
      slots = parameterSlots (name :: names) ∧
        ∀ rest', Reads (readOptionalParameters (part ++ rest')) (name :: names) rest' := by
  by_cases opens : nextToken lexemes = .leftParen
  · have parameters := (reads_readOptionalParameters_of_some opens).mp reads
    refine (refillable_readParameters parameters).mono ?_
    rintro _ _ ⟨rfl, again⟩
    refine ⟨rfl, fun rest' => ?_⟩
    obtain ⟨opens', listed⟩ := again rest'
    exact (reads_readOptionalParameters_of_some opens').mpr listed
  · obtain ⟨empty, _⟩ := (reads_readOptionalParameters_of_none opens).mp reads
    cases empty

theorem reads_noParameters {part : List Lexeme}
    (empty : part = [] ∨ part.map (·.token) = [.leftParen, .rightParen])
    (plain : nextToken rest ≠ .leftParen) :
    Reads (readOptionalParameters (part ++ rest)) [] rest := by
  rcases empty with rfl | tokens
  · exact (reads_readOptionalParameters_of_none plain).mpr ⟨rfl, rfl⟩
  · obtain ⟨opening, _, rfl, opens, closed⟩ := List.map_eq_cons_iff.mp tokens
    obtain ⟨closing, _, rfl, closes, done⟩ := List.map_eq_cons_iff.mp closed
    cases List.map_eq_nil_iff.mp done
    have listed : nextToken (opening :: closing :: rest) = .leftParen := opens
    exact (reads_readOptionalParameters_of_some listed).mpr (reads_readParameters.mpr
      ⟨opening, _, rfl, opens, .inl ⟨closing, rfl, closes, rfl⟩⟩)

theorem refillable_noParameters (reads : Reads (readOptionalParameters lexemes) [] rest) :
    Refillable R lexemes [.noParameters] rest fun slots part => slots = [.noParameters] ∧
      ∀ rest', nextToken rest' ≠ .leftParen →
        Reads (readOptionalParameters (part ++ rest')) [] rest' := by
  obtain ⟨part, rfl, empty⟩ := exists_noParameters reads
  refine (Refillable.fixed .noParameters rfl rfl rfl empty).mono ?_
  rintro _ _ ⟨rfl, rfl⟩
  exact ⟨rfl, fun rest' plain => reads_noParameters empty plain⟩

/-- Whether these are the parameters of a tick with such a delta. -/
def Deltas (delta : String) (parameters : List String) : Prop :=
  parameters = [] ∧ delta = defaultDeltaName ∨ parameters = [delta]

theorem exists_reads_delta {delta : String} {part : List Lexeme}
    (fits : (Slot.delta delta).Fits part) (plain : nextToken rest ≠ .leftParen) :
    ∃ parameters, Deltas delta parameters ∧
      Reads (readOptionalParameters (part ++ rest)) parameters rest := by
  rcases fits with ⟨rfl, empty⟩ | ⟨marks, annotated, tokens⟩
  · exact ⟨[], .inl ⟨rfl, rfl⟩, reads_noParameters empty plain⟩
  · obtain ⟨opening, _, rfl, opens, named⟩ := List.map_eq_cons_iff.mp tokens
    obtain ⟨name, _, rfl, found, marked⟩ := List.map_eq_cons_iff.mp named
    obtain ⟨part, _, rfl, rfl, closed⟩ := List.map_eq_append_iff.mp marked
    obtain ⟨closing, _, rfl, closes, done⟩ := List.map_eq_cons_iff.mp closed
    cases List.map_eq_nil_iff.mp done
    refine ⟨[delta], .inr rfl, ?_⟩
    have listed : nextToken (opening :: name :: (part ++ ([closing] ++ rest))) = .leftParen := opens
    rw [List.cons_append, List.cons_append, List.append_assoc,
      reads_readOptionalParameters_of_some listed, reads_readParameters]
    refine ⟨opening, _, rfl, opens, .inr ⟨?_, ?_⟩⟩
    · rw [nextToken_cons, found]
      nofun
    · refine reads_readParameterNames.mpr ⟨(delta, name.span), part ++ ([closing] ++ rest),
        reads_expectName.mpr ⟨name, rfl, found, rfl⟩, List.not_mem_nil, closing :: rest, ?_,
        closing, rest, rfl, .inr ⟨closes, rfl, rfl⟩⟩
      exact reads_skipAnnotations annotated (by rw [List.cons_append, nextToken_cons, closes]; rfl)

theorem refillable_delta {delta : String} {parameters : List String}
    (deltas : Deltas delta parameters)
    (reads : Reads (readOptionalParameters lexemes) parameters rest) :
    Refillable R lexemes [.delta delta] rest fun slots part => slots = [.delta delta] ∧
      ∀ rest', nextToken rest' ≠ .leftParen → ∃ parameters, Deltas delta parameters ∧
        Reads (readOptionalParameters (part ++ rest')) parameters rest' := by
  have header : ∃ part, lexemes = part ++ rest ∧ (Slot.delta delta).Fits part := by
    rcases deltas with ⟨rfl, rfl⟩ | rfl
    · obtain ⟨part, same, empty⟩ := exists_noParameters reads
      exact ⟨part, same, .inl ⟨rfl, empty⟩⟩
    · obtain ⟨part, marks, same, annotated, tokens⟩ := exists_delta reads
      exact ⟨part, same, .inr ⟨marks, annotated, tokens⟩⟩
  obtain ⟨part, rfl, fits⟩ := header
  refine (Refillable.marked (.delta delta) rfl rfl fits).mono ?_
  rintro _ _ ⟨rfl, fits'⟩
  exact ⟨rfl, fun rest' plain => exists_reads_delta fits' plain⟩

end Parameters

/-! ### Members -/

section Members

variable [Std.Refl R] {lexemes middle rest : List Lexeme}

theorem refillable_readProcedure {kind : BlockKind} {opener : Lexeme} {token : Token}
    {parameters : List String} {procedure : Procedure} {slots : List Slot}
    {good : List Slot → List Lexeme → Prop} (opens : opener.token = token)
    (plain : token.continues = true) (header : Refillable R lexemes slots middle good)
    (reads : Reads (readProcedure kind opener.span parameters middle) procedure rest) :
    Refillable R (opener :: lexemes)
      (.opening token :: slots ++ procedureSlots procedure.body procedure.span) rest
      fun slots' part => ∃ others before behind procedure', procedure.Alike R procedure' ∧
        procedure'.parameters = parameters ∧
        slots' = .opening token :: others ++ procedureSlots procedure'.body procedure'.span ∧
        part = opener :: (before ++ behind) ∧ good others before ∧
        ∀ rest', nextToken (behind ++ rest') = .arrow ∧
          Reads (readProcedure kind opener.span parameters (behind ++ rest')) procedure' rest' := by
  obtain ⟨_, inside, pointed, body, behind, inner, _, ended, rfl⟩ := reads_readProcedure.mp reads
  obtain ⟨arrow, rfl, points, _⟩ := reads_expect.mp pointed
  obtain ⟨last, rfl, closes, rfl⟩ := reads_expectEnd.mp ended
  have whole :=
    (header.append ((refillable_readBody inner).word points rfl)).block opens plain closes
  simp only [procedureSlots, List.cons_append, List.append_assoc] at whole ⊢
  refine whole.mono ?_
  rintro _ _ ⟨_, _, rfl, rfl, others, _, before, _, rfl, rfl, held, _, part, rfl, rfl, body', alike,
    rfl, again⟩
  refine ⟨others, before, arrow :: (part ++ [last]),
    ⟨parameters, body', opener.span.union last.span⟩, ⟨rfl, alike, rfl⟩, rfl, by simp, by simp,
    held, fun rest' => ⟨points, reads_readProcedure.mpr ?_⟩⟩
  rw [List.cons_append, List.append_assoc]
  exact ⟨arrow.span, _, reads_expect.mpr ⟨arrow, rfl, points, rfl⟩, body', _,
    (again (last :: rest') (.inl rfl)).2, last.span,
    reads_expectEnd.mpr ⟨last, rfl, closes, rfl⟩, rfl⟩

theorem endsInitializer_eq (depth : Nat) (token : Token) :
    endsInitializer depth token = (token.endsStatement || (depth = 0 && token ∈ [.kwEnd])) := by
  simp [endsInitializer]

theorem refillable_readInitializer {property : String} {initializer : Option Payload}
    (reads : Reads (readInitializer property lexemes) initializer rest) :
    Refillable R lexemes (initializer.elim [] fun payload => [.word .assign, .payload payload]) rest
      fun slots part => ∃ initializer', Option.Rel R initializer initializer' ∧
        slots = (initializer'.elim [] fun payload => [.word .assign, .payload payload]) ∧
        ∀ rest', nextToken rest' = nextToken rest →
          ((nextToken rest').opensAnnotations = false →
            (nextToken (part ++ rest')).opensAnnotations = false) ∧
          Reads (readInitializer property (part ++ rest')) initializer' rest' := by
  by_cases assigned : nextToken lexemes = .assign
  · obtain ⟨sign, more, rfl, assigns, _⟩ := cons_of_nextToken assigned nofun
    obtain ⟨first, others, split, rfl⟩ := (reads_readInitializer_of_some assigns).mp reads
    obtain ⟨rfl, clear, _⟩ := (splitPayload_eq endsInitializer_eq).mp split
    have goes := endsStatement_of_staysClear clear
    refine ((Refillable.payload goes).word assigns rfl).mono ?_
    rintro _ _ ⟨_, _, rfl, rfl, new, rfl, rfl, related, replaces⟩
    refine ⟨some new, .some related, rfl, fun rest' same => ⟨fun _ => ?_, ?_⟩⟩
    · rw [List.cons_append, nextToken_cons, assigns]
      rfl
    · have split' : splitPayload endsInitializer 0 (new.lexemes ++ rest') = (new.lexemes, rest') :=
        replaces.split endsInitializer_eq (by simp [statementStops]) split same
      obtain ⟨first', more', rfl⟩ := replaces.made
      exact (reads_readInitializer_of_some assigns).mpr ⟨first', more', split', rfl⟩
  · obtain ⟨rfl, rfl⟩ := (reads_readInitializer_of_none assigned).mp reads
    refine Refillable.nil.mono ?_
    rintro _ _ ⟨rfl, rfl⟩
    refine ⟨none, .none, rfl, fun rest' same => ⟨id, ?_⟩⟩
    exact (reads_readInitializer_of_none (same ▸ assigned)).mpr ⟨rfl, rfl⟩

theorem Member.slots_property (name : String) (kind : PropertyKind) (initializer : Option Payload)
    (span : Span) :
    (Member.property ⟨name, kind, initializer, span⟩).slots =
      .word (.name kind.word) :: .word (.name name) :: .annotations ::
        initializer.elim [] fun payload => [.word .assign, .payload payload] := by
  cases initializer <;> rfl

theorem refillable_readProperty {kind : PropertyKind} {opener : Lexeme} {property : Property}
    (opens : opener.token = .name kind.word)
    (reads : Reads (readProperty kind opener.span lexemes) property rest) :
    Refillable R (opener :: lexemes) (Member.property property).slots rest fun slots part =>
      ∃ property', property.Alike R property' ∧ slots = (Member.property property').slots ∧
        ∃ more, part = opener :: more ∧ ∀ rest', Echoes rest' rest →
          Reads (readProperty kind opener.span (more ++ rest')) property' rest' := by
  obtain ⟨name, behind, named, middle, skipped, initializer, initialized, ended, rfl⟩ :=
    reads_readProperty.mp reads
  obtain ⟨word, rfl, found, position⟩ := reads_expectName.mp named
  have stops : (nextToken rest).inStatement = false ∧
      (nextToken rest).opensAnnotations = false := by
    generalize nextToken rest = token at ended
    cases token <;> first | exact ⟨rfl, rfl⟩ | cases ended
  have whole := (((refillable_skipAnnotations (R := R) skipped).append
    (refillable_readInitializer initialized)).word found rfl).word opens rfl
  rw [Member.slots_property]
  refine whole.mono ?_
  rintro _ _ ⟨_, _, rfl, rfl, _, _, rfl, rfl, _, _, marks, part, rfl, rfl, ⟨rfl, again⟩,
    initializer', related, rfl, again'⟩
  refine ⟨⟨name.1, kind, initializer', opener.span.union (initializer'.elim name.2 Payload.span)⟩,
    ⟨rfl, rfl, related, fun same => by cases same; rfl⟩, (Member.slots_property _ _ _ _).symm,
    word :: (marks ++ part), rfl, fun rest' echoes => reads_readProperty.mpr ?_⟩
  have same := echoes.eq stops.1
  obtain ⟨plain, initialized'⟩ := again' rest' same
  rw [List.cons_append, List.append_assoc]
  exact ⟨name, _, reads_expectName.mpr ⟨word, rfl, found, position⟩, _,
    again _ (plain (same ▸ stops.2)), initializer', initialized', same ▸ ended, rfl⟩

theorem refillable_readTick {opener : Lexeme} {procedure : Procedure}
    (opens : opener.token = .name "tick")
    (reads : Reads (readTick opener.span lexemes) procedure rest) :
    Refillable R (opener :: lexemes) (Member.tick procedure).slots rest fun slots part =>
      ∃ procedure', procedure.Alike R procedure' ∧ slots = (Member.tick procedure').slots ∧
        ∃ more, part = opener :: more ∧
          ∀ rest', Reads (readTick opener.span (more ++ rest')) procedure' rest' := by
  obtain ⟨parameters, behind, listed, delta, deltas, inner⟩ := reads_readTick.mp reads
  have named := parameters_readProcedure inner
  obtain ⟨parameters', body, span⟩ := procedure
  cases named
  refine (refillable_readProcedure opens rfl (refillable_delta deltas listed) inner).mono ?_
  rintro _ _ ⟨_, before, behind', procedure', alike, named, rfl, rfl, ⟨rfl, again⟩, again'⟩
  obtain ⟨_, body', span'⟩ := procedure'
  cases named
  refine ⟨_, alike, rfl, before ++ behind', rfl, fun rest' => ?_⟩
  obtain ⟨points, inner'⟩ := again' rest'
  obtain ⟨parameters', deltas', listed'⟩ := again (behind' ++ rest') (by simp [points])
  rw [List.append_assoc]
  exact reads_readTick.mpr ⟨parameters', _, listed', delta, deltas', inner'⟩

theorem refillable_readHandler {opener : Lexeme} {handler : Handler}
    (opens : opener.token = .name "on")
    (reads : Reads (readHandler opener.span lexemes) handler rest) :
    Refillable R (opener :: lexemes) (Member.handler handler).slots rest fun slots part =>
      ∃ handler', handler.Alike R handler' ∧ slots = (Member.handler handler').slots ∧
        ∃ more, part = opener :: more ∧
          ∀ rest', Reads (readHandler opener.span (more ++ rest')) handler' rest' := by
  obtain ⟨event, more, rfl, name, found, parameters, behind, listed, ⟨names, body, span⟩, inner,
    rfl⟩ := reads_readHandler.mp reads
  cases parameters_readProcedure inner
  cases names with
  | nil =>
      have header := (refillable_noParameters (R := R) listed).word found rfl
      refine (refillable_readProcedure opens rfl header inner).mono ?_
      rintro _ _ ⟨_, _, behind', ⟨_, body', span'⟩, ⟨_, alike, spans⟩, named, rfl, rfl,
        ⟨_, before, rfl, rfl, rfl, again⟩, again'⟩
      cases named
      refine ⟨⟨name, [], body', span'⟩, ⟨rfl, rfl, alike, spans⟩, rfl, _, rfl, fun rest' => ?_⟩
      obtain ⟨points, inner'⟩ := again' rest'
      rw [List.cons_append, List.cons_append, List.append_assoc]
      exact reads_readHandler.mpr ⟨event, _, rfl, name, found, [], _,
        again (behind' ++ rest') (by simp [points]), _, inner', rfl⟩
  | cons first others =>
      have header := (refillable_readOptionalParameters (R := R) listed).word found rfl
      refine (refillable_readProcedure opens rfl header inner).mono ?_
      rintro _ _ ⟨_, _, behind', ⟨_, body', span'⟩, ⟨_, alike, spans⟩, named, rfl, rfl,
        ⟨_, before, rfl, rfl, rfl, again⟩, again'⟩
      cases named
      refine ⟨⟨name, first :: others, body', span'⟩, ⟨rfl, rfl, alike, spans⟩, rfl, _, rfl,
        fun rest' => ?_⟩
      rw [List.cons_append, List.cons_append, List.append_assoc]
      exact reads_readHandler.mpr ⟨event, _, rfl, name, found, _, _, again _, _,
        (again' rest').2, rfl⟩

theorem refillable_readMember {entity : String} {next : Lexeme} {member : Member}
    (reads : Reads (readMember entity next lexemes) member rest) :
    Refillable R (next :: lexemes) member.slots rest fun slots part =>
      ∃ member', member.Alike R member' ∧ slots = member'.slots ∧ ∃ more, part = next :: more ∧
        ∀ entity' rest', Echoes rest' rest →
          Reads (readMember entity' next (more ++ rest')) member' rest' := by
  rcases reads_readMember.mp reads with ⟨kind, opens, property, inner, rfl⟩ |
    ⟨opens, parameters, behind, listed, ⟨_, body, span⟩, inner, rfl⟩ |
    ⟨opens, procedure, inner, rfl⟩ | ⟨opens, procedure, inner, rfl⟩ | ⟨opens, handler, inner, rfl⟩
  · refine (refillable_readProperty opens inner).mono ?_
    rintro _ _ ⟨property', alike, rfl, more, rfl, again⟩
    exact ⟨_, .property alike, rfl, more, rfl, fun _ rest' echoes => reads_readMember.mpr
      (.inl ⟨kind, opens, property', again rest' echoes, rfl⟩)⟩
  · cases parameters_readProcedure inner
    refine (refillable_readProcedure opens rfl (refillable_readParameters listed) inner).mono ?_
    rintro _ _ ⟨_, before, behind', ⟨_, body', span'⟩, alike, named, rfl, rfl, ⟨rfl, again⟩, again'⟩
    cases named
    refine ⟨_, .init alike, rfl, before ++ behind', rfl, fun _ rest' _ => reads_readMember.mpr
      (.inr (.inl ⟨opens, _, behind' ++ rest', ?_, _, (again' rest').2, rfl⟩))⟩
    rw [List.append_assoc]
    exact (again _).2
  · refine (refillable_readTick opens inner).mono ?_
    rintro _ _ ⟨procedure', alike, rfl, more, rfl, again⟩
    exact ⟨_, .tick alike, rfl, more, rfl, fun _ rest' _ => reads_readMember.mpr
      (.inr (.inr (.inl ⟨opens, procedure', again rest', rfl⟩)))⟩
  · obtain ⟨behind, listed, inner⟩ := reads_readRender.mp inner
    cases procedure
    refine (refillable_readProcedure opens rfl (refillable_noParameters listed) inner).mono ?_
    rintro _ _ ⟨_, before, behind', ⟨_, body', span'⟩, alike, named, rfl, rfl, ⟨rfl, again⟩, again'⟩
    refine ⟨_, .render alike, rfl, before ++ behind', rfl, fun _ rest' _ => reads_readMember.mpr
      (.inr (.inr (.inr (.inl ⟨opens, _, ?_, rfl⟩))))⟩
    obtain ⟨points, inner'⟩ := again' rest'
    rw [List.append_assoc]
    exact reads_readRender.mpr ⟨behind' ++ rest', again _ (by simp [points]), inner'⟩
  · refine (refillable_readHandler opens inner).mono ?_
    rintro _ _ ⟨handler', alike, rfl, more, rfl, again⟩
    exact ⟨_, .handler alike, rfl, more, rfl, fun _ rest' _ => reads_readMember.mpr
      (.inr (.inr (.inr (.inr ⟨opens, handler', again rest', rfl⟩))))⟩

end Members

/-! ### Entities and units -/

section Units

variable (R)

/-- Items are the same apart from payloads, and those of the one are related to those of the
other. -/
inductive Item.Alike : Item → Item → Prop
  | main {body body' span} (alike : BodyAlike R body body') :
      Item.Alike (.main body span) (.main body' span)
  | entity {name members members' span} (alike : List.Forall₂ (Member.Alike R) members members') :
      Item.Alike (.entity name members span) (.entity name members' span)

variable {R}

theorem exists_name_of_readMember {entity : String} {next : Lexeme} {member : Member}
    {lexemes rest : List Lexeme} (reads : Reads (readMember entity next lexemes) member rest) :
    ∃ word, next.token = .name word := by
  rcases reads_readMember.mp reads with ⟨_, opens, _⟩ | ⟨opens, _⟩ | ⟨opens, _⟩ | ⟨opens, _⟩ |
    ⟨opens, _⟩ <;> exact ⟨_, opens⟩

theorem Member.Alike.kind {member other : Member} (alike : member.Alike R other) :
    other.kind = member.kind := by
  cases alike with
  | property alike => exact congrArg MemberKind.property alike.name.symm
  | handler alike => exact congrArg MemberKind.handler alike.event.symm
  | init | tick | render => rfl

theorem EntityBlock.has_put_congr {entity entity' : EntityBlock} {member member' : Member}
    (same : ∀ kind, entity'.has kind = entity.has kind) (kinds : member'.kind = member.kind)
    (kind : MemberKind) : (entity'.put member').has kind = (entity.put member).has kind := by
  rw [Bool.eq_iff_iff, EntityBlock.has_put, EntityBlock.has_put, same, kinds]

variable [Std.Refl R]

theorem Lists.refillable {opener : Span} {entity finished : EntityBlock}
    {lexemes rest : List Lexeme} {members : List Member} {last : Lexeme}
    (lists : Lists opener entity lexemes members finished last rest) :
    Refillable R lexemes (linesOf (members.map Member.slots)) (last :: rest) fun slots part =>
      ∃ members', List.Forall₂ (Member.Alike R) members members' ∧
        slots = linesOf (members'.map Member.slots) ∧
        ∀ (entity' : EntityBlock) rest', (∀ kind, entity'.has kind = entity.has kind) →
          Echoes (part ++ last :: rest') lexemes ∧
          Reads (readMembers entity' opener (part ++ last :: rest'))
            (members'.foldl EntityBlock.put { entity' with span := opener.union last.span })
            rest' := by
  induction lists with
  | @ends _ lexemes last rest skipped closes =>
      have lead := refillable_skipTerminators (R := R) lexemes
      rw [skipped] at lead
      refine lead.mono ?_
      rintro _ part ⟨rfl, again⟩
      refine ⟨[], .nil, rfl, fun entity' rest' _ => ?_⟩
      obtain ⟨echoes, skipped'⟩ := again (last :: rest') (.inl rfl)
      exact ⟨echoes, reads_readMembers.mpr ⟨last, rest', skipped', .inl ⟨closes, rfl, rfl⟩⟩⟩
  | @member entity lexemes next more member middle members finished last rest skipped reads fresh
      further inductionHypothesis =>
      have lead := refillable_skipTerminators (R := R) lexemes
      rw [skipped] at lead
      refine (lead.append ((refillable_readMember reads).append inductionHypothesis)).mono ?_
      rintro _ _ ⟨_, _, part, _, rfl, rfl, ⟨rfl, again⟩, _, _, _, behind, rfl, rfl,
        ⟨member', alike, rfl, inside, rfl, again'⟩, members', alikes, rfl, again''⟩
      refine ⟨member' :: members', .cons alike alikes, rfl, fun entity' rest' same => ?_⟩
      obtain ⟨echoes, reads''⟩ := again'' (entity'.put member') rest'
        (EntityBlock.has_put_congr same alike.kind)
      obtain ⟨echoes', skipped'⟩ := again (next :: (inside ++ (behind ++ last :: rest'))) (.inl rfl)
      obtain ⟨unended, unfinished⟩ : next.token ≠ .kwEnd ∧ next.token ≠ .eof := by
        obtain ⟨word, named⟩ := exists_name_of_readMember reads
        simp [named]
      rw [EntityBlock.put_span] at reads''
      refine ⟨by simpa using echoes', reads_readMembers.mpr ⟨next, _, by simpa using skipped',
        .inr ⟨unended, unfinished, member', _, again' entity'.name _ echoes, ?_, reads''⟩⟩⟩
      rw [same, alike.kind]
      exact fresh

theorem Declares.refillable {seen : List String} {lexemes rest : List Lexeme} {items : List Item}
    (declares : Declares seen lexemes items rest) :
    Refillable R lexemes (linesOf (items.map Item.slots)) rest fun slots part =>
      ∃ items', List.Forall₂ (Item.Alike R) items items' ∧
        slots = linesOf (items'.map Item.slots) ∧
        ∀ rest', nextToken rest' = .eof →
          Echoes (part ++ rest') lexemes ∧
          readDeclarations seen (part ++ rest') = .ok (items'.map Item.declaration) := by
  induction declares with
  | @ends seen lexemes stops =>
      refine (refillable_skipTerminators lexemes).mono ?_
      rintro _ part ⟨rfl, again⟩
      refine ⟨[], .nil, rfl, fun rest' ended => ?_⟩
      obtain ⟨echoes, skipped'⟩ := again rest' (.inl (ended.trans stops.symm))
      exact ⟨echoes, readDeclarations_eq_ok.mpr (.inl ⟨by rw [skipped', ended], rfl⟩)⟩
  | @main seen lexemes next more procedure middle items rest skipped opens reads further
      inductionHypothesis =>
      have lead := refillable_skipTerminators (R := R) lexemes
      rw [skipped] at lead
      have first := refillable_readProcedure (R := R) opens rfl .nil reads
      refine (lead.append (first.append inductionHypothesis)).mono ?_
      rintro _ _ ⟨_, _, part, _, rfl, rfl, ⟨rfl, again⟩, _, _, _, behind, rfl, rfl,
        ⟨_, _, inside, procedure', alike, _, rfl, rfl, ⟨rfl, rfl⟩, again'⟩, items', alikes, rfl,
        again''⟩
      refine ⟨.main procedure'.body procedure'.span :: items', .cons ?_ alikes, rfl,
        fun rest' ended => ?_⟩
      · rw [alike.span]
        exact .main alike.body
      · obtain ⟨_, further'⟩ := again'' rest' ended
        obtain ⟨echoes, skipped'⟩ := again (next :: (inside ++ (behind ++ rest'))) (.inl rfl)
        refine ⟨by simpa using echoes, readDeclarations_eq_ok.mpr (.inr ⟨next, _,
          by simpa using skipped', .inr ⟨opens, procedure', _, (again' _).2, _, further', rfl⟩⟩)⟩
  | @entity seen lexemes next word name more members finished last middle items rest skipped opens
      named lists fresh further inductionHypothesis =>
      have lead := refillable_skipTerminators (R := R) lexemes
      rw [skipped] at lead
      have whole := (lists.refillable (R := R).word named rfl).block opens rfl lists.laid.2
      refine (lead.append (whole.append inductionHypothesis)).mono ?_
      rintro _ _ ⟨_, _, part, _, rfl, rfl, ⟨rfl, again⟩, _, _, _, behind, rfl, rfl,
        ⟨_, _, rfl, rfl, _, inside, rfl, rfl, members', alike, rfl, again'⟩, items', alikes, rfl,
        again''⟩
      refine ⟨.entity name members' (next.span.union last.span) :: items',
        .cons (.entity alike) alikes, rfl, fun rest' ended => ?_⟩
      obtain ⟨_, further'⟩ := again'' rest' ended
      obtain ⟨echoes, skipped'⟩ :=
        again (next :: word :: (inside ++ last :: (behind ++ rest'))) (.inl rfl)
      obtain ⟨_, listed⟩ := again' (.empty name next.span) (behind ++ rest') fun _ => rfl
      refine ⟨by simpa using echoes, readDeclarations_eq_ok.mpr (.inr ⟨next, _,
        by simpa using skipped', .inl ⟨opens, _, _, reads_readEntity.mpr ⟨(name, word.span), _,
          reads_expectName.mpr ⟨word, rfl, named, rfl⟩, listed⟩, ?_, _, ?_, rfl⟩⟩)⟩
      · rw [EntityBlock.foldl_put_name]
        exact fresh
      · rw [EntityBlock.foldl_put_name]
        exact further'

theorem Item.Alike.declaration_eq {item other : Item} (alike : item.Alike Eq other) :
    item.declaration = other.declaration := by
  cases alike with
  | main inside => rw [inside.eq]
  | entity members =>
      have same := members.imp fun _ _ alike => alike.eq
      rw [List.forall₂_eq_eq_eq] at same
      rw [same]

/-- What stands behind the end of a text is not read. -/
theorem Declaration.ofLexemes_behind {lexemes rest rest' : List Lexeme}
    {declarations : List Declaration} (only : ∀ lexeme ∈ lexemes, lexeme.token ≠ .eof)
    (ended : nextToken rest = .eof) (ended' : nextToken rest' = .eof)
    (accepted : Declaration.ofLexemes (lexemes ++ rest) = .ok declarations) :
    Declaration.ofLexemes (lexemes ++ rest') = .ok declarations := by
  obtain ⟨items, behind, declares, rfl⟩ := exists_declares accepted
  obtain ⟨account, _, same, fits, _, _, again⟩ := declares.refillable (R := Eq)
  have whole : account.lexemes = lexemes :=
    eq_of_append_ended only fits.ne_eof ended declares.nextToken_rest same
  obtain ⟨items', alike, _, reads⟩ := again account (.refl account)
  have declared : List.Forall₂ Eq (items.map Item.declaration) (items'.map Item.declaration) := by
    rw [List.forall₂_map_left_iff, List.forall₂_map_right_iff]
    exact alike.imp fun _ _ alike => alike.declaration_eq
  rw [List.forall₂_eq_eq_eq] at declared
  rw [declared, ← whole]
  exact (reads rest' ended').2

/-- A text that is accepted has an account, with payloads that were taken of it, such that the text
is accepted again, with alike items, however the account is refilled. -/
theorem Declaration.exists_refillable {lexemes : List Lexeme} {final : Lexeme}
    {declarations : List Declaration} (ends : final.token = .eof)
    (only : ∀ lexeme ∈ lexemes, lexeme.token ≠ .eof)
    (accepted : Declaration.ofLexemes (lexemes ++ [final]) = .ok declarations) :
    ∃ (account : Account) (items : List Item), account.Explains lexemes final declarations ∧
      items.map Item.declaration = declarations ∧ SlotsHold Payload.Made account.slots ∧
      ∀ other, Refills R account other → ∃ items', List.Forall₂ (Item.Alike R) items items' ∧
        other.slots = linesOf (items'.map Item.slots) ∧ ∀ rest, nextToken rest = .eof →
          Declaration.ofLexemes (other.lexemes ++ rest) = .ok (items'.map Item.declaration) := by
  obtain ⟨items, rest, declares, rfl⟩ := exists_declares accepted
  obtain ⟨account, slots, same, fits, balanced, made, again⟩ := declares.refillable (R := R)
  have whole : account.lexemes = lexemes :=
    eq_of_append_eof only fits.ne_eof ends declares.nextToken_rest same
  refine ⟨account, items, Account.explains slots fits balanced whole declares.complete
    declares.ordered, rfl, made, fun other refills => ?_⟩
  obtain ⟨items', alike, slots', reads⟩ := again other refills
  exact ⟨items', alike, slots', fun rest ended => (reads rest ended).2⟩

end Units

end EntityScript
