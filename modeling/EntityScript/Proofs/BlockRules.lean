import EntityScript.Block.Printer
import EntityScript.Proofs.Reads

/-!
The readers of blocks as rules: each says what its reader reads, given what the readers do that
it is made of.
-/

namespace EntityScript

open Source (Span)

variable {lexemes rest : List Lexeme}

/-! ### Single tokens -/

theorem reads_expect {wanted : Token} {span : Span} :
    Reads (expect wanted lexemes) span rest ↔
      ∃ lexeme, lexemes = lexeme :: rest ∧ lexeme.token = wanted ∧ lexeme.span = span := by
  cases lexemes with
  | nil => simp [expect]
  | cons next more =>
      simp only [expect]
      split
      · simp only [reads_ok, Remaining.taking]
        grind
      · simp only [reads_misplaced, false_iff]
        grind

theorem reads_expectWord {word : String} {span : Span} :
    Reads (expectWord word lexemes) span rest ↔
      ∃ lexeme, lexemes = lexeme :: rest ∧ lexeme.token = .name word ∧ lexeme.span = span := by
  cases lexemes with
  | nil => simp [expectWord]
  | cons next more =>
      simp only [expectWord]
      split
      · simp only [reads_ok, Remaining.taking]
        grind
      · simp only [reads_misplaced, false_iff]
        grind

theorem reads_expectName {name : String × Span} :
    Reads (expectName lexemes) name rest ↔
      ∃ lexeme, lexemes = lexeme :: rest ∧ lexeme.token = .name name.1 ∧
        lexeme.span = name.2 := by
  cases lexemes with
  | nil => simp [expectName]
  | cons next more =>
      simp only [expectName]
      split
      · simp only [reads_ok, Remaining.taking]
        grind
      · simp only [reads_misplaced, false_iff]
        grind

theorem reads_expectEnd {kind : BlockKind} {opener span : Span} :
    Reads (expectEnd kind opener lexemes) span rest ↔
      ∃ lexeme, lexemes = lexeme :: rest ∧ lexeme.token = .kwEnd ∧ lexeme.span = span := by
  cases lexemes with
  | nil => simp [expectEnd]
  | cons next more =>
      simp only [expectEnd]
      split
      · simp only [reads_ok, Remaining.taking]
        grind
      · simp only [reads_misplaced, false_iff]
        grind
      · simp only [reads_misplaced, false_iff]
        grind

/-! ### What means nothing -/

/-- The lexemes in front of what terminators are followed by are terminators. -/
theorem exists_skipTerminators (lexemes : List Lexeme) :
    ∃ part, lexemes = part ++ skipTerminators lexemes ∧
      ∀ lexeme ∈ part, lexeme.token = .newline ∨ lexeme.token = .semicolon := by
  induction lexemes with
  | nil => exact ⟨[], rfl, nofun⟩
  | cons next more inductionHypothesis =>
      rw [skipTerminators]
      split
      next terminates =>
        obtain ⟨part, same, others⟩ := inductionHypothesis
        exact ⟨next :: part, by rw [List.cons_append, ← same],
          List.forall_mem_cons.mpr ⟨terminates, others⟩⟩
      next => exact ⟨[], rfl, nofun⟩

theorem length_skipTerminators_cons {next : Lexeme}
    (skipped : skipTerminators lexemes = next :: rest) : rest.length < lexemes.length := by
  have bounded := length_skipTerminators_le lexemes
  rwa [skipped, List.length_cons] at bounded

theorem skipTerminators_of_other
    (other : nextToken lexemes ≠ .newline ∧ nextToken lexemes ≠ .semicolon) :
    skipTerminators lexemes = lexemes := by
  cases lexemes with
  | nil => rfl
  | cons next more => exact if_neg (not_or.mpr other)

theorem skipTerminators_newline {next : Lexeme} (ends : next.token = .newline) :
    skipTerminators (next :: rest) = skipTerminators rest := if_pos (.inl ends)

theorem skipTerminators_append {part rest : List Lexeme}
    (terminate : ∀ lexeme ∈ part, lexeme.token = .newline ∨ lexeme.token = .semicolon)
    (other : nextToken rest ≠ .newline ∧ nextToken rest ≠ .semicolon) :
    skipTerminators (part ++ rest) = rest := by
  induction part with
  | nil => exact skipTerminators_of_other other
  | cons first more inductionHypothesis =>
      obtain ⟨here, others⟩ := List.forall_mem_cons.mp terminate
      exact (if_pos here).trans (inductionHypothesis others)

theorem other_of_skipTerminators (lexemes : List Lexeme) :
    nextToken (skipTerminators lexemes) ≠ .newline ∧
      nextToken (skipTerminators lexemes) ≠ .semicolon := by
  induction lexemes with
  | nil => exact ⟨nofun, nofun⟩
  | cons first more inductionHypothesis =>
      rw [skipTerminators]
      split
      next => exact inductionHypothesis
      next other => exact not_or.mp other

/-- A line end in front of something else is skipped. -/
theorem skipTerminators_line {line next : Lexeme} (ends : line.token = .newline)
    (other : next.token ≠ .newline ∧ next.token ≠ .semicolon) :
    skipTerminators (line :: next :: rest) = next :: rest :=
  (skipTerminators_newline ends).trans (skipTerminators_of_other other)

theorem next?_afterTerminators_eq_none (ends : skipTerminators lexemes = []) :
    (afterTerminators lexemes).next? = none := by
  unfold afterTerminators Remaining.next?
  split
  · rfl
  · simp_all

theorem next?_afterTerminators_eq_some {next : Lexeme}
    (goes : skipTerminators lexemes = next :: rest) :
    ∃ within, (afterTerminators lexemes).next? = some ⟨next, rest, within⟩ := by
  have total := length_skipTerminators_le lexemes
  rw [goes] at total
  refine ⟨total, ?_⟩
  unfold afterTerminators Remaining.next?
  split
  · simp_all
  · simp_all

def Token.opensAnnotations : Token → Bool
  | .unit _ | .colon => true
  | _ => false

theorem reads_skipAnnotations_of_none (plain : (nextToken lexemes).opensAnnotations = false) :
    Reads (skipAnnotations lexemes) () rest ↔ lexemes = rest := by
  cases lexemes with
  | nil => rw [skipAnnotations, reads_ok]; simp [Remaining.staying]
  | cons next more =>
      rw [nextToken_cons] at plain
      rw [skipAnnotations]
      split
      next found => simp [found, Token.opensAnnotations] at plain
      next found => simp [found, Token.opensAnnotations] at plain
      next => simp [Remaining.staying]

theorem reads_skipAnnotations_of_unit {next : Lexeme} {measure : String}
    (found : next.token = .unit measure) :
    Reads (skipAnnotations (next :: lexemes)) () rest ↔
      Reads (skipAnnotations lexemes) () rest := by
  rw [skipAnnotations]
  simp only [found]
  rw [reads_bind_pure id fun _ _ _ => ⟨rfl, rfl⟩]
  constructor
  · rintro ⟨_, reads, _⟩
    exact reads
  · intro reads
    exact ⟨(), reads, rfl⟩

theorem reads_skipAnnotations_of_colon {next : Lexeme} (found : next.token = .colon) :
    Reads (skipAnnotations (next :: lexemes)) () rest ↔
      ∃ name middle, Reads (expectName lexemes) name middle ∧
        Reads (skipAnnotations middle) () rest := by
  rw [skipAnnotations]
  simp only [found]
  refine reads_bind fun name middle within => ?_
  rw [reads_bind_pure id fun _ _ _ => ⟨rfl, rfl⟩]
  constructor
  · rintro ⟨_, reads, _⟩
    exact reads
  · intro reads
    exact ⟨(), reads, rfl⟩

/-! ### Payloads -/

theorem takePayload_eq_none {ends : Nat → Token → Bool} :
    takePayload ends lexemes = none ↔ (splitPayload ends 0 lexemes).1 = [] := by
  unfold takePayload
  split
  next split => simp [split]
  next split => simp [split]

theorem takePayload_eq_some {ends : Nat → Token → Bool} {first : Lexeme} {more : List Lexeme}
    (split : splitPayload ends 0 lexemes = (first :: more, rest)) :
    ∃ within, takePayload ends lexemes = some ⟨Payload.of first more, rest, within⟩ := by
  have total := length_splitPayload ends 0 lexemes
  simp only [split, List.length_cons] at total
  refine ⟨by omega, ?_⟩
  unfold takePayload
  split
  next other => simp [split] at other
  next other =>
    cases split.symm.trans other
    rfl

/-- Whether a payload in front of a token ends at another one. -/
def endsBefore (stop : Token) (depth : Nat) (token : Token) : Bool :=
  (depth = 0 && token = stop) || token.endsStatement

theorem reads_payloadUntil {stop : Token} {kind : PayloadKind} {payload : Payload} :
    Reads (payloadUntil stop kind lexemes) payload rest ↔
      ∃ first more next, splitPayload (endsBefore stop) 0 lexemes = (first :: more, next :: rest) ∧
        next.token = stop ∧ Payload.of first more = payload := by
  have ends : (fun (depth : Nat) (token : Token) =>
      (depth = 0 && token = stop) || token.endsStatement) = endsBefore stop := rfl
  unfold payloadUntil
  dsimp only
  rw [ends]
  rcases split : splitPayload (endsBefore stop) 0 lexemes with ⟨part, behind⟩
  cases part with
  | nil =>
      rw [takePayload_eq_none.mpr (by rw [split])]
      dsimp only
      split <;> simp [missingPayload]
  | cons first more =>
      obtain ⟨within, taken⟩ := takePayload_eq_some split
      rw [taken]
      cases behind with
      | nil => simp [Remaining.relax, Remaining.next?]
      | cons next behind =>
          simp only [Remaining.relax, Remaining.next?]
          split
          · simp only [reads_ok, Remaining.map]
            grind
          · simp only [reads_misplaced, false_iff]
            grind

theorem reads_readStatement {payload : Payload} :
    Reads (readStatement lexemes) payload rest ↔
      ∃ first more, splitPayload endsStatementText 0 lexemes = (first :: more, rest) ∧
        (nextToken rest).isStructural = false ∧ Payload.of first more = payload := by
  rcases split : splitPayload endsStatementText 0 lexemes with ⟨part, behind⟩
  cases part with
  | nil =>
      rw [readStatement, takePayload_eq_none.mpr (by rw [split])]
      dsimp only
      split <;> simp [missingPayload]
  | cons first more =>
      obtain ⟨within, taken⟩ := takePayload_eq_some split
      rw [readStatement, taken]
      dsimp only
      split
      · simp only [reads_misplaced, false_iff]
        grind
      · simp only [reads_ok]
        grind

/-! ### Bodies -/

theorem reads_readBody {kind : BlockKind} {opener : Span} {blocks : List Block} :
    Reads (readBody kind opener lexemes) blocks rest ↔
      ∃ next more, skipTerminators lexemes = next :: more ∧
        (((next.token = .kwEnd ∨ next.token = .kwElse) ∧ blocks = [] ∧ next :: more = rest) ∨
        (next.token ≠ .kwEnd ∧ next.token ≠ .kwElse ∧ next.token ≠ .eof ∧
          ∃ block middle, Reads (readBlock next more) block middle ∧
            ∃ others, Reads (readBody kind opener middle) others rest ∧
              block :: others = blocks)) := by
  rw [readBody]
  cases skipped : skipTerminators lexemes with
  | nil => simp [next?_afterTerminators_eq_none skipped]
  | cons next more =>
      obtain ⟨within, followed⟩ := next?_afterTerminators_eq_some skipped
      rw [exists_cons_eq, followed]
      dsimp only
      split
      next ends => simp [ends, Remaining.map, afterTerminators, skipped, eq_comm]
      next ends => simp [ends, Remaining.map, afterTerminators, skipped, eq_comm]
      next ends => simp [ends]
      next unended unalternative unfinished =>
        rw [reads_bind (P := fun block middle =>
          ∃ others, Reads (readBody kind opener middle) others rest ∧ block :: others = blocks)]
        · grind
        · intro block middle _
          rw [reads_bind_pure (fun others => block :: others) fun _ _ _ => ⟨rfl, rfl⟩]

theorem reads_readBlock_of_if {next : Lexeme} {block : Block} (opens : next.token = .kwIf) :
    Reads (readBlock next lexemes) block rest ↔
      Reads (readChoice next.span lexemes) block rest := by
  rw [readBlock]
  simp only [opens]

theorem reads_readBlock_of_loop {next : Lexeme} {block : Block} (opens : next.token = .kwLoop) :
    Reads (readBlock next lexemes) block rest ↔ Reads (readLoop next.span lexemes) block rest := by
  rw [readBlock]
  simp only [opens]

theorem reads_readBlock_of_other {next : Lexeme} {block : Block}
    (unconditional : next.token ≠ .kwIf) (unrepeated : next.token ≠ .kwLoop) :
    Reads (readBlock next lexemes) block rest ↔
      next.token ≠ .kwEntity ∧ startsMain (next :: lexemes) = false ∧
        ∃ payload, Reads (readStatement (next :: lexemes)) payload rest ∧
          .statement payload = block := by
  rw [readBlock]
  split
  · contradiction
  · contradiction
  next found => simp [found]
  next nested =>
    split
    next starts => simp [starts]
    next apart =>
      rw [reads_bind_pure Block.statement fun _ _ _ => ⟨rfl, rfl⟩]
      exact ⟨fun reads => ⟨nested, eq_false_of_ne_true apart, reads⟩, fun reads => reads.2.2⟩

theorem reads_readChoice {opener : Span} {block : Block} :
    Reads (readChoice opener lexemes) block rest ↔
      ∃ condition inside, Reads (payloadUntil .kwThen .condition lexemes) condition inside ∧
        ∃ body behind, Reads (readBody .choice opener inside) body behind ∧
          ∃ further middle, Reads (readAlternatives opener behind) further middle ∧
            ∃ last, Reads (expectEnd .choice opener middle) last rest ∧
              .choice ((condition, body) :: further.1) further.2 (opener.union last) = block := by
  rw [readChoice]
  refine reads_bind fun condition inside _ => reads_bind fun body behind _ =>
    reads_bind fun further middle _ => ?_
  exact reads_bind_pure (fun last => Block.choice ((condition, body) :: further.1) further.2
    (opener.union last)) fun _ _ _ => ⟨rfl, rfl⟩

theorem reads_readAlternatives_of_other {opener : Span}
    {further : List (Payload × List Block) × Option (List Block)}
    (ends : nextToken lexemes ≠ .kwElse) :
    Reads (readAlternatives opener lexemes) further rest ↔
      ([], none) = further ∧ lexemes = rest := by
  rw [readAlternatives.eq_def]
  cases lexemes with
  | nil => simp [Remaining.staying]
  | cons next more =>
      rw [nextToken_cons] at ends
      simp [ends, Remaining.staying]

theorem reads_readAlternatives_of_if {opener : Span} {next inner : Lexeme}
    {further : List (Payload × List Block) × Option (List Block)}
    (alternative : next.token = .kwElse) (conditional : inner.token = .kwIf) :
    Reads (readAlternatives opener (next :: inner :: lexemes)) further rest ↔
      ∃ condition inside, Reads (payloadUntil .kwThen .furtherCondition lexemes) condition inside ∧
        ∃ body behind, Reads (readBody .choice opener inside) body behind ∧
          ∃ more, Reads (readAlternatives opener behind) more rest ∧
            ((condition, body) :: more.1, more.2) = further := by
  rw [readAlternatives, if_pos alternative, if_pos conditional]
  refine reads_bind fun condition inside _ => reads_bind fun body behind _ => ?_
  exact reads_bind_pure (fun more : List (Payload × List Block) × Option (List Block) =>
    ((condition, body) :: more.1, more.2)) fun _ _ _ => ⟨rfl, rfl⟩

theorem reads_readAlternatives_of_else {opener : Span} {next : Lexeme}
    {further : List (Payload × List Block) × Option (List Block)}
    (alternative : next.token = .kwElse) (unconditional : nextToken lexemes ≠ .kwIf) :
    Reads (readAlternatives opener (next :: lexemes)) further rest ↔
      ∃ body, Reads (readBody .choice opener lexemes) body rest ∧ nextToken rest ≠ .kwElse ∧
        ([], some body) = further := by
  cases lexemes with
  | nil =>
      rw [readAlternatives, if_pos alternative]
      simp only [reads_misplaced, false_iff]
      rintro ⟨body, reads, _⟩
      obtain ⟨_, _, empty, _⟩ := reads_readBody.mp reads
      cases empty
  | cons inner more =>
      rw [nextToken_cons] at unconditional
      rw [readAlternatives, if_pos alternative, if_neg unconditional]
      rw [reads_bind (P := fun body middle => middle = rest ∧ nextToken rest ≠ .kwElse ∧
        ([], some body) = further)]
      · grind
      · intro body middle _
        dsimp only
        split
        · simp
          grind
        · simp [Remaining.map, Remaining.relax]
          grind

theorem reads_readLoop {opener : Span} {block : Block} :
    Reads (readLoop opener lexemes) block rest ↔
      ∃ counter named, Reads (expectName lexemes) counter named ∧
        ∃ origin started, Reads (expectWord "from" named) origin started ∧
          ∃ start bounded, Reads (payloadUntil (.name "to") .loopStart started) start bounded ∧
            ∃ bound inside, Reads (payloadUntil .arrow .loopBound bounded) bound inside ∧
              ∃ body behind, Reads (readBody .loop opener inside) body behind ∧
                ∃ last, Reads (expectEnd .loop opener behind) last rest ∧
                  .loop counter.1 start bound body (opener.union last) = block := by
  rw [readLoop]
  refine reads_bind fun counter named _ => reads_bind fun origin started _ =>
    reads_bind fun start bounded _ => reads_bind fun bound inside _ =>
    reads_bind fun body behind _ => ?_
  exact reads_bind_pure (fun last => Block.loop counter.1 start bound body (opener.union last))
    fun _ _ _ => ⟨rfl, rfl⟩

/-! ### Members -/

theorem reads_readParameterNames {seen : List String} {names : List String} :
    Reads (readParameterNames seen lexemes) names rest ↔
      ∃ name behind, Reads (expectName lexemes) name behind ∧ name.1 ∉ seen ∧
        ∃ middle, Reads (skipAnnotations behind) () middle ∧
          ∃ next more, middle = next :: more ∧
            ((next.token = .comma ∧ ∃ others,
              Reads (readParameterNames (name.1 :: seen) more) others rest ∧
                name.1 :: others = names) ∨
            (next.token = .rightParen ∧ [name.1] = names ∧ more = rest)) := by
  rw [readParameterNames]
  refine reads_bind fun name behind within => ?_
  obtain ⟨word, position⟩ := name
  dsimp only
  split
  next known => simp [known]
  next fresh =>
    rw [reads_bind (P := fun _ middle => ∃ next more, middle = next :: more ∧
      ((next.token = .comma ∧ ∃ others,
        Reads (readParameterNames (word :: seen) more) others rest ∧ word :: others = names) ∨
      (next.token = .rightParen ∧ [word] = names ∧ more = rest)))]
    · exact ⟨fun ⟨_, middle, reads⟩ => ⟨fresh, middle, reads⟩,
        fun ⟨_, middle, reads⟩ => ⟨(), middle, reads⟩⟩
    · intro _ middle _
      cases middle with
      | nil => simp [Remaining.relax, Remaining.behind, Remaining.next?]
      | cons next more =>
          simp only [Remaining.relax, Remaining.behind, Remaining.next?]
          rw [exists_cons_eq]
          split
          next separates =>
            rw [reads_bind_pure (fun others => word :: others) fun _ _ _ => ⟨rfl, rfl⟩]
            simp [separates]
          next closes => simp [closes, Remaining.map]
          next separates closes =>
            simp only [reads_misplaced, false_iff]
            rintro (⟨found, _⟩ | ⟨found, _⟩)
            · exact separates found
            · exact closes found

theorem reads_readParameters {names : List String} :
    Reads (readParameters lexemes) names rest ↔
      ∃ opening more, lexemes = opening :: more ∧ opening.token = .leftParen ∧
        ((∃ closing, more = closing :: rest ∧ closing.token = .rightParen ∧ [] = names) ∨
        (nextToken more ≠ .rightParen ∧ Reads (readParameterNames [] more) names rest)) := by
  rw [readParameters, reads_bind (P := fun _ more =>
    (∃ closing, more = closing :: rest ∧ closing.token = .rightParen ∧ [] = names) ∨
      (nextToken more ≠ .rightParen ∧ Reads (readParameterNames [] more) names rest))]
  · simp only [reads_expect]
    grind
  · intro opening more within
    cases more with
    | nil =>
        have unnamed : ¬Reads (readParameterNames [] []) names rest := by
          intro reads
          obtain ⟨_, _, named, _⟩ := reads_readParameterNames.mp reads
          obtain ⟨_, empty, _⟩ := reads_expectName.mp named
          cases empty
        simp [Remaining.relax, Remaining.next?, unnamed]
    | cons next more =>
        simp only [Remaining.relax, Remaining.next?]
        split
        next closes =>
          simp [closes, Remaining.map]
          grind
        next other =>
          rw [reads_bind_pure id fun _ _ _ => ⟨rfl, rfl⟩]
          simp [other]

theorem reads_readOptionalParameters_of_some {names : List String}
    (opens : nextToken lexemes = .leftParen) :
    Reads (readOptionalParameters lexemes) names rest ↔
      Reads (readParameters lexemes) names rest := by
  rw [readOptionalParameters, if_pos opens, reads_bind_pure id fun _ _ _ => ⟨rfl, rfl⟩]
  simp

theorem reads_readOptionalParameters_of_none {names : List String}
    (plain : nextToken lexemes ≠ .leftParen) :
    Reads (readOptionalParameters lexemes) names rest ↔ [] = names ∧ lexemes = rest := by
  rw [readOptionalParameters, if_neg plain, reads_ok]
  rfl

theorem reads_readProcedure {kind : BlockKind} {opener : Span} {parameters : List String}
    {procedure : Procedure} :
    Reads (readProcedure kind opener parameters lexemes) procedure rest ↔
      ∃ arrow inside, Reads (expect .arrow lexemes) arrow inside ∧
        ∃ body behind, Reads (readBody kind opener inside) body behind ∧
          ∃ last, Reads (expectEnd kind opener behind) last rest ∧
            ⟨parameters, body, opener.union last⟩ = procedure := by
  rw [readProcedure]
  refine reads_bind fun arrow inside _ => reads_bind fun body behind _ => ?_
  exact reads_bind_pure (fun last => Procedure.mk parameters body (opener.union last))
    fun _ _ _ => ⟨rfl, rfl⟩

theorem reads_readInitializer_of_none {property : String} {initializer : Option Payload}
    (plain : nextToken lexemes ≠ .assign) :
    Reads (readInitializer property lexemes) initializer rest ↔
      none = initializer ∧ lexemes = rest := by
  cases lexemes with
  | nil => rw [readInitializer, reads_ok]; rfl
  | cons next more =>
      rw [nextToken_cons] at plain
      rw [readInitializer, if_neg plain, reads_ok]
      rfl

theorem reads_readInitializer_of_some {property : String} {initializer : Option Payload}
    {sign : Lexeme} (assigns : sign.token = .assign) :
    Reads (readInitializer property (sign :: lexemes)) initializer rest ↔
      ∃ first more, splitPayload endsInitializer 0 lexemes = (first :: more, rest) ∧
        some (Payload.of first more) = initializer := by
  rw [readInitializer, if_pos assigns]
  rcases split : splitPayload endsInitializer 0 lexemes with ⟨part, behind⟩
  cases part with
  | nil =>
      rw [takePayload_eq_none.mpr (by rw [split])]
      simp [missingPayload]
  | cons first more =>
      obtain ⟨within, taken⟩ := takePayload_eq_some split
      rw [taken]
      simp only [reads_ok, Remaining.map, Remaining.relax]
      grind

theorem reads_readProperty {kind : PropertyKind} {opener : Span} {property : Property} :
    Reads (readProperty kind opener lexemes) property rest ↔
      ∃ name behind, Reads (expectName lexemes) name behind ∧
        ∃ middle, Reads (skipAnnotations behind) () middle ∧
          ∃ initializer, Reads (readInitializer name.1 middle) initializer rest ∧
            ((nextToken rest).endsStatement || nextToken rest = .kwEnd) = true ∧
            ⟨name.1, kind, initializer,
              opener.union (initializer.elim name.2 Payload.span)⟩ = property := by
  rw [readProperty]
  refine reads_bind fun name behind _ => ?_
  rw [reads_bind (P := fun _ middle =>
    ∃ initializer, Reads (readInitializer name.1 middle) initializer rest ∧
      ((nextToken rest).endsStatement || nextToken rest = .kwEnd) = true ∧
      ⟨name.1, kind, initializer, opener.union (initializer.elim name.2 Payload.span)⟩ = property)]
  · exact ⟨fun ⟨_, middle, reads⟩ => ⟨middle, reads⟩, fun ⟨middle, reads⟩ => ⟨(), middle, reads⟩⟩
  · intro _ middle _
    rw [reads_bind (P := fun initializer last => last = rest ∧
      ((nextToken rest).endsStatement || nextToken rest = .kwEnd) = true ∧
      ⟨name.1, kind, initializer, opener.union (initializer.elim name.2 Payload.span)⟩ = property)]
    · grind
    · intro initializer last _
      dsimp only
      split
      next ends =>
        simp only [reads_pure, Remaining.map, Remaining.behind]
        cases initializer <;> grind
      next =>
        simp only [reads_misplaced, false_iff]
        grind

theorem reads_readTick {opener : Span} {procedure : Procedure} :
    Reads (readTick opener lexemes) procedure rest ↔
      ∃ parameters behind, Reads (readOptionalParameters lexemes) parameters behind ∧
        ∃ delta, (parameters = [] ∧ delta = defaultDeltaName ∨ parameters = [delta]) ∧
          Reads (readProcedure .tick opener [delta] behind) procedure rest := by
  rw [readTick]
  refine reads_bind fun parameters behind _ => ?_
  dsimp only
  split
  · rw [pure_bind, reads_bind_pure id fun _ _ _ => ⟨rfl, rfl⟩]
    simp
  · rw [pure_bind, reads_bind_pure id fun _ _ _ => ⟨rfl, rfl⟩]
    simp
  next unnamed several =>
    refine iff_of_false (fun reads => reads_error reads) ?_
    rintro ⟨delta, ⟨none, _⟩ | one, _⟩
    · exact unnamed none
    · exact several delta one

theorem reads_readRender {opener : Span} {procedure : Procedure} :
    Reads (readRender opener lexemes) procedure rest ↔
      ∃ behind, Reads (readOptionalParameters lexemes) [] behind ∧
        Reads (readProcedure .render opener [] behind) procedure rest := by
  rw [readRender, reads_bind (P := fun parameters behind => parameters = [] ∧
    Reads (readProcedure .render opener [] behind) procedure rest)]
  · grind
  · intro parameters behind _
    dsimp only
    split
    next empty =>
      rw [reads_bind_pure id fun _ _ _ => ⟨rfl, rfl⟩]
      have empty : parameters = [] := by simpa using empty
      simp [empty]
    next several => simp_all

theorem reads_readHandler {opener : Span} {handler : Handler} :
    Reads (readHandler opener lexemes) handler rest ↔
      ∃ event more, lexemes = event :: more ∧ ∃ name, event.token = .text name ∧
        ∃ parameters behind, Reads (readOptionalParameters more) parameters behind ∧
          ∃ procedure, Reads (readProcedure (.handler name) opener parameters behind) procedure
              rest ∧
            ⟨name, procedure.parameters, procedure.body, procedure.span⟩ = handler := by
  unfold readHandler
  split
  next name span more =>
    rw [exists_cons_eq]
    simp only [Token.text.injEq, exists_eq_left']
    refine reads_bind fun parameters behind _ => ?_
    exact reads_bind_pure (fun procedure : Procedure =>
      Handler.mk name procedure.parameters procedure.body procedure.span) fun _ _ _ => ⟨rfl, rfl⟩
  next other =>
    simp only [reads_misplaced, false_iff]
    rintro ⟨⟨token, span⟩, more, rfl, name, rfl, _⟩
    exact other name span more rfl

theorem PropertyKind.exists_iff {P : PropertyKind → Prop} :
    (∃ kind, P kind) ↔ P .prop ∨ P .state :=
  ⟨fun ⟨kind, holds⟩ => by cases kind with | prop => exact .inl holds | state => exact .inr holds,
    fun holds => holds.elim (fun prop => ⟨_, prop⟩) fun state => ⟨_, state⟩⟩

theorem reads_readMember {entity : String} {next : Lexeme} {member : Member} :
    Reads (readMember entity next lexemes) member rest ↔
      (∃ kind, next.token = .name (PropertyKind.word kind) ∧
        ∃ property, Reads (readProperty kind next.span lexemes) property rest ∧
          .property property = member) ∨
      (next.token = .name "init" ∧
        ∃ parameters behind, Reads (readParameters lexemes) parameters behind ∧
          ∃ procedure, Reads (readProcedure .init next.span parameters behind) procedure rest ∧
            .init procedure = member) ∨
      (next.token = .name "tick" ∧
        ∃ procedure, Reads (readTick next.span lexemes) procedure rest ∧ .tick procedure = member) ∨
      (next.token = .name "render" ∧
        ∃ procedure, Reads (readRender next.span lexemes) procedure rest ∧
          .render procedure = member) ∨
      (next.token = .name "on" ∧
        ∃ handler, Reads (readHandler next.span lexemes) handler rest ∧
          .handler handler = member) := by
  rw [PropertyKind.exists_iff]
  simp only [PropertyKind.word]
  unfold readMember
  split
  next word found =>
    simp only [found, Token.name.injEq]
    split
    · rw [reads_bind_pure Member.property fun _ _ _ => ⟨rfl, rfl⟩]
      simp
    · rw [reads_bind_pure Member.property fun _ _ _ => ⟨rfl, rfl⟩]
      simp
    · refine (reads_bind (P := fun parameters behind => ∃ procedure, Reads
        (readProcedure .init next.span parameters behind) procedure rest ∧
          .init procedure = member) ?_).trans ?_
      · intro parameters behind _
        exact reads_bind_pure Member.init fun _ _ _ => ⟨rfl, rfl⟩
      · simp
    · rw [reads_bind_pure Member.tick fun _ _ _ => ⟨rfl, rfl⟩]
      simp
    · rw [reads_bind_pure Member.render fun _ _ _ => ⟨rfl, rfl⟩]
      simp
    · rw [reads_bind_pure Member.handler fun _ _ _ => ⟨rfl, rfl⟩]
      simp
    · simp_all
  next unnamed =>
    have other (word : String) : next.token ≠ .name word := unnamed word
    simp [other]

theorem reads_readMembers {entity finished : EntityBlock} {opener : Span} :
    Reads (readMembers entity opener lexemes) finished rest ↔
      ∃ next more, skipTerminators lexemes = next :: more ∧
        ((next.token = .kwEnd ∧ { entity with span := opener.union next.span } = finished ∧
          more = rest) ∨
        (next.token ≠ .kwEnd ∧ next.token ≠ .eof ∧
          ∃ member middle, Reads (readMember entity.name next more) member middle ∧
            entity.has member.kind = false ∧
            Reads (readMembers (entity.put member) opener middle) finished rest)) := by
  rw [readMembers]
  cases skipped : skipTerminators lexemes with
  | nil => simp [next?_afterTerminators_eq_none skipped]
  | cons next more =>
      obtain ⟨within, followed⟩ := next?_afterTerminators_eq_some skipped
      rw [exists_cons_eq, followed]
      dsimp only
      split
      next ends => simp [ends, Remaining.map]
      next ends => simp [ends]
      next unended unfinished =>
        rw [reads_bind (P := fun member middle => entity.has member.kind = false ∧
          Reads (readMembers (entity.put member) opener middle) finished rest)]
        · grind
        · intro member middle _
          rw [reads_bind_value (P := fun extended =>
            Reads (readMembers extended opener middle) finished rest)]
          · unfold EntityBlock.add
            split
            next known => simp [known]
            next fresh => simp [fresh]
          · intro extended
            rw [reads_bind_pure id fun _ _ _ => ⟨rfl, rfl⟩]
            simp

theorem reads_readEntity {opener : Span} {entity : EntityBlock} :
    Reads (readEntity opener lexemes) entity rest ↔
      ∃ name behind, Reads (expectName lexemes) name behind ∧
        Reads (readMembers (.empty name.1 opener) opener behind) entity rest := by
  rw [readEntity]
  refine reads_bind fun name behind _ => ?_
  rw [reads_bind_pure id fun _ _ _ => ⟨rfl, rfl⟩]
  simp

/-! ### Declarations -/

theorem readDeclarations_eq_ok {seen : List String} {declarations : List Declaration} :
    readDeclarations seen lexemes = .ok declarations ↔
      (nextToken (skipTerminators lexemes) = .eof ∧ [] = declarations) ∨
      ∃ next more, skipTerminators lexemes = next :: more ∧
        ((next.token = .kwEntity ∧
          ∃ entity middle, Reads (readEntity next.span more) entity middle ∧
            entity.name ∉ seen ∧
            ∃ others, readDeclarations (entity.name :: seen) middle = .ok others ∧
              .entity entity :: others = declarations) ∨
        (next.token = .name "main" ∧
          ∃ procedure middle, Reads (readProcedure .main next.span [] more) procedure middle ∧
            ∃ others, readDeclarations seen middle = .ok others ∧
              .main procedure.body procedure.span :: others = declarations)) := by
  rw [readDeclarations]
  cases skipped : skipTerminators lexemes with
  | nil => simp [next?_afterTerminators_eq_none skipped, nextToken]
  | cons next more =>
      obtain ⟨within, followed⟩ := next?_afterTerminators_eq_some skipped
      rw [exists_cons_eq, followed, nextToken_cons]
      dsimp only
      split
      next ends => simp [ends]
      next opens =>
        rw [read_bind_eq_ok (P := fun entity middle => entity.name ∉ seen ∧
          ∃ others, readDeclarations (entity.name :: seen) middle = .ok others ∧
            .entity entity :: others = declarations)]
        · simp [opens]
        · intro entity middle _
          dsimp only
          split
          next known => simp [known]
          next fresh => simp [fresh, map_eq_ok]
      next opens =>
        rw [read_bind_eq_ok (P := fun procedure middle =>
          ∃ others, readDeclarations seen middle = .ok others ∧
            .main procedure.body procedure.span :: others = declarations)]
        · simp [opens]
        · intro procedure middle _
          simp [map_eq_ok]
      next unfinished unopened unstarted =>
        refine iff_of_false (by simp [misplaced]) ?_
        rintro (⟨ends, _⟩ | ⟨opens, _⟩ | ⟨starts, _⟩)
        · exact unfinished ends
        · exact unopened opens
        · exact unstarted starts

end EntityScript
