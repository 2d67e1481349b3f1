import EntityScript.Proofs.IndexedRuns
import EntityScript.Proofs.StatementEnds

/-!
Bodies, entities and units by index.  A body is read with what reads the bodies inside of it as a
parameter, so that it is said once what a call back to itself has to have taken.
-/

namespace EntityScript.Indexed

open Source (Span spanBehind)

/-! ### Bodies -/

/-- Bodies behind the place are read as the reader of bodies does. -/
def Nests (lexemes : List Lexeme) (nested : BlockKind → Span → Run (List Block)) (start : Nat) :
    Prop :=
  ∀ kind opener place rest, start < place → Rests lexemes place rest →
    Follows lexemes id (nested kind opener place) (readBody kind opener rest)

section Bodies

variable {lexemes rest : List Lexeme} {nested : BlockKind → Span → Run (List Block)}
  {start place : Nat} {kind : BlockKind} {opener : Span}

theorem Nests.beyond {from_ : Nat} (nests : Nests lexemes nested start) (notBefore : start ≤ from_)
    (behind : from_ < place) (stands : Rests lexemes place rest) :
    Follows lexemes id (beyond lexemes from_ (nested kind opener) place)
      (readBody kind opener rest) := by
  rw [stands.beyond_eq behind]
  exact nests kind opener place rest (Nat.lt_of_le_of_lt notBefore behind) stands

/-- The branches that were read stay in front of those that the reader finds from the place on. -/
theorem follows_alternatives {from_ : Nat} (nests : Nests lexemes nested start)
    (notBefore : start ≤ from_) (count : Nat) (few : rest.length < count) (behind : from_ < place)
    (stands : Rests lexemes place rest) (branches : List (Payload × List Block)) :
    Follows lexemes (fun further => (branches ++ further.1, further.2))
      (iterate lexemes (alternativeTurn lexemes nested from_ opener) (branches, none) place)
      (readAlternatives opener rest) := by
  induction count generalizing rest place branches with
  | zero => cases few
  | succ count inductionHypothesis =>
      obtain ⟨lexeme, more, rfl⟩ := stands.exists_cons
      rw [iterate_eq, alternativeTurn, bind_assoc, bind_eq stands.peek_eq, nextToken_cons,
        readAlternatives.eq_def]
      dsimp only
      split
      next alternative =>
        have inside : lexeme.token ≠ .eof := by simp [alternative]
        have further := stands.behind inside
        obtain ⟨inner, more, rfl⟩ := further.exists_cons
        rw [bind_assoc, bind_eq (stands.advance_eq inside), bind_assoc, bind_eq further.peek_eq,
          nextToken_cons]
        dsimp only
        split
        next conditional =>
          have inside : inner.token ≠ .eof := by simp [conditional]
          rw [bind_assoc, bind_eq (further.advance_eq inside), bind_assoc]
          refine (follows_collectUntil rfl (further.behind inside)).bind
            fun condition rest within next stands₁ => ?_
          have behind₁ : from_ < next :=
            Nat.lt_trans behind (stands.lt_of_length_lt stands₁ (by grind))
          rw [bind_assoc]
          refine (nests.beyond notBefore behind₁ stands₁).bind
            fun body rest within next stands₂ => ?_
          have behind₂ := Nat.lt_trans behind (stands.lt_of_length_lt stands₂ (by grind))
          rw [pure_bind, stands.goOn_eq stands₂ (by grind)]
          refine Follows.map (inductionHypothesis (by grind) behind₂ stands₂ _)
            fun more => ⟨?_, rfl⟩
          simp [Remaining.relax, Remaining.map, Remaining.behind]
        next unconditional =>
          rw [bind_assoc]
          refine (nests.beyond notBefore (Nat.lt_succ_of_lt behind) further).bind
            fun body rest within next stands₁ => ?_
          rw [bind_assoc, bind_eq stands₁.peek_eq]
          dsimp only
          split
          · exact bind_stops (stands₁.refuse_eq _)
          next left =>
            -- No further `else` is left, so that the next turn is the last one.
            rw [pure_bind, stands.goOn_eq stands₁ (by grind), iterate_eq, alternativeTurn,
              bind_assoc, bind_eq stands₁.peek_eq, if_neg left]
            refine follows_pure ?_ ?_
            · exact stands₁
            · simp [Remaining.relax, Remaining.map]
      next => exact follows_pure stands (by simp [Remaining.staying])

theorem follows_parseChoice {next : Lexeme} (nests : Nests lexemes nested start)
    (notBefore : start ≤ place) (opens : next.token = .kwIf)
    (stands : Rests lexemes place (next :: rest)) :
    Follows lexemes id (parseChoice lexemes nested place) (readChoice next.span rest) := by
  have inside : next.token ≠ .eof := by simp [opens]
  have here : (get : Run Nat) place = .ok (place, place) := rfl
  rw [parseChoice, bind_eq here, bind_eq (stands.take_eq inside opens), readChoice]
  refine (follows_collectUntil rfl (stands.behind inside)).bind
    fun condition rest within next stands₁ => ?_
  have behind₁ := stands.lt_of_length_lt stands₁ (by grind)
  refine (nests.beyond notBefore behind₁ stands₁).bind fun body rest within next stands₂ => ?_
  have behind₂ := stands.lt_of_length_lt stands₂ (by grind)
  refine (follows_alternatives nests notBefore _ (Nat.lt_succ_self _) behind₂ stands₂ _).bind
    fun further rest within next stands₃ => ?_
  refine (follows_takeEnd stands₃).bind fun last rest within next stands₄ => ?_
  exact follows_pure stands₄ rfl

theorem follows_parseLoop {next : Lexeme} (nests : Nests lexemes nested start)
    (notBefore : start ≤ place) (opens : next.token = .kwLoop)
    (stands : Rests lexemes place (next :: rest)) :
    Follows lexemes id (parseLoop lexemes nested place) (readLoop next.span rest) := by
  have inside : next.token ≠ .eof := by simp [opens]
  have here : (get : Run Nat) place = .ok (place, place) := rfl
  rw [parseLoop, bind_eq here, bind_eq (stands.take_eq inside opens), readLoop]
  refine (follows_takeName (stands.behind inside)).bind fun counter rest within next stands₁ => ?_
  refine (follows_takeWord stands₁).bind fun origin rest within next stands₂ => ?_
  refine (follows_collectUntil rfl stands₂).bind fun first rest within next stands₃ => ?_
  refine (follows_collectUntil rfl stands₃).bind fun bound rest within next stands₄ => ?_
  have behind := stands.lt_of_length_lt stands₄ (by grind)
  refine (nests.beyond notBefore behind stands₄).bind fun body rest within next stands₅ => ?_
  refine (follows_takeEnd stands₅).bind fun last rest within next stands₆ => ?_
  exact follows_pure stands₆ rfl

theorem startsMain_cons (next : Lexeme) (rest : List Lexeme) :
    startsMain (next :: rest) = true ↔
      next.token = .name "main" ∧ rest.head?.map Lexeme.token = some .arrow := by
  cases rest <;> simp [startsMain]

theorem Rests.isHeaderArrow_eq {next : Lexeme} (stands : Rests lexemes place (next :: rest)) :
    isHeaderArrow lexemes place =
      .ok (decide (rest.head?.map Lexeme.token = some .arrow), place) := by
  have behind : lexemes[place + 1]? = rest.head? := by
    rw [← List.head?_drop, ← List.drop_drop, stands.drop]
    rfl
  change Except.ok (decide (lexemes[place + 1]?.map Lexeme.token = some .arrow), place) = _
  rw [behind]

theorem follows_parseBlock {next : Lexeme} (nests : Nests lexemes nested start)
    (notBefore : start ≤ place) (stands : Rests lexemes place (next :: rest)) :
    Follows lexemes id (parseBlock lexemes nested place) (readBlock next rest) := by
  rw [parseBlock, bind_eq stands.peek_eq, nextToken_cons, readBlock]
  by_cases choice : next.token = .kwIf
  · simp only [choice]
    exact follows_parseChoice nests notBefore choice stands
  by_cases loop : next.token = .kwLoop
  · simp only [loop]
    exact follows_parseLoop nests notBefore loop stands
  by_cases entity : next.token = .kwEntity
  · simp only [entity]
    exact stands.follows_refuse _
  · simp only
    rw [bind_eq stands.isHeaderArrow_eq]
    simp only [decide_eq_true_eq, startsMain_cons]
    split
    · exact stands.follows_refuse _
    · refine (follows_parseStatement stands).bind fun statement rest within next stands₁ => ?_
      exact follows_pure stands₁ rfl

theorem follows_blocks (nests : Nests lexemes nested start) (count : Nat)
    (few : rest.length < count) (notBefore : start ≤ place) (stands : Rests lexemes place rest)
    (body : List Block) :
    Follows lexemes (body ++ ·) (iterate lexemes (bodyTurn lexemes nested kind opener) body place)
      (readBody kind opener rest) := by
  induction count generalizing rest place body with
  | zero => cases few
  | succ count inductionHypothesis =>
      obtain ⟨first, passed, stands₁⟩ := exists_passTerminators stands
      obtain ⟨lexeme, more, skipped⟩ := stands₁.exists_cons
      obtain ⟨within, followed⟩ := next?_afterTerminators_eq_some skipped
      have later : place ≤ first := by
        have total := stands.total
        have total₁ := stands₁.total
        have fewer := length_skipTerminators_le rest
        omega
      rw [iterate_eq, bodyTurn, bind_assoc, bind_eq passed, bind_assoc, bind_eq stands₁.peek_eq,
        readBody, followed, skipped, nextToken_cons]
      dsimp only
      by_cases ended : lexeme.token = .kwEnd
      · simp only [ended]
        exact follows_pure stands₁ (List.append_nil body).symm
      by_cases alternative : lexeme.token = .kwElse
      · simp only [alternative]
        exact follows_pure stands₁ (List.append_nil body).symm
      by_cases last : lexeme.token = .eof
      · simp only [last]
        exact bind_stops (stands₁.refuse_eq _)
      · simp only
        rw [skipped] at stands₁
        rw [bind_assoc]
        refine (follows_parseBlock nests (Nat.le_trans notBefore later) stands₁).bind
          fun block rest within next stands₂ => ?_
        have behind := stands₁.lt_of_length_lt stands₂ (by grind)
        rw [pure_bind, stands.goOn_eq stands₂ (by grind)]
        refine Follows.map (inductionHypothesis (by grind) (by omega) stands₂ _)
          fun more => ⟨?_, rfl⟩
        simp [Remaining.relax, Remaining.map, Remaining.behind]

theorem follows_parseBody (stands : Rests lexemes place rest) :
    Follows lexemes id (parseBody lexemes kind opener place) (readBody kind opener rest) := by
  induction count : lexemes.length - place using Nat.strongRecOn
    generalizing place rest kind opener with
  | _ count inductionHypothesis =>
  rw [parseBody]
  -- A body inside starts behind this one, so that fewer lexemes are left for it.
  refine follows_blocks ?_ _ (Nat.lt_succ_self _) (Nat.le_refl place) stands []
  intro kind opener place' rest behind stands'
  have within := stands'.total.2
  dsimp only
  rw [if_pos ⟨behind, within⟩]
  exact inductionHypothesis _ (by omega) stands' rfl

end Bodies

/-! ### Parts of entities -/

section Parts

variable {lexemes rest : List Lexeme} {place : Nat} {kind : BlockKind} {opener : Span}

theorem follows_parseProcedure {parameters : List String} (stands : Rests lexemes place rest) :
    Follows lexemes id (parseProcedure lexemes kind opener parameters place)
      (readProcedure kind opener parameters rest) := by
  rw [parseProcedure, readProcedure]
  refine (follows_take (by simp) stands).bind fun arrow rest within next stands₁ => ?_
  refine (follows_parseBody stands₁).bind fun body rest within next stands₂ => ?_
  refine (follows_takeEnd stands₂).bind fun last rest within next stands₃ => ?_
  exact follows_pure stands₃ rfl

/-- Names are looked for among those that were read, in whatever order these are kept. -/
theorem follows_parameterNames (count : Nat) (few : rest.length < count)
    (stands : Rests lexemes place rest) {names seen : List String}
    (same : ∀ word, word ∈ seen ↔ word ∈ names) :
    Follows lexemes (names ++ ·) (iterate lexemes (parameterTurn lexemes) names place)
      (readParameterNames seen rest) := by
  induction count generalizing rest place names seen with
  | zero => cases few
  | succ count inductionHypothesis =>
      rw [iterate_eq, parameterTurn, bind_assoc, readParameterNames]
      refine (follows_takeName stands).bind fun name rest within next stands₁ => ?_
      obtain ⟨word, position⟩ := name
      dsimp only [id]
      by_cases known : word ∈ names
      · rw [if_pos known, if_pos ((same word).mpr known)]
        exact bind_stops rfl
      · rw [if_neg known, if_neg (mt (same word).mp known), bind_assoc]
        refine (follows_passAnnotations stands₁).bind fun _ rest within next stands₂ => ?_
        obtain ⟨lexeme, more, rfl⟩ := stands₂.exists_cons
        simp only [Remaining.behind, Remaining.relax, Remaining.next?]
        rw [bind_assoc, bind_eq stands₂.peek_eq, nextToken_cons]
        by_cases further : lexeme.token = .comma
        · have inside : lexeme.token ≠ .eof := by simp [further]
          have stands₃ := stands₂.behind inside
          have same' (other : String) : other ∈ word :: seen ↔ other ∈ names ++ [word] := by
            simp [same, or_comm]
          simp only [further]
          rw [bind_assoc, bind_eq (stands₂.advance_eq inside), pure_bind,
            stands.goOn_eq stands₃ (by grind)]
          refine Follows.map (inductionHypothesis (by grind) stands₃ same') fun more => ⟨?_, rfl⟩
          simp [Remaining.map]
        by_cases closing : lexeme.token = .rightParen
        · have inside : lexeme.token ≠ .eof := by simp [closing]
          simp only [closing]
          rw [bind_assoc, bind_eq (stands₂.advance_eq inside), pure_bind]
          exact follows_pure (stands₂.behind inside) rfl
        · simp only
          exact bind_stops (stands₂.refuse_eq _)

theorem follows_parseParameters (stands : Rests lexemes place rest) :
    Follows lexemes id (parseParameters lexemes place) (readParameters rest) := by
  rw [parseParameters, readParameters]
  refine (follows_take (by simp) stands).bind fun opening rest within next stands₁ => ?_
  obtain ⟨lexeme, more, rfl⟩ := stands₁.exists_cons
  simp only [Remaining.relax, Remaining.next?]
  rw [bind_eq stands₁.peek_eq, nextToken_cons]
  split
  next found =>
    have inside : lexeme.token ≠ .eof := by simp [found]
    rw [bind_eq (stands₁.advance_eq inside)]
    exact follows_pure (stands₁.behind inside) rfl
  next =>
    exact Follows.map (follows_parameterNames _ (Nat.lt_succ_self _) stands₁ fun _ => Iff.rfl)
      fun names => ⟨rfl, rfl⟩

theorem follows_parseOptionalParameters (stands : Rests lexemes place rest) :
    Follows lexemes id (parseOptionalParameters lexemes place) (readOptionalParameters rest) := by
  rw [parseOptionalParameters, bind_eq stands.peek_eq, readOptionalParameters]
  split
  · exact Follows.map (follows_parseParameters stands) fun parameters => ⟨rfl, rfl⟩
  · exact follows_pure stands rfl

theorem judgeInitializer_unrefused {depth : Nat} {token : Token} {problem : StructureProblem} :
    judgeInitializer depth token ≠ .refused problem := by
  unfold judgeInitializer
  split <;> simp

theorem follows_parseInitializer {property : String} (stands : Rests lexemes place rest) :
    Follows lexemes id (parseInitializer lexemes property place)
      (readInitializer property rest) := by
  obtain ⟨lexeme, more, rfl⟩ := stands.exists_cons
  rw [parseInitializer, bind_eq stands.peek_eq, nextToken_cons, readInitializer]
  split
  next found =>
    have inside : lexeme.token ≠ .eof := by simp [found]
    have further := stands.behind inside
    have last (depth : Nat) : endsInitializer depth .eof = true := rfl
    rcases split : splitPayload endsInitializer 0 more with ⟨part, behind⟩
    obtain ⟨depth, next, stands', outcome⟩ := exists_collected judgeInitializer_belongs last further
      split (.initializer property) lexeme.span
    obtain ⟨_, collected⟩ | ⟨problem, verdict, _⟩ := outcome
    case inr => exact absurd verdict judgeInitializer_unrefused
    rw [bind_eq (stands.advance_eq inside)]
    cases part with
    | nil =>
        rw [(takePayload_of_nil split).1]
        exact bind_stops collected
    | cons first others =>
        obtain ⟨within, taken⟩ := takePayload_eq_some split
        rw [taken, bind_eq collected]
        exact follows_pure stands' rfl
  next => exact follows_pure stands rfl

theorem follows_parseProperty {keyword : Lexeme} (inside : keyword.token ≠ .eof)
    (stands : Rests lexemes place (keyword :: rest)) :
    Follows lexemes id (parseProperty lexemes place)
      (readProperty (if keyword.token = .name "state" then .state else .prop) keyword.span
        rest) := by
  rw [parseProperty, bind_eq (stands.advance_eq inside), readProperty]
  dsimp only
  refine (follows_takeName (stands.behind inside)).bind fun name rest within next stands₁ => ?_
  refine (follows_passAnnotations stands₁).bind fun _ rest within next stands₂ => ?_
  refine (follows_parseInitializer stands₂).bind fun initializer rest within next stands₃ => ?_
  dsimp only
  rw [bind_eq stands₃.peek_eq]
  split
  · exact follows_pure stands₃ rfl
  · exact stands₃.follows_refuse _

theorem follows_parseTick (stands : Rests lexemes place rest) :
    Follows lexemes id (parseTick lexemes opener place) (readTick opener rest) := by
  rw [parseTick, readTick]
  refine (follows_parseOptionalParameters stands).bind fun parameters rest within next stands₁ => ?_
  rcases parameters with _ | ⟨name, _ | ⟨other, more⟩⟩
  · exact Follows.map (follows_parseProcedure stands₁) fun procedure => ⟨rfl, rfl⟩
  · exact Follows.map (follows_parseProcedure stands₁) fun procedure => ⟨rfl, rfl⟩
  · exact bind_stops rfl

theorem follows_parseRender (stands : Rests lexemes place rest) :
    Follows lexemes id (parseRender lexemes opener place) (readRender opener rest) := by
  rw [parseRender, readRender]
  refine (follows_parseOptionalParameters stands).bind fun parameters rest within next stands₁ => ?_
  cases parameters with
  | nil => exact Follows.map (follows_parseProcedure stands₁) fun procedure => ⟨rfl, rfl⟩
  | cons name more => exact rfl

theorem follows_parseHandler (stands : Rests lexemes place rest) :
    Follows lexemes id (parseHandler lexemes opener place) (readHandler opener rest) := by
  obtain ⟨⟨token, span⟩, more, rfl⟩ := stands.exists_cons
  rw [parseHandler, takeEvent, bind_assoc, bind_eq stands.peek_eq, nextToken_cons]
  cases token with
  | text event =>
      have inside : Token.text event ≠ .eof := by simp
      have stands₁ := stands.behind inside
      dsimp only
      rw [bind_assoc, bind_eq (stands.advance_eq inside), pure_bind]
      refine (follows_parseOptionalParameters stands₁).bind
        fun parameters rest within next stands₂ => ?_
      refine (follows_parseProcedure stands₂).bind fun procedure rest within next stands₃ => ?_
      exact follows_pure stands₃ rfl
  | _ => exact bind_stops (stands.refuse_eq _)

theorem follows_parseMember {entity : String} {next : Lexeme} (inside : next.token ≠ .eof)
    (stands : Rests lexemes place (next :: rest)) :
    Follows lexemes id (parseMember lexemes entity place) (readMember entity next rest) := by
  have further := stands.behind inside
  have property := follows_parseProperty inside stands
  rw [parseMember, bind_eq stands.position_eq, bind_eq stands.peek_eq, nextToken_cons, readMember]
  by_cases named : ∃ word, next.token = .name word
  · obtain ⟨word, found⟩ := named
    simp only [found]
    rw [found] at property
    split
    · exact property.bind fun property rest within next stands₁ => follows_pure stands₁ rfl
    · exact property.bind fun property rest within next stands₁ => follows_pure stands₁ rfl
    · rw [bind_eq (stands.advance_eq inside)]
      refine (follows_parseParameters further).bind fun parameters rest within next stands₁ => ?_
      refine (follows_parseProcedure stands₁).bind fun procedure rest within next stands₂ => ?_
      exact follows_pure stands₂ rfl
    · rw [bind_eq (stands.advance_eq inside)]
      exact (follows_parseTick further).bind fun tick rest within next stands₁ =>
        follows_pure stands₁ rfl
    · rw [bind_eq (stands.advance_eq inside)]
      exact (follows_parseRender further).bind fun render rest within next stands₁ =>
        follows_pure stands₁ rfl
    · rw [bind_eq (stands.advance_eq inside)]
      exact (follows_parseHandler further).bind fun handler rest within next stands₁ =>
        follows_pure stands₁ rfl
    · simp only [nextSpan]
      exact rfl
  · have other := not_exists.mp named
    simp only
    exact rfl

theorem follows_members (count : Nat) (few : rest.length < count)
    (stands : Rests lexemes place rest) (entity : EntityBlock) :
    Follows lexemes id (iterate lexemes (memberTurn lexemes opener) entity place)
      (readMembers entity opener rest) := by
  induction count generalizing rest place entity with
  | zero => cases few
  | succ count inductionHypothesis =>
      obtain ⟨first, passed, stands₁⟩ := exists_passTerminators stands
      obtain ⟨lexeme, more, skipped⟩ := stands₁.exists_cons
      obtain ⟨within, followed⟩ := next?_afterTerminators_eq_some skipped
      rw [iterate_eq, memberTurn, bind_assoc, bind_eq passed, bind_assoc, bind_eq stands₁.peek_eq,
        readMembers, followed, skipped, nextToken_cons]
      dsimp only
      by_cases ended : lexeme.token = .kwEnd
      · have inside : lexeme.token ≠ .eof := by simp [ended]
        simp only [ended]
        rw [skipped] at stands₁
        rw [bind_assoc, bind_eq (stands₁.advance_eq inside), pure_bind]
        exact follows_pure (stands₁.behind inside) rfl
      by_cases last : lexeme.token = .eof
      · simp only [last]
        exact bind_stops (stands₁.refuse_eq _)
      · simp only
        rw [skipped] at stands₁
        rw [bind_assoc]
        refine (follows_parseMember last stands₁).bind fun member rest within next stands₂ => ?_
        dsimp only [id]
        rw [bind_assoc, extend]
        cases entity.add member with
        | error diagnostic => exact bind_stops rfl
        | ok extended =>
            dsimp only
            rw [pure_bind, pure_bind, stands.goOn_eq stands₂ (by grind)]
            exact Follows.map (inductionHypothesis (by grind) stands₂ extended)
              fun finished => ⟨rfl, rfl⟩

theorem follows_parseEntity {next : Lexeme} (opens : next.token = .kwEntity)
    (stands : Rests lexemes place (next :: rest)) :
    Follows lexemes id (parseEntity lexemes place) (readEntity next.span rest) := by
  have inside : next.token ≠ .eof := by simp [opens]
  rw [parseEntity, bind_eq (stands.take_eq inside opens), readEntity]
  refine (follows_takeName (stands.behind inside)).bind fun name rest within next stands₁ => ?_
  exact Follows.map (follows_members _ (Nat.lt_succ_self _) stands₁ _) fun entity => ⟨rfl, rfl⟩

end Parts

/-! ### Units -/

section Units

variable {lexemes rest : List Lexeme} {place : Nat}

theorem follows_parseMain {next : Lexeme} (opens : next.token = .name "main")
    (stands : Rests lexemes place (next :: rest)) :
    Follows lexemes (fun procedure => .main procedure.body procedure.span) (parseMain lexemes place)
      (readProcedure .main next.span [] rest) := by
  rw [parseMain, bind_eq (stands.takeWord_eq opens)]
  exact (follows_parseProcedure (stands.behind (by simp [opens]))).viewed

theorem comesTo_declarations (count : Nat) (few : rest.length < count)
    (stands : Rests lexemes place (skipTerminators rest)) {names seen : List String}
    (same : ∀ name, name ∈ seen ↔ name ∈ names) (earlier : List Declaration) :
    ComesTo (fun found value _ => value = earlier ++ found)
      (iterate lexemes (declarationTurn lexemes) (names, earlier) place)
      (readDeclarations seen rest) := by
  induction count generalizing rest place names seen earlier with
  | zero => cases few
  | succ count inductionHypothesis =>
      obtain ⟨lexeme, more, skipped⟩ := stands.exists_cons
      obtain ⟨within, followed⟩ := next?_afterTerminators_eq_some skipped
      have opened : Rests lexemes place (lexeme :: more) := skipped ▸ stands
      rw [iterate_eq, declarationTurn, bind_assoc, bind_eq stands.peek_eq, skipped,
        nextToken_cons, readDeclarations, followed]
      dsimp only
      by_cases last : lexeme.token = .eof
      · simp only [last]
        exact ⟨earlier, place, rfl, (List.append_nil earlier).symm⟩
      by_cases opens : lexeme.token = .kwEntity
      · simp only [opens]
        rw [bind_assoc]
        refine (follows_parseEntity opens opened).comesTo fun entity rest within next stands₁ => ?_
        dsimp only [id]
        by_cases known : entity.name ∈ names
        · rw [if_pos known, if_pos ((same entity.name).mpr known)]
          exact bind_stops rfl
        · obtain ⟨first, passed, stands₂⟩ := exists_passTerminators stands₁
          have same' (other : String) :
              other ∈ entity.name :: seen ↔ other ∈ names ++ [entity.name] := by
            simp [same, or_comm]
          have fewer := length_skipTerminators_le rest
          rw [if_neg known, if_neg (mt (same entity.name).mp known), bind_assoc, bind_eq passed,
            pure_bind, opened.goOn_eq stands₂ (by grind)]
          refine (inductionHypothesis (by grind) stands₂ same' _).map ?_
          rintro more _ _ rfl
          simp
      by_cases main : lexeme.token = .name "main"
      · simp only [main]
        rw [bind_assoc]
        refine (follows_parseMain main opened).comesTo fun procedure rest within next stands₁ => ?_
        obtain ⟨first, passed, stands₂⟩ := exists_passTerminators stands₁
        have fewer := length_skipTerminators_le rest
        rw [bind_assoc, bind_eq passed, pure_bind, opened.goOn_eq stands₂ (by grind)]
        refine (inductionHypothesis (by grind) stands₂ same _).map ?_
        rintro more _ _ rfl
        simp
      · simp only
        exact bind_stops (stands.refuse_eq _)

/-- Reading by index finds what the readers find, and is refused where they are. -/
theorem parse_eq (ended : EndsOnce lexemes) :
    parse lexemes = (Declaration.ofLexemes lexemes).mapError .refused := by
  have start : Rests lexemes 0 lexemes := ⟨List.drop_zero, ended⟩
  obtain ⟨first, passed, stands⟩ := exists_passTerminators start
  have none_ (name : String) : name ∈ ([] : List String) ↔ name ∈ ([] : List String) := Iff.rfl
  have comes := comesTo_declarations _ (Nat.lt_succ_self _) stands none_ []
  change Prod.fst <$> parseUnit lexemes 0 = _
  rw [parseUnit, bind_eq passed, Declaration.ofLexemes]
  cases read : readDeclarations [] lexemes with
  | error diagnostic =>
      rw [read] at comes
      exact congrArg (Prod.fst <$> ·) comes
  | ok declarations =>
      rw [read] at comes
      obtain ⟨_, place, comes, rfl⟩ := comes
      rw [comes]
      rfl

end Units

/-- The lexemes of a text end with the end of the text. -/
theorem endsOnce_of_lex {text : String} {lexemes : List Lexeme}
    (accepted : lex text = .ok lexemes) : EndsOnce lexemes := by
  obtain ⟨scanned, found, rfl⟩ := map_eq_ok.mp accepted
  have tiling : Tiling [] text.toList scanned := tiling_of_scanFrom _ ⟨rfl, rfl⟩ found
  obtain ⟨others, rfl, distinct⟩ := tiling.exists_ends
  obtain ⟨kept, joined, fewer, _⟩ := exists_joinLinesFrom 0 none none others
    (show (⟨.eof, spanBehind ([] ++ text.toList) []⟩ : Lexeme).token = .eof from rfl)
  rw [joinLines, joined]
  exact ⟨kept, _, rfl, rfl, fun lexeme among => distinct lexeme (fewer.subset among)⟩

/-- Where the end of the text is the last lexeme and no other, reading by index comes to
declarations or to a diagnostic, those of the readers.  So no index is out of range, and no loop and
no reader comes back to itself without a lexeme taken.  The lexemes of a text are of this kind. -/
theorem parse_makes_progress :
    (∀ text lexemes, lex text = .ok lexemes → EndsOnce lexemes) ∧
      ∀ lexemes, EndsOnce lexemes →
        parse lexemes = (Declaration.ofLexemes lexemes).mapError .refused :=
  ⟨fun _ _ accepted => endsOnce_of_lex accepted, fun _ ended => parse_eq ended⟩

/-- A unit with blocks inside of blocks. -/
def nestedUnit : String :=
  "main ->\n if a then\n  loop i from 0 to (3) ->\n  end\n else\n  b()\n end\nend"

theorem nestedUnit_makes_progress :
    ∃ lexemes declarations, lex nestedUnit = .ok lexemes ∧ EndsOnce lexemes ∧
      parse lexemes = .ok declarations ∧ declarations.length = 1 := by
  have seen : ((lex nestedUnit).toOption.bind fun lexemes =>
      (Declaration.ofLexemes lexemes).toOption.map List.length) = some 1 := by
    decide +kernel
  cases accepted : lex nestedUnit with
  | error diagnostic => simp [accepted, Except.toOption] at seen
  | ok lexemes =>
      cases read : Declaration.ofLexemes lexemes with
      | error diagnostic => simp [accepted, read, Except.toOption] at seen
      | ok declarations =>
          have ended := parse_makes_progress.1 nestedUnit lexemes accepted
          have parsed := parse_makes_progress.2 lexemes ended
          rw [read] at parsed
          refine ⟨lexemes, declarations, rfl, ended, parsed, ?_⟩
          simpa [accepted, read, Except.toOption] using seen

end EntityScript.Indexed
