import EntityScript.Proofs.Tiling

/-!
The lexemes of a text.  Those that scanning finds lie in order, one behind the other; of them only
line ends are dropped afterwards.  So every byte of a text is in a lexeme, a blank, a line end or
a comment.
-/

namespace EntityScript

open Source

section Tiling

variable {before rest : List Char} {lexemes : List Lexeme}

/-- The lexemes of the rest of a text lie behind what stands before it. -/
theorem Tiling.le_start (tiling : Tiling before rest lexemes) :
    ∀ lexeme ∈ lexemes, byteLength before ≤ lexeme.span.start := by
  induction tiling with
  | done => exact fun lexeme among => List.mem_singleton.mp among ▸ Nat.le_refl _
  | blank _ _ inductionHypothesis | comment _ _ _ inductionHypothesis =>
      intro lexeme among
      have later := inductionHypothesis lexeme among
      rw [byteLength_append] at later
      omega
  | line _ inductionHypothesis | lexeme _ _ _ _ inductionHypothesis =>
      refine List.forall_mem_cons.mpr ⟨Nat.le_refl _, fun lexeme among => ?_⟩
      have later := inductionHypothesis lexeme among
      rw [byteLength_append] at later
      omega

/-- No lexeme reaches into a later one. -/
theorem Tiling.pairwise (tiling : Tiling before rest lexemes) :
    lexemes.Pairwise fun earlier later => earlier.span.stop ≤ later.span.start := by
  induction tiling with
  | done => exact List.pairwise_singleton _ _
  | blank _ _ inductionHypothesis | comment _ _ _ inductionHypothesis => exact inductionHypothesis
  | line further inductionHypothesis | lexeme _ _ _ further inductionHypothesis =>
      exact List.pairwise_cons.mpr ⟨further.le_start, inductionHypothesis⟩

/-- Each lexeme has the span of what it is written as. -/
theorem Tiling.spelled (tiling : Tiling before rest lexemes) :
    ∀ lexeme ∈ lexemes, ∃ front spelling behind, before ++ rest = front ++ spelling ++ behind ∧
      lexeme.span = spanBehind front spelling ∧ lexeme.token.SpelledAs spelling := by
  induction tiling with
  | @done before =>
      refine fun lexeme among => ⟨before, [], [], ?_⟩
      cases List.mem_singleton.mp among
      exact ⟨by simp, rfl, rfl⟩
  | blank _ _ inductionHypothesis | comment _ _ _ inductionHypothesis =>
      simpa using inductionHypothesis
  | @line before rest _ _ inductionHypothesis =>
      exact List.forall_mem_cons.mpr ⟨⟨before, ['\n'], rest, by simp, rfl,
          Token.spelledAs_newline⟩,
        by simpa using inductionHypothesis⟩
  | @lexeme before _ spelling rest _ spelled _ _ _ inductionHypothesis =>
      exact List.forall_mem_cons.mpr ⟨⟨before, spelling, rest, by simp, rfl, spelled⟩,
        by simpa using inductionHypothesis⟩

/-- The last lexeme, and no other, is the end of the text. -/
theorem Tiling.exists_ends (tiling : Tiling before rest lexemes) :
    ∃ others, lexemes = others ++ [⟨.eof, spanBehind (before ++ rest) []⟩] ∧
      ∀ lexeme ∈ others, lexeme.token ≠ .eof := by
  induction tiling with
  | done => exact ⟨[], by simp, List.forall_mem_nil _⟩
  | blank _ _ inductionHypothesis | comment _ _ _ inductionHypothesis =>
      simpa using inductionHypothesis
  | @line before rest _ _ inductionHypothesis =>
      obtain ⟨others, rfl, distinct⟩ := inductionHypothesis
      exact ⟨⟨.newline, spanBehind before ['\n']⟩ :: others, by simp,
        List.forall_mem_cons.mpr ⟨by simp, distinct⟩⟩
  | @lexeme before token spelling rest _ spelled some_ _ _ inductionHypothesis =>
      obtain ⟨others, rfl, distinct⟩ := inductionHypothesis
      refine ⟨⟨token, spanBehind before spelling⟩ :: others, by simp,
        List.forall_mem_cons.mpr ⟨?_, distinct⟩⟩
      rintro rfl
      exact some_ spelled

end Tiling

/-- The byte is in the characters that have some others before them. -/
def Holds (before part : List Char) (offset : Nat) : Prop :=
  byteLength before ≤ offset ∧ offset < byteLength (before ++ part)

/-- No lexeme reaches into the characters that have some others before them. -/
def Leaves (lexemes : List Lexeme) (before part : List Char) : Prop :=
  ∀ lexeme ∈ lexemes, lexeme.span.stop ≤ byteLength before ∨
    byteLength (before ++ part) ≤ lexeme.span.start

/-- The characters are a blank, a line end, or a comment up to the end of its line that no lexeme
reaches into. -/
def Gap (lexemes : List Lexeme) (before part behind : List Char) : Prop :=
  (∃ c, part = [c] ∧ isBlank c = true) ∨ part = ['\n'] ∨
    ∃ body, part = '/' :: '/' :: body ∧ '\n' ∉ body ∧ (behind = [] ∨ behind.head? = some '\n') ∧
      Leaves lexemes before part

/-- The byte is one of a lexeme. -/
def Taken (lexemes : List Lexeme) (offset : Nat) : Prop :=
  ∃ lexeme ∈ lexemes, lexeme.span.start ≤ offset ∧ offset < lexeme.span.stop

/-- The byte is in a gap of the rest of a text, behind what stands before it. -/
def Between (lexemes : List Lexeme) (before rest : List Char) (offset : Nat) : Prop :=
  ∃ gone part behind, rest = gone ++ part ++ behind ∧ Holds (before ++ gone) part offset ∧
    Gap lexemes (before ++ gone) part behind

section Between

variable {before part rest : List Char} {lexemes kept : List Lexeme} {offset : Nat}

theorem Holds.cases (part : List Char) (inside : Holds before (part ++ rest) offset) :
    Holds before part offset ∨ Holds (before ++ part) rest offset := by
  rw [Holds, ← List.append_assoc] at inside
  unfold Holds
  omega

theorem Gap.subset {behind : List Char} (gap : Gap lexemes before part behind)
    (fewer : kept ⊆ lexemes) : Gap kept before part behind := by
  rcases gap with blank | line | ⟨body, comment, inside, ends, free⟩
  · exact .inl blank
  · exact .inr (.inl line)
  · exact .inr (.inr ⟨body, comment, inside, ends, fun lexeme among => free lexeme (fewer among)⟩)

theorem Gap.between (gap : Gap lexemes before part rest) (inside : Holds before part offset) :
    Between lexemes before (part ++ rest) offset :=
  ⟨[], part, rest, rfl, by simpa using inside, by simpa using gap⟩

theorem Between.further (between : Between lexemes (before ++ part) rest offset) :
    Between lexemes before (part ++ rest) offset := by
  obtain ⟨gone, part', behind, rfl, inside, gap⟩ := between
  exact ⟨part ++ gone, part', behind, by simp, by simpa using inside, by simpa using gap⟩

/-- A lexeme in front of the rest of a text reaches into no gap of it. -/
theorem Between.cons {lexeme : Lexeme} (between : Between lexemes before rest offset)
    (ends : lexeme.span.stop ≤ byteLength before) :
    Between (lexeme :: lexemes) before rest offset := by
  obtain ⟨gone, part, behind, split, inside, gap⟩ := between
  refine ⟨gone, part, behind, split, inside, ?_⟩
  rcases gap with blank | line | ⟨body, comment, within, stops, free⟩
  · exact .inl blank
  · exact .inr (.inl line)
  · refine .inr (.inr ⟨body, comment, within, stops, List.forall_mem_cons.mpr ⟨.inl ?_, free⟩⟩)
    rw [byteLength_append]
    omega

/-- Each byte is one of a lexeme or in a gap. -/
theorem Tiling.taken_or_between (tiling : Tiling before rest lexemes)
    (inside : Holds before rest offset) :
    Taken lexemes offset ∨ Between lexemes before rest offset := by
  induction tiling with
  | @done before =>
      rw [Holds, List.append_nil] at inside
      omega
  | @blank before c _ _ blank _ inductionHypothesis =>
      rcases Holds.cases [c] inside with here | further
      · exact .inr (Gap.between (show Gap _ _ [c] _ from .inl ⟨c, rfl, blank⟩) here)
      · exact (inductionHypothesis further).imp_right Between.further
  | comment within ends further inductionHypothesis =>
      rcases inside.cases _ with here | later
      · exact .inr (Gap.between (.inr (.inr ⟨_, rfl, within, ends,
          fun lexeme among => .inr (further.le_start lexeme among)⟩)) here)
      · exact (inductionHypothesis later).imp_right Between.further
  | @line before rest lexemes _ inductionHypothesis =>
      rcases Holds.cases ['\n'] inside with here | later
      · exact .inl ⟨_, List.mem_cons_self, here⟩
      · rcases inductionHypothesis later with ⟨lexeme, among, taken⟩ | between
        · exact .inl ⟨lexeme, List.mem_cons_of_mem _ among, taken⟩
        · exact .inr (between.cons (Nat.le_refl _)).further
  | @lexeme before token spelling rest lexemes _ _ _ _ inductionHypothesis =>
      rcases inside.cases _ with here | later
      · exact .inl ⟨_, List.mem_cons_self, here⟩
      · rcases inductionHypothesis later with ⟨lexeme, among, taken⟩ | between
        · exact .inl ⟨lexeme, List.mem_cons_of_mem _ among, taken⟩
        · exact .inr (between.cons (Nat.le_refl _)).further

end Between

/-- Only line ends are dropped, and one may be kept for a later one. -/
theorem exists_joinLinesFrom (depth : Nat) (last : Option Token) (pending : Option Lexeme)
    (others : List Lexeme) {ends : Lexeme} (atEnd : ends.token = .eof) :
    ∃ kept, joinLinesFrom depth last pending (others ++ [ends]) = kept ++ [ends] ∧
      kept.Sublist (pending.toList ++ others) ∧
      ∀ lexeme ∈ others, lexeme.token ≠ .newline → lexeme ∈ kept := by
  induction others generalizing depth last pending with
  | nil =>
      refine ⟨[], ?_, List.nil_sublist _, List.forall_mem_nil _⟩
      simp [joinLinesFrom, atEnd]
  | cons lexeme others inductionHypothesis =>
      rw [List.cons_append, joinLinesFrom]
      split
      next line =>
        dsimp only
        generalize (decide (depth = 0) && last.any fun token => !token.expectsMore) = stops
        obtain ⟨kept, same, fewer, others_⟩ := inductionHypothesis depth last
          (pending.or (if stops then some lexeme else none))
        refine ⟨kept, same, fewer.trans ?_, List.forall_mem_cons.mpr
          ⟨fun other => absurd line other, others_⟩⟩
        cases pending <;> cases stops <;> simp
      next other =>
        obtain ⟨kept, same, fewer, others_⟩ := inductionHypothesis (lexeme.token.depthAfter depth)
          (some lexeme.token) none
        have breaks : (if lexeme.token.carriesOn || lexeme.token = .eof then [] else
            pending.toList).Sublist pending.toList := by
          split
          · exact List.nil_sublist _
          · exact List.Sublist.refl _
        refine ⟨_ ++ lexeme :: kept, ?_, breaks.append (fewer.cons_cons lexeme), ?_⟩
        · rw [same, List.append_assoc]
          rfl
        · simp only [List.mem_append, List.mem_cons, forall_eq_or_imp, true_or, or_true,
            implies_true, true_and]
          exact fun other among distinct => .inr (.inr (others_ other among distinct))

/-- The text with its comments blanked need not be put together to be scanned. -/
theorem lex_stripComments (text : String) :
    lex (stripComments text) = joinLines <$> scanFrom .start (blankComments .code text.toList) := by
  rw [lex, scan, stripComments, String.toList_ofList]

/-- The lexemes found by scanning a text, some line ends among them aside. -/
theorem exists_tiling_of_lex {text : String} {lexemes : List Lexeme}
    (accepted : lex (stripComments text) = .ok lexemes) :
    ∃ scanned others, Tiling [] text.toList scanned ∧
      lexemes = others ++ [⟨.eof, spanBehind text.toList []⟩] ∧
      (∀ lexeme ∈ others, lexeme.token ≠ .eof) ∧ lexemes.Sublist scanned ∧
      ∀ lexeme ∈ scanned, lexeme.token ≠ .newline → lexeme ∈ lexemes := by
  have explained := explained_scan text
  unfold lex at accepted
  cases found : scan (stripComments text) with
  | error diagnostic => rw [found] at accepted; cases accepted
  | ok scanned =>
      rw [found] at accepted explained
      cases accepted
      have tiling : Tiling [] text.toList scanned := explained
      obtain ⟨others, split, distinct⟩ := tiling.exists_ends
      rw [List.nil_append] at split
      subst split
      obtain ⟨kept, joined, fewer, found⟩ := exists_joinLinesFrom 0 none none others
        (show (⟨.eof, spanBehind text.toList []⟩ : Lexeme).token = .eof from rfl)
      refine ⟨_, kept, tiling, joined, fun lexeme among => distinct lexeme (fewer.subset among), ?_,
        ?_⟩
      · rw [joinLines, joined]
        exact fewer.append (List.Sublist.refl _)
      · rw [joinLines, joined]
        intro lexeme among distinct
        rcases List.mem_append.mp among with among | last
        · exact List.mem_append_left _ (found lexeme among distinct)
        · exact List.mem_append_right _ last

/-- The lexemes of a text, and what it consists of besides. -/
structure Tiles (text : String) (lexemes : List Lexeme) : Prop where
  ordered : lexemes.Pairwise fun earlier later => earlier.span.stop ≤ later.span.start
  /-- Each lexeme has the bytes and the line of what it is written as in the text. -/
  spelled : ∀ lexeme ∈ lexemes, ∃ before spelling behind,
    text.toList = before ++ spelling ++ behind ∧ lexeme.span = spanBehind before spelling ∧
      lexeme.token.SpelledAs spelling
  /-- The last lexeme stands for the end of the text, and no other does. -/
  ends : ∃ others, lexemes = others ++ [⟨.eof, spanBehind text.toList []⟩] ∧
    ∀ lexeme ∈ others, lexeme.token ≠ .eof
  covered : ∀ offset < byteLength text.toList,
    Taken lexemes offset ∨ Between lexemes [] text.toList offset

/-- Blanking comments and cutting what is left into lexemes is to find the lexemes that tile the
text as it was before. -/
theorem tiles_of_lex {text : String} {lexemes : List Lexeme}
    (accepted : lex (stripComments text) = .ok lexemes) : Tiles text lexemes := by
  obtain ⟨scanned, others, tiling, ends, distinct, fewer, kept⟩ := exists_tiling_of_lex accepted
  refine ⟨tiling.pairwise.sublist fewer,
    fun lexeme among => tiling.spelled lexeme (fewer.subset among),
    ⟨others, ends, distinct⟩, fun offset within => ?_⟩
  have inside : Holds [] text.toList offset := ⟨Nat.zero_le _, within⟩
  rcases tiling.taken_or_between inside with ⟨lexeme, among, taken⟩ | between
  · by_cases line : lexeme.token = .newline
    · -- A line end that ends no statement is one of the gaps.
      obtain ⟨front, spelling, behind, split, span, spelled⟩ := tiling.spelled lexeme among
      rw [line] at spelled
      have written : spelling = ['\n'] := spelled
      rw [span] at taken
      exact .inr ⟨front, spelling, behind, split, by simpa [spanBehind, Holds] using taken,
        .inr (.inl written)⟩
    · exact .inl ⟨lexeme, kept lexeme among line, taken⟩
  · obtain ⟨gone, part, behind, split, inside, gap⟩ := between
    exact .inr ⟨gone, part, behind, split, inside, gap.subset fewer.subset⟩

/-- A comment marker in a string, a quote in a comment, and characters of two bytes in both. -/
def slashesInText : String := "say 'a//é' // it's é\n+ t<m/s>"

theorem slashesInText_tiled :
    ∃ lexemes, lex (stripComments slashesInText) = .ok lexemes ∧
      lexemes.map (·.span) = [⟨0, 3, 1⟩, ⟨4, 11, 1⟩, ⟨23, 24, 2⟩, ⟨25, 26, 2⟩, ⟨26, 31, 2⟩,
        ⟨31, 31, 2⟩] ∧ Tiles slashesInText lexemes := by
  have found : (lex (stripComments slashesInText)).toOption.map (·.map (·.span)) =
      some [⟨0, 3, 1⟩, ⟨4, 11, 1⟩, ⟨23, 24, 2⟩, ⟨25, 26, 2⟩, ⟨26, 31, 2⟩, ⟨31, 31, 2⟩] := by
    decide +kernel
  cases accepted : lex (stripComments slashesInText) with
  | error diagnostic =>
      rw [accepted] at found
      cases found
  | ok lexemes =>
      rw [accepted] at found
      exact ⟨lexemes, rfl, Option.some.inj found, tiles_of_lex accepted⟩

end EntityScript
