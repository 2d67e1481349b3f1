import EntityScript.Proofs.TrailingBlanks

/-!
Comments behind the code of a line.  A comment is blanked before its text is cut into lexemes, so
that the characters in front of it are followed by blanks and the end of the line, where they were
followed by the end of the line alone.
-/

namespace EntityScript.Source

/-- What the character that follows the others is part of. -/
def CommentState.behind : CommentState → List Char → CommentState
  | state, [] => state
  | .code, c :: rest =>
      if c = '/' ∧ rest.head? = some '/' then behind .comment rest
      else behind (if isQuote c then .quoted c else .code) rest
  | .quoted quote, c :: rest =>
      behind (if c = quote ∨ c = '\n' then .code else .quoted quote) rest
  | .comment, c :: rest => behind (if c = '\n' then .code else .comment) rest

section Comments

variable {before behind : List Char} {state : CommentState}

/-- What follows some characters is blanked as what they have come to. -/
theorem blankComments_append (other : behind.head? ≠ some '/') :
    blankComments state (before ++ behind) =
      blankComments state before ++ blankComments (state.behind before) behind := by
  fun_induction CommentState.behind state before with
  | case1 state => rw [blankComments_nil, List.nil_append, List.nil_append]
  | case2 c rest slashes inductionHypothesis =>
      obtain ⟨more, rfl⟩ := List.head?_eq_some_iff.mp slashes.2
      rw [List.cons_append, blankComments, if_pos ⟨slashes.1, rfl⟩, inductionHypothesis,
        blankComments, if_pos slashes, List.cons_append]
  | case3 c rest single inductionHypothesis =>
      have single_ : ¬(c = '/' ∧ (rest ++ behind).head? = some '/') := by
        cases rest with
        | nil => exact fun slashes => other slashes.2
        | cons d rest => exact single
      rw [List.cons_append, blankComments, if_neg single_, inductionHypothesis, blankComments,
        if_neg single, List.cons_append]
  | case4 quote c rest inductionHypothesis =>
      rw [List.cons_append, blankComments, inductionHypothesis, blankComments, List.cons_append]
  | case5 c rest inductionHypothesis =>
      rw [List.cons_append, blankComments, blankComments]
      split at inductionHypothesis
      next ends => rw [if_pos ends, if_pos ends, inductionHypothesis, List.cons_append, if_pos ends]
      next ends =>
        rw [if_neg ends, if_neg ends, inductionHypothesis, List.append_assoc, if_neg ends]

theorem byteLength_replicate (count : Nat) : byteLength (List.replicate count ' ') = count := by
  induction count with
  | zero => rfl
  | succ count inductionHypothesis =>
      rw [List.replicate_succ, byteLength_cons, inductionHypothesis, Nat.add_comm]
      rfl

/-- Blanking keeps the bytes. -/
theorem byteLength_blankComments (state : CommentState) (cs : List Char) :
    byteLength (blankComments state cs) = byteLength cs := by
  fun_induction blankComments state cs with
  | case1 => rfl
  | case2 c rest slashes inductionHypothesis =>
      rw [byteLength_cons, inductionHypothesis, slashes.1]
      rfl
  | case3 c rest _ inductionHypothesis => rw [byteLength_cons, inductionHypothesis]; rfl
  | case4 quote c rest inductionHypothesis => rw [byteLength_cons, inductionHypothesis]; rfl
  | case5 rest inductionHypothesis => rw [byteLength_cons, inductionHypothesis]; rfl
  | case6 c rest _ inductionHypothesis =>
      rw [byteLength_append, byteLength_replicate, inductionHypothesis]
      rfl

/-- What a comment is put behind need not be code: it may be a comment as well. -/
theorem blankComments_trailing {note : List Char} (unquoted : ∀ quote, state ≠ .quoted quote)
    (inside : '\n' ∉ note) (ends : behind = [] ∨ behind.head? = some '\n') :
    blankComments state (' ' :: '/' :: '/' :: note ++ behind) =
      List.replicate (byteLength (' ' :: '/' :: '/' :: note)) ' ' ++
        blankComments .code behind := by
  cases state with
  | code =>
      have blanked := blankComments_slashes inside ends
      rw [List.cons_append, blankComments, if_neg (by simp), if_neg (by decide), blanked,
        byteLength_cons ' ', ← List.replicate_append_replicate]
      rfl
  | quoted quote => exact absurd rfl (unquoted quote)
  | comment => exact blankComments_comment (by simpa using inside) ends

theorem blankComments_line (unquoted : ∀ quote, state ≠ .quoted quote)
    (ends : behind = [] ∨ behind.head? = some '\n') :
    blankComments state behind = blankComments .code behind := by
  rcases ended_cases ends with rfl | ⟨more, rfl⟩
  · rw [blankComments_nil, blankComments_nil]
  · cases state with
    | quoted quote => exact absurd rfl (unquoted quote)
    | code | comment => rfl

theorem columnFrom_passed {offset position : Nat} (passed : offset ≤ position) (cs : List Char)
    (column : Nat) : columnFrom offset cs position column = column := by
  cases cs with
  | nil => rfl
  | cons c rest => exact if_pos passed

/-- What follows a place has no part in its column. -/
theorem columnFrom_append {offset position : Nat} (column : Nat)
    (within : offset ≤ position + byteLength before) :
    columnFrom offset (before ++ behind) position column =
      columnFrom offset before position column := by
  induction before generalizing position column with
  | nil => exact columnFrom_passed within behind column
  | cons c rest inductionHypothesis =>
      rw [byteLength_cons, ← Nat.add_assoc] at within
      rw [List.cons_append, columnFrom, columnFrom, inductionHypothesis _ within]

theorem columnFrom_shift (offset : Nat) (cs : List Char) (position column size : Nat) :
    columnFrom (offset + size) cs (position + size) column =
      columnFrom offset cs position column := by
  induction cs generalizing position column with
  | nil => rfl
  | cons c rest inductionHypothesis =>
      simp only [columnFrom, Nat.add_le_add_iff_right, Nat.add_right_comm position size,
        inductionHypothesis]

/-- The two places, each in its own text, are in one column. -/
def SameColumn (text other : String) (offset offset' : Nat) : Prop :=
  column text offset = column other offset'

variable {text other : String} {offset : Nat}

theorem sameColumn_early {behind' : List Char} (split : text.toList = before ++ behind)
    (split' : other.toList = before ++ behind') (early : offset < byteLength before) :
    SameColumn text other offset offset := by
  have within : offset ≤ 0 + byteLength before := by omega
  rw [SameColumn, column, column, split, split', columnFrom_append 1 within,
    columnFrom_append 1 within]

/-- Characters put in on an earlier line leave the columns of a line. -/
theorem sameColumn_late {put : List Char} (split : text.toList = before ++ '\n' :: behind)
    (split' : other.toList = before ++ put ++ '\n' :: behind)
    (late : byteLength before < offset) :
    SameColumn text other offset (offset + byteLength put) := by
  obtain ⟨further, rfl⟩ := Nat.exists_eq_add_of_lt late
  have skipped (earlier : List Char) :
      columnFrom (byteLength earlier + 1 + further) (earlier ++ '\n' :: behind) 0 1 =
        columnFrom (byteLength earlier + 1 + further) behind (byteLength earlier + 1) 1 := by
    have last : (earlier ++ ['\n']).getLast? = some '\n' := List.getLast?_concat
    simpa [show '\n'.utf8Size = 1 from rfl] using columnFrom_earlier last further behind 0 1
  rw [SameColumn, column, column, split, split', Nat.add_right_comm (byteLength before) further 1,
    skipped, ← columnFrom_shift _ _ _ _ (byteLength put)]
  have place : byteLength before + 1 + further + byteLength put =
      byteLength (before ++ put) + 1 + further := by
    rw [byteLength_append]
    omega
  rw [place, skipped, byteLength_append, Nat.add_right_comm (byteLength before) 1]

end Comments

end EntityScript.Source

namespace EntityScript

open Source

/-- Blanked, a comment at the end of a line is blanks there. -/
theorem sameOutcome_comment {before note behind : List Char} {moves : Nat → Nat → Prop}
    (unquoted : ∀ quote, CommentState.behind .code before ≠ .quoted quote) (inside : '\n' ∉ note)
    (ends : behind = [] ∨ behind.head? = some '\n')
    (early : ∀ offset, offset < byteLength before → moves offset offset)
    (late : behind.head? = some '\n' → ∀ offset, byteLength before < offset →
      moves offset (offset + byteLength (' ' :: '/' :: '/' :: note))) :
    SameOutcome moves (scanFrom .start (blankComments .code (before ++ behind)))
      (scanFrom .start
        (blankComments .code (before ++ (' ' :: '/' :: '/' :: note ++ behind)))) := by
  have apart : behind.head? ≠ some '/' := by
    rcases ended_cases ends with rfl | ⟨more, rfl⟩ <;> simp
  have place : Cursor.start.offset + byteLength (blankComments .code before) = byteLength before :=
    (Nat.zero_add _).trans (byteLength_blankComments .code before)
  rw [blankComments_append apart, blankComments_append (by simp), blankComments_line unquoted ends,
    blankComments_trailing unquoted inside ends]
  refine sameOutcome_blanks ?_ _ _ (place ▸ early) fun further => ?_
  · rcases ended_cases ends with rfl | ⟨more, rfl⟩
    · exact .inl (blankComments_nil .code)
    · exact .inr rfl
  · rw [place]
    refine late (ends.resolve_left ?_)
    rintro rfl
    exact further (blankComments_nil .code)

/-- A comment put in at the end of a line has no part in what the text is cut into: the tokens and
their lines are the same and, line ends and the end of the text aside, their columns, or the problem
with its line and its column. -/
theorem sameOutcome_trailing_comment {before note behind : String}
    (unquoted : ∀ quote, CommentState.behind .code before.toList ≠ .quoted quote)
    (inside : '\n' ∉ note.toList)
    (ends : behind.toList = [] ∨ behind.toList.head? = some '\n') :
    SameOutcome (SameColumn (before ++ behind) (before ++ " //" ++ note ++ behind))
      (lex (stripComments (before ++ behind)))
      (lex (stripComments (before ++ " //" ++ note ++ behind))) := by
  have split : (before ++ behind).toList = before.toList ++ behind.toList := String.toList_append
  have split' : (before ++ " //" ++ note ++ behind).toList =
      before.toList ++ (' ' :: '/' :: '/' :: note.toList ++ behind.toList) := by
    simp
  rw [lex_stripComments, lex_stripComments, split, split']
  refine (sameOutcome_comment unquoted inside ends (fun offset early => ?_)
    fun line offset late => ?_).joinLines
  · exact sameColumn_early split split' early
  · obtain ⟨more, broken⟩ := List.head?_eq_some_iff.mp line
    rw [broken] at split split'
    rw [← List.append_assoc] at split'
    exact sameColumn_late split split' late

def sumStart : String := "x = 'é//' +"

def remark : String := " it's \"é\" // or not"

def sumRest : String := "\n  y & z"

/-- A remark with quotes and comment marks of its own behind a string with them, in front of a line
with a problem. -/
theorem remark_invisible :
    SameOutcome (SameColumn (sumStart ++ sumRest) (sumStart ++ " //" ++ remark ++ sumRest))
      (lex (stripComments (sumStart ++ sumRest)))
      (lex (stripComments (sumStart ++ " //" ++ remark ++ sumRest))) ∧
    lex (stripComments (sumStart ++ sumRest)) = .error ⟨.lexical .loneAmpersand, ⟨17, 18, 2⟩⟩ := by
  refine ⟨sameOutcome_trailing_comment ?_ (by decide +kernel) (.inr (by decide +kernel)), ?_⟩
  · have code : CommentState.behind .code sumStart.toList = .code := by decide +kernel
    rw [code]
    nofun
  · decide +kernel

end EntityScript
