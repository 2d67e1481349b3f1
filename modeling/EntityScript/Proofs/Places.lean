import EntityScript.Block.Lexemes

/-!
Places in a text.  A place is named by the characters before it: they fix its byte offset, its
line and its column.  Lines count from one, columns count the characters of a line from one.
-/

namespace EntityScript.Source

variable {text : String} {before behind more : List Char}

@[simp]
theorem byteLength_nil : byteLength [] = 0 := rfl

@[simp]
theorem byteLength_cons (c : Char) (cs : List Char) :
    byteLength (c :: cs) = c.utf8Size + byteLength cs := rfl

@[simp]
theorem byteLength_append (before behind : List Char) :
    byteLength (before ++ behind) = byteLength before + byteLength behind := by
  induction before with
  | nil => simp
  | cons c rest inductionHypothesis => simp [inductionHypothesis, Nat.add_assoc]

theorem eq_nil_of_byteLength {cs : List Char} (empty : byteLength cs = 0) : cs = [] := by
  cases cs with
  | nil => rfl
  | cons c rest =>
      have positive := c.utf8Size_pos
      rw [byteLength_cons] at empty
      omega

/-- The line that a text has come to behind the characters. -/
def lineBehind (before : List Char) : Nat := 1 + before.count '\n'

@[simp]
theorem lineBehind_append (before behind : List Char) :
    lineBehind (before ++ behind) = lineBehind before + behind.count '\n' := by
  rw [lineBehind, lineBehind, List.count_append, Nat.add_assoc]

/-- The offset is that of a character of the text or of its end, on the given line and in the
given column: of what stands before it, some is on earlier lines and the rest on the current. -/
def IsAt (text : String) (offset line column : Nat) : Prop :=
  ∃ earlier current behind, text.toList = earlier ++ current ++ behind ∧
    (earlier = [] ∨ earlier.getLast? = some '\n') ∧ '\n' ∉ current ∧
    byteLength (earlier ++ current) = offset ∧ lineBehind earlier = line ∧
    1 + current.length = column

/-- What stands before a place falls into earlier lines and the current one. -/
theorem exists_current (before : List Char) :
    ∃ earlier current, before = earlier ++ current ∧
      (earlier = [] ∨ earlier.getLast? = some '\n') ∧ '\n' ∉ current := by
  induction before with
  | nil => exact ⟨[], [], rfl, .inl rfl, List.not_mem_nil⟩
  | cons c rest inductionHypothesis =>
      obtain ⟨earlier, current, rfl, whole, inside⟩ := inductionHypothesis
      by_cases ends : c = '\n'
      · subst ends
        refine ⟨'\n' :: earlier, current, rfl, .inr ?_, inside⟩
        rcases whole with rfl | last
        · rfl
        · simp [List.getLast?_cons, last]
      · rcases whole with rfl | last
        · exact ⟨[], c :: current, rfl, .inl rfl,
            fun found => (List.mem_cons.mp found).elim (fun same => ends same.symm) inside⟩
        · exact ⟨c :: earlier, current, rfl, .inr (by simp [List.getLast?_cons, last]), inside⟩

theorem columnFrom_here (behind : List Char) (position column : Nat) :
    columnFrom position behind position column = column := by
  cases behind with
  | nil => rfl
  | cons c rest => exact if_pos (Nat.le_refl position)

theorem columnFrom_cons (c : Char) (rest behind : List Char) (position column : Nat) :
    columnFrom (position + byteLength (c :: rest)) (c :: (rest ++ behind)) position column =
      columnFrom (position + c.utf8Size + byteLength rest) (rest ++ behind)
        (position + c.utf8Size) (if c = '\n' then 1 else column + 1) := by
  have positive := c.utf8Size_pos
  rw [columnFrom, if_neg (by rw [byteLength_cons]; omega), byteLength_cons, Nat.add_assoc]

/-- On the current line each character is a column. -/
theorem columnFrom_current {current : List Char} (inside : '\n' ∉ current) (behind : List Char)
    (position column : Nat) :
    columnFrom (position + byteLength current) (current ++ behind) position column =
      column + current.length := by
  induction current generalizing position column with
  | nil => exact columnFrom_here behind position column
  | cons c rest inductionHypothesis =>
      obtain ⟨other, inside⟩ := not_or.mp (mt List.mem_cons.mpr inside)
      rw [List.cons_append, columnFrom_cons, if_neg (Ne.symm other), inductionHypothesis inside,
        List.length_cons]
      omega

/-- Each line starts in the first column. -/
theorem columnFrom_earlier {earlier : List Char} (last : earlier.getLast? = some '\n')
    (offset : Nat) (behind : List Char) (position column : Nat) :
    columnFrom (position + byteLength earlier + offset) (earlier ++ behind) position column =
      columnFrom (position + byteLength earlier + offset) behind
        (position + byteLength earlier) 1 := by
  induction earlier generalizing position column with
  | nil => cases last
  | cons c rest inductionHypothesis =>
      have positive := c.utf8Size_pos
      rw [List.cons_append, columnFrom, if_neg (by rw [byteLength_cons]; omega), byteLength_cons,
        ← Nat.add_assoc]
      cases rest with
      | nil =>
          cases last
          rfl
      | cons d rest =>
          rw [List.getLast?_cons_cons] at last
          exact inductionHypothesis last _ _

/-- The column of an offset is the one that the characters before it have come to. -/
theorem isAt_column (split : text.toList = before ++ behind) :
    IsAt text (byteLength before) (lineBehind before) (column text (byteLength before)) := by
  obtain ⟨earlier, current, rfl, whole, inside⟩ := exists_current before
  refine ⟨earlier, current, behind, split, whole, inside, rfl, ?_, ?_⟩
  · rw [lineBehind_append, List.count_eq_zero.mpr inside, Nat.add_zero]
  · rw [column, split, List.append_assoc, byteLength_append]
    rcases whole with rfl | last
    · have counted := columnFrom_current inside behind 0 1
      simpa using counted.symm
    · have skipped := columnFrom_earlier last (byteLength current) (current ++ behind) 0 1
      rw [Nat.zero_add] at skipped
      rw [skipped]
      exact (columnFrom_current inside behind _ 1).symm

/-- The offset is that of a character of the text or of its end, on the given line. -/
def Touches (text : String) (offset line : Nat) : Prop :=
  ∃ before behind, text.toList = before ++ behind ∧ byteLength before = offset ∧
    lineBehind before = line

/-- The span is one of the text, and its line is the one that it starts on. -/
structure Marks (text : String) (span : Span) : Prop where
  starts : Touches text span.start span.line
  stops : ∃ line, Touches text span.stop line
  ordered : span.start ≤ span.stop

theorem Touches.isAt {offset line : Nat} (touches : Touches text offset line) :
    IsAt text offset line (column text offset) := by
  obtain ⟨before, behind, split, rfl, rfl⟩ := touches
  exact isAt_column split

/-- The span of the last characters of a text so far. -/
def spanBehind (before spelling : List Char) : Span :=
  ⟨byteLength before, byteLength (before ++ spelling), lineBehind before⟩

theorem marks_spanBehind {spelling : List Char}
    (split : text.toList = before ++ spelling ++ behind) :
    Marks text (spanBehind before spelling) where
  starts := ⟨before, spelling ++ behind, by rw [split, List.append_assoc], rfl, rfl⟩
  stops := ⟨_, before ++ spelling, behind, split, rfl, rfl⟩
  ordered := by
    rw [spanBehind, byteLength_append]
    exact Nat.le_add_right _ _

/-- Of two places in a text the one with the smaller offset is on no later line. -/
theorem Touches.line_le {offset offset' line line' : Nat} (touches : Touches text offset line)
    (touches' : Touches text offset' line') (within : offset ≤ offset') : line ≤ line' := by
  obtain ⟨before, behind, split, rfl, rfl⟩ := touches
  obtain ⟨before', behind', split', rfl, rfl⟩ := touches'
  rcases List.append_eq_append_iff.mp (split.symm.trans split') with
    ⟨part, rfl, _⟩ | ⟨part, rfl, _⟩
  · rw [lineBehind_append]
    exact Nat.le_add_right _ _
  · rw [byteLength_append] at within
    have empty : part = [] := eq_nil_of_byteLength (by omega)
    exact Nat.le_of_eq (by rw [empty, List.append_nil])

theorem Touches.line_unique {offset line line' : Nat} (touches : Touches text offset line)
    (touches' : Touches text offset line') : line = line' :=
  Nat.le_antisymm (touches.line_le touches' (Nat.le_refl _))
    (touches'.line_le touches (Nat.le_refl _))

theorem IsAt.touches {offset line column : Nat} (here : IsAt text offset line column) :
    Touches text offset line := by
  obtain ⟨earlier, current, behind, split, _, inside, rfl, rfl, _⟩ := here
  refine ⟨earlier ++ current, behind, split, rfl, ?_⟩
  rw [lineBehind_append, List.count_eq_zero.mpr inside, Nat.add_zero]

theorem Marks.union {a b : Span} (marks : Marks text a) (marks' : Marks text b) :
    Marks text (a.union b) := by
  refine ⟨?_, ?_, ?_⟩
  · rcases Nat.le_total a.start b.start with earlier | later
    · have lines := marks.starts.line_le marks'.starts earlier
      rw [Span.union, Nat.min_eq_left earlier, Nat.min_eq_left lines]
      exact marks.starts
    · have lines := marks'.starts.line_le marks.starts later
      rw [Span.union, Nat.min_eq_right later, Nat.min_eq_right lines]
      exact marks'.starts
  · rcases Nat.le_total a.stop b.stop with earlier | later
    · rw [Span.union, Nat.max_eq_right earlier]
      exact marks'.stops
    · rw [Span.union, Nat.max_eq_left later]
      exact marks.stops
  · have ordered := marks.ordered
    dsimp only [Span.union]
    omega

/-- The earlier lines of a place are all of the text in front of its line. -/
theorem earlier_unique {earlier earlier' behind behind' : List Char}
    (split : text.toList = earlier ++ behind) (split' : text.toList = earlier' ++ behind')
    (whole : earlier = [] ∨ earlier.getLast? = some '\n')
    (whole' : earlier' = [] ∨ earlier'.getLast? = some '\n')
    (same : lineBehind earlier = lineBehind earlier') : earlier = earlier' := by
  -- What one of them has more would end with a line end, and so be on another line.
  have nothing {cs part : List Char} (whole : cs ++ part = [] ∨ (cs ++ part).getLast? = some '\n')
      (same : lineBehind cs = lineBehind (cs ++ part)) : part = [] := by
    rcases List.eq_nil_or_concat part with empty | ⟨front, last, rfl⟩
    · exact empty
    · have ends : last = '\n' := by simpa [List.concat_eq_append, ← List.append_assoc] using whole
      rw [lineBehind_append, ends, List.concat_eq_append, List.count_append] at same
      simp at same
  rcases List.append_eq_append_iff.mp (split.symm.trans split') with
    ⟨part, rfl, _⟩ | ⟨part, rfl, _⟩
  · rw [nothing whole' same, List.append_nil]
  · rw [nothing whole same.symm, List.append_nil]

/-- A line and a column name one place. -/
theorem IsAt.offset_unique {offset offset' line column : Nat} (here : IsAt text offset line column)
    (there : IsAt text offset' line column) : offset = offset' := by
  obtain ⟨earlier, current, behind, split, whole, _, rfl, lines, columns⟩ := here
  obtain ⟨earlier', current', behind', split', whole', _, rfl, lines', columns'⟩ := there
  rw [List.append_assoc] at split split'
  cases earlier_unique split split' whole whole' (lines.trans lines'.symm)
  have rests := List.append_cancel_left (split.symm.trans split')
  have lengths : current.length = current'.length := by omega
  rw [(List.append_inj rests lengths).1]

end EntityScript.Source
