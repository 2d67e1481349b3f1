import Mathlib.Data.List.Forall2
import EntityScript.Proofs.Lexing

/-!
Blanks at the end of a line.  Nothing that is cut off a text reaches over the end of a line or over
blanks in front of it, strings aside, which are not closed there.  So more blanks there leave the
tokens in front of them, and those on further lines are only further on in the text.
-/

namespace EntityScript

open Source

theorem ended_cases {cs : List Char} (ends : cs = [] ∨ cs.head? = some '\n') :
    cs = [] ∨ ∃ more, cs = '\n' :: more :=
  ends.imp_right List.head?_eq_some_iff.mp

/-- The characters are blanks up to the end of a line. -/
def Idle (tail : List Char) : Prop :=
  ∃ count rest, tail = List.replicate count ' ' ++ rest ∧ (rest = [] ∨ rest.head? = some '\n')

section Idle

variable {tail : List Char} {p : Char → Bool}

theorem Idle.head_eq {c : Char} (idle : Idle tail) (first : tail.head? = some c) :
    c = ' ' ∨ c = '\n' := by
  obtain ⟨count, rest, rfl, ends⟩ := idle
  cases count with
  | zero =>
      rcases ended_cases ends with rfl | ⟨more, rfl⟩
      · cases first
      · exact .inr (Option.some.inj first).symm
  | succ count => exact .inl (Option.some.inj first).symm

theorem Idle.takeWhile_eq_nil (idle : Idle tail) (stops : p ' ' = false ∧ p '\n' = false) :
    tail.takeWhile p = [] := by
  cases tail with
  | nil => rfl
  | cons c tail =>
      refine List.takeWhile_cons_of_neg ?_
      rcases idle.head_eq rfl with rfl | rfl
      · simp [stops.1]
      · simp [stops.2]

variable (front : List Char)

theorem Idle.head?_append {c : Char} (idle : Idle tail) (other : c ≠ ' ' ∧ c ≠ '\n') :
    (front ++ tail).head? = some c ↔ front.head? = some c := by
  cases front with
  | nil =>
      exact ⟨fun first => (idle.head_eq first).elim (absurd · other.1) (absurd · other.2), nofun⟩
  | cons d front => rfl

theorem Idle.takeWhile_append (idle : Idle tail) (stops : p ' ' = false ∧ p '\n' = false) :
    (front ++ tail).takeWhile p = front.takeWhile p := by
  rw [List.takeWhile_append, idle.takeWhile_eq_nil stops, List.append_nil]
  split
  next whole => exact (List.takeWhile_prefix p).eq_of_length whole |>.symm
  next => rfl

theorem Idle.dropWhile_append (idle : Idle tail) (stops : p ' ' = false ∧ p '\n' = false) :
    (front ++ tail).dropWhile p = front.dropWhile p ++ tail := by
  have same : front.takeWhile p ++ (front ++ tail).dropWhile p =
      front.takeWhile p ++ (front.dropWhile p ++ tail) := by
    rw [← List.append_assoc, List.takeWhile_append_dropWhile, ← idle.takeWhile_append front stops,
      List.takeWhile_append_dropWhile]
  exact List.append_cancel_left same

theorem Idle.takeDigits_append (idle : Idle tail) :
    Number.takeDigits (front ++ tail) =
      ((Number.takeDigits front).1, (Number.takeDigits front).2 ++ tail) := by
  have stops : Char.isDigit ' ' = false ∧ Char.isDigit '\n' = false := by decide
  rw [Number.takeDigits, Number.takeDigits, List.span_eq_takeWhile_dropWhile,
    List.span_eq_takeWhile_dropWhile, idle.takeWhile_append front stops,
    idle.dropWhile_append front stops]

variable {front}

theorem scanAssign_append (idle : Idle tail) (plain assigned : Token) :
    scanAssign (front ++ tail) plain assigned = scanAssign front plain assigned := by
  have plainly {cs : List Char} (other : cs.head? ≠ some '=') :
      scanAssign cs plain assigned = .ok (plain, 0) := by
    unfold scanAssign
    split
    next => exact absurd rfl other
    next => rfl
  by_cases equals : front.head? = some '='
  · obtain ⟨behind, rfl⟩ := List.head?_eq_some_iff.mp equals
    rfl
  · rw [plainly equals, plainly (mt (idle.head?_append _ (by decide)).mp equals)]

theorem scanDouble_append {c : Char} (idle : Idle tail) (other : c ≠ ' ' ∧ c ≠ '\n')
    (token : Token) (problem : LexicalProblem) :
    scanDouble c (front ++ tail) token problem = scanDouble c front token problem := by
  rw [scanDouble, scanDouble]
  simp only [idle.head?_append front other]

theorem scanWord_append (c : Char) (idle : Idle tail) :
    scanWord c (front ++ tail) = scanWord c front := by
  rw [scanWord, scanWord, idle.takeWhile_append front (by decide)]

theorem scanLess_append (previous : Option Char) (idle : Idle tail) :
    scanLess previous (front ++ tail) = scanLess previous front := by
  have stops : isUnitChar ' ' = false ∧ isUnitChar '\n' = false := by decide
  have closes : ((front ++ tail).drop ((front ++ tail).takeWhile isUnitChar).length).head? =
      some '>' ↔ (front.drop (front.takeWhile isUnitChar).length).head? = some '>' := by
    rw [idle.takeWhile_append front stops,
      List.drop_append_of_le_length (List.takeWhile_prefix _).length_le]
    exact idle.head?_append _ (by decide)
  rw [scanLess, scanLess, scanAssign_append idle]
  simp only [Bool.and_eq_true, beq_iff_eq, closes]
  rw [idle.takeWhile_append front stops]

/-- The digits of a fraction, where a point and digits come next. -/
def fractionOf (after : List Char) : List Char :=
  match after with
  | '.' :: behind => (Number.takeDigits behind).1
  | _ => []

theorem fractionOf_eq_nil {after : List Char} (other : after.head? ≠ some '.') :
    fractionOf after = [] := by
  unfold fractionOf
  split
  next => exact absurd rfl other
  next => rfl

theorem fractionOf_append (idle : Idle tail) : fractionOf (front ++ tail) = fractionOf front := by
  by_cases points : front.head? = some '.'
  · obtain ⟨behind, rfl⟩ := List.head?_eq_some_iff.mp points
    have digits := congrArg Prod.fst (idle.takeDigits_append behind)
    exact digits
  · rw [fractionOf_eq_nil points,
      fractionOf_eq_nil (mt (idle.head?_append _ (by decide)).mp points)]

theorem scanNumber_eq (c : Char) (rest : List Char) :
    scanNumber c rest =
      let (more, after) := Number.takeDigits rest
      if fractionOf after = [] then .ok (.number (Number.ofDigits (c :: more) [] 0), more.length)
      else .ok (.number (Number.ofDigits (c :: more) (fractionOf after) 0),
        more.length + 1 + (fractionOf after).length) := rfl

theorem scanNumber_append (c : Char) (idle : Idle tail) :
    scanNumber c (front ++ tail) = scanNumber c front := by
  rw [scanNumber_eq, scanNumber_eq, idle.takeDigits_append front]
  dsimp only
  rw [fractionOf_append idle]

/-- A string that is not closed on its line is not with blanks at the end of the line either. -/
theorem scanText_append {quote : Char} (quoted : isQuote quote = true) (idle : Idle tail) :
    (scanText quote (front ++ tail)).mapError Prod.fst =
      (scanText quote front).mapError Prod.fst := by
  obtain ⟨count, rest, rfl, ends⟩ := idle
  have solid : quote ≠ ' ' ∧ quote ≠ '\n' := by
    constructor <;> (rintro rfl; cases quoted)
  rw [scanText, scanText]
  generalize inside : (fun c => c != quote && c != '\n') = p
  have blanks : ∀ c ∈ List.replicate count ' ', p c = true := by
    rintro c among
    rw [List.eq_of_mem_replicate among, ← inside]
    simp [solid.1.symm]
  have line : rest.takeWhile p = [] := by
    rcases ended_cases ends with rfl | ⟨more, rfl⟩
    · rfl
    · exact List.takeWhile_cons_of_neg (by simp [← inside])
  have unclosed : rest.head? ≠ some quote := by
    rcases ended_cases ends with rfl | ⟨more, rfl⟩
    · nofun
    · exact fun same => solid.2 (Option.some.inj same).symm
  by_cases whole : front.takeWhile p = front
  · have all : ∀ c ∈ front ++ List.replicate count ' ', p c = true :=
      List.forall_mem_append.mpr ⟨List.takeWhile_eq_self_iff.mp whole, blanks⟩
    have ended : ([] : List Char).head? ≠ some quote := nofun
    rw [whole, List.drop_length, if_neg ended, ← List.append_assoc,
      List.takeWhile_append_of_pos all, line, List.append_nil, List.drop_left, if_neg unclosed]
    rfl
  · have stops : (front.takeWhile p).length < front.length :=
      Nat.lt_of_le_of_ne (List.takeWhile_prefix p).length_le
        (mt (List.takeWhile_prefix p).eq_of_length whole)
    rw [List.takeWhile_append, if_neg stops.ne,
      List.drop_append_of_le_length stops.le, List.head?_append_of_ne_nil]
    exact mt List.drop_eq_nil_iff.mp (Nat.not_le.mpr stops)

/-- Blanks up to the end of the line change neither the token cut off in front of them nor what
is wrong there. -/
theorem scanToken_append (previous : Option Char) (c : Char) (idle : Idle tail) :
    (scanToken previous c (front ++ tail)).mapError Prod.fst =
      (scanToken previous c front).mapError Prod.fst := by
  unfold scanToken
  split
  all_goals first
    | rfl
    | rw [scanAssign_append idle]
    | rw [scanLess_append _ idle]
    | rw [scanDouble_append idle (by decide)]
    | exact scanText_append rfl idle
    | skip
  · simp only [idle.head?_append front (c := ':') (by decide)]
  · simp only [idle.head?_append front (c := '>') (by decide)]
  · rw [scanNumber_append c idle, scanWord_append c idle]

theorem scanToken_append_ok {previous : Option Char} {c : Char} {found : Token × Nat}
    (scanned : scanToken previous c front = .ok found) (idle : Idle tail) :
    scanToken previous c (front ++ tail) = .ok found := by
  have same : (scanToken previous c (front ++ tail)).mapError Prod.fst = _ :=
    scanToken_append previous c idle
  rw [scanned] at same
  cases appended : scanToken previous c (front ++ tail) with
  | error problem =>
      rw [appended] at same
      cases same
  | ok other =>
      rw [appended] at same
      exact congrArg Except.ok (Except.ok.inj same)

theorem scanToken_append_error {previous : Option Char} {c : Char} {problem : LexicalProblem}
    {taken : Nat} (scanned : scanToken previous c front = .error (problem, taken))
    (idle : Idle tail) :
    ∃ taken', scanToken previous c (front ++ tail) = .error (problem, taken') := by
  have same : (scanToken previous c (front ++ tail)).mapError Prod.fst = _ :=
    scanToken_append previous c idle
  rw [scanned] at same
  cases appended : scanToken previous c (front ++ tail) with
  | error found =>
      obtain ⟨other, taken'⟩ := found
      rw [appended] at same
      cases same
      exact ⟨taken', rfl⟩
  | ok found =>
      rw [appended] at same
      cases same

end Idle

section Outcomes

variable {moves : Nat → Nat → Prop}

/-- The lexemes have one token and one line.  Where they are not the end of a line or of the text,
they start at places that correspond. -/
structure Lexeme.Alike (moves : Nat → Nat → Prop) (lexeme other : Lexeme) : Prop where
  token : lexeme.token = other.token
  line : lexeme.span.line = other.span.line
  start : lexeme.token ≠ .newline → lexeme.token ≠ .eof → moves lexeme.span.start other.span.start

/-- The readings find lexemes that are alike, or the same problem on the same line and at places
that correspond. -/
def SameOutcome (moves : Nat → Nat → Prop) :
    Reading (List Lexeme) → Reading (List Lexeme) → Prop
  | .ok lexemes, .ok others => List.Forall₂ (Lexeme.Alike moves) lexemes others
  | .error diagnostic, .error other => diagnostic.problem = other.problem ∧
      diagnostic.span.line = other.span.line ∧ moves diagnostic.span.start other.span.start
  | _, _ => False

theorem SameOutcome.cons {reading further : Reading (List Lexeme)} {lexeme other : Lexeme}
    (same : SameOutcome moves reading further) (alike : lexeme.Alike moves other) :
    SameOutcome moves (do pure (lexeme :: (← reading))) (do pure (other :: (← further))) := by
  cases reading <;> cases further
  case ok.ok lexemes others => exact List.Forall₂.cons alike same
  all_goals exact same

theorem sameOutcome_nil {cursor other : Cursor} (line : cursor.line = other.line) :
    SameOutcome moves (scanFrom cursor []) (scanFrom other []) := by
  rw [scanFrom, scanFrom]
  exact List.Forall₂.cons ⟨rfl, line, fun _ inside => absurd rfl inside⟩ .nil

theorem scanFrom_line (cursor : Cursor) (rest : List Char) :
    scanFrom cursor ('\n' :: rest) =
      (do pure (⟨.newline, cursor.span ['\n']⟩ :: (← scanFrom cursor.nextLine rest))) := by
  rw [scanFrom, if_neg (by decide), if_pos rfl]

/-- The cursor with more characters before it. -/
def Cursor.shift (cursor : Cursor) (size : Nat) : Cursor :=
  { cursor with offset := cursor.offset + size }

theorem Cursor.shift_skip (cursor : Cursor) (size : Nat) (cs : List Char) :
    (cursor.shift size).skip cs = (cursor.skip cs).shift size := by
  simp only [shift, skip, Nat.add_right_comm]

theorem Cursor.shift_nextLine (cursor : Cursor) (size : Nat) :
    (cursor.shift size).nextLine = cursor.nextLine.shift size := by
  simp only [shift, nextLine, Nat.add_right_comm]

/-- Two texts that start alike and go on with blanks have the same outcome where what follows on
the blanks has. -/
theorem sameOutcome_append {tail tail' : List Char} {place size : Nat} (idle : Idle tail)
    (idle' : Idle tail')
    (further : ∀ there : Cursor, there.offset = place →
      SameOutcome moves (scanFrom there tail) (scanFrom (there.shift size) tail'))
    (front : List Char) {cursor : Cursor} (ends : cursor.offset + byteLength front = place)
    (here : ∀ offset, cursor.offset ≤ offset → offset < place → moves offset (offset + size)) :
    SameOutcome moves (scanFrom cursor (front ++ tail))
      (scanFrom (cursor.shift size) (front ++ tail')) := by
  -- Along the front both cursors see the same characters, with the same one before them.
  match front with
  | [] => exact further cursor ends
  | c :: front =>
      have positive := c.utf8Size_pos
      rw [byteLength_cons] at ends
      rw [List.cons_append, List.cons_append, scanFrom, scanFrom]
      by_cases blank : isBlank c
      · rw [if_pos blank, if_pos blank, Cursor.shift_skip]
        exact sameOutcome_append idle idle' further front
          (by simpa [Cursor.skip, Nat.add_assoc] using ends)
          fun offset later => here offset (Nat.le_of_add_right_le later)
      · rw [if_neg blank, if_neg blank]
        by_cases line : c = '\n'
        · subst line
          rw [if_pos rfl, if_pos rfl, Cursor.shift_nextLine]
          refine .cons ?_ ⟨rfl, rfl, fun other => absurd rfl other⟩
          exact sameOutcome_append idle idle' further front ((Nat.add_assoc ..).trans ends)
            fun offset later => here offset (Nat.le_of_add_right_le later)
        · rw [if_neg line, if_neg line]
          cases scanned : scanToken cursor.previous c front with
          | error found =>
              obtain ⟨problem, taken⟩ := found
              obtain ⟨_, scanned_⟩ := scanToken_append_error scanned idle
              obtain ⟨_, scanned'⟩ := scanToken_append_error scanned idle'
              rw [scanned_, show (cursor.shift size).previous = cursor.previous from rfl, scanned']
              exact ⟨rfl, rfl, here cursor.offset (Nat.le_refl _) (by omega)⟩
          | ok found =>
              obtain ⟨token, taken⟩ := found
              obtain ⟨more, after, rfl, rfl, _⟩ := cuts_scanToken scanned
              rw [byteLength_append] at ends
              rw [scanToken_append_ok scanned idle,
                show (cursor.shift size).previous = cursor.previous from rfl,
                scanToken_append_ok scanned idle']
              dsimp only
              rw [List.append_assoc, List.append_assoc, List.take_left, List.take_left,
                List.drop_left, List.drop_left, Cursor.shift_skip]
              refine .cons ?_ ⟨rfl, rfl, fun _ _ => here cursor.offset (Nat.le_refl _) (by omega)⟩
              exact sameOutcome_append idle idle' further after
                (by simpa [Cursor.skip, Nat.add_assoc] using ends)
                fun offset later => here offset (Nat.le_of_add_right_le later)
termination_by front.length
decreasing_by
  · exact Nat.lt_succ_self _
  · exact Nat.lt_succ_self _
  · subst_vars
    rw [List.length_cons, List.length_append]
    omega

theorem idle_nil : Idle [] := ⟨0, [], rfl, .inl rfl⟩

/-- With more characters before it a text has the same outcome further on. -/
theorem sameOutcome_shift {size : Nat} (cs : List Char) {cursor : Cursor}
    (late : ∀ offset, cursor.offset ≤ offset → moves offset (offset + size)) :
    SameOutcome moves (scanFrom cursor cs) (scanFrom (cursor.shift size) cs) := by
  have same := sameOutcome_append idle_nil idle_nil (fun there _ => sameOutcome_nil rfl) cs rfl
    fun offset later _ => late offset later
  rwa [List.append_nil] at same

/-- Blanks put in at the end of a line leave the outcome. -/
theorem sameOutcome_blanks {tail : List Char} (ends : tail = [] ∨ tail.head? = some '\n')
    (size : Nat) (front : List Char) {cursor : Cursor}
    (early : ∀ offset, offset < cursor.offset + byteLength front → moves offset offset)
    (late : tail ≠ [] → ∀ offset, cursor.offset + byteLength front < offset →
      moves offset (offset + size)) :
    SameOutcome moves (scanFrom cursor (front ++ tail))
      (scanFrom cursor (front ++ (List.replicate size ' ' ++ tail))) := by
  have idle : Idle tail := ⟨0, tail, rfl, ends⟩
  have idle' : Idle (List.replicate size ' ' ++ tail) := ⟨size, tail, rfl, ends⟩
  show SameOutcome moves _ (scanFrom (cursor.shift 0) _)
  refine sameOutcome_append idle idle' (fun there at_ => ?_) front rfl
    fun offset _ before => early offset before
  obtain ⟨behind, offset, line, skipped⟩ := scanFrom_blanks size there tail
  rw [show there.shift 0 = there from rfl, skipped]
  rcases ended_cases ends with rfl | ⟨more, rfl⟩
  · exact sameOutcome_nil line.symm
  · have next : behind.nextLine = there.nextLine.shift size := by
      simp only [Cursor.nextLine, Cursor.shift, offset, line, Nat.add_right_comm]
    rw [scanFrom_line, scanFrom_line, next]
    refine .cons (sameOutcome_shift more fun offset later => late nofun offset ?_)
      ⟨rfl, line.symm, fun other => absurd rfl other⟩
    rw [← at_]
    exact later

theorem alike_joinLinesFrom {lexemes others : List Lexeme}
    (alike : List.Forall₂ (Lexeme.Alike moves) lexemes others) (depth : Nat) (last : Option Token)
    {pending waiting : Option Lexeme} (pends : Option.Rel (Lexeme.Alike moves) pending waiting) :
    List.Forall₂ (Lexeme.Alike moves) (joinLinesFrom depth last pending lexemes)
      (joinLinesFrom depth last waiting others) := by
  induction alike generalizing depth last pending waiting with
  | nil => exact .nil
  | @cons lexeme other rest further first _ inductionHypothesis =>
      rw [joinLinesFrom, joinLinesFrom, ← first.token]
      split
      · refine inductionHypothesis depth last ?_
        cases pends with
        | some alike => exact .some alike
        | none =>
            rw [Option.none_or]
            split
            · exact .some first
            · exact .none
      · refine List.rel_append ?_ (.cons first (inductionHypothesis _ _ .none))
        split
        · exact .nil
        · cases pends with
          | some alike => exact .cons alike .nil
          | none => exact .nil

theorem SameOutcome.joinLines {reading further : Reading (List Lexeme)}
    (same : SameOutcome moves reading further) :
    SameOutcome moves (joinLines <$> reading) (joinLines <$> further) := by
  cases reading <;> cases further
  case ok.ok lexemes others => exact alike_joinLinesFrom same 0 none .none
  all_goals exact same

end Outcomes

end EntityScript
