import Mathlib.Data.List.TakeDrop
import Mathlib.Data.List.TakeWhile
import EntityScript.Proofs.Places
import EntityScript.Source.Comments
import EntityScript.Token.Lines

/-!
How the lexemes of a text lie in it.  Comments are blanked before a text is cut into lexemes, and
blanking looks for strings on its own; still each lexeme stands in the text as it was before, and
between the lexemes there are only blanks, line ends and comments.
-/

namespace EntityScript

open Source

/-! ### How tokens are written -/

/-- A token that is always written alike, as it is written. -/
def Token.sign : Token → String
  | number _ | text _ | .name _ | unit _ | eof => ""
  | kwTrue => "true"
  | kwFalse => "false"
  | kwUnset => "unset"
  | kwEntity => "entity"
  | kwIf => "if"
  | kwThen => "then"
  | kwElse => "else"
  | kwLoop => "loop"
  | kwEnd => "end"
  | kwLet => "let"
  | kwConst => "const"
  | kwThis => "this"
  | kwSpawn => "spawn"
  | leftParen => "("
  | rightParen => ")"
  | comma => ","
  | dot => "."
  | colon => ":"
  | doubleColon => "::"
  | arrow => "->"
  | semicolon => ";"
  | plus => "+"
  | minus => "-"
  | star => "*"
  | slash => "/"
  | percent => "%"
  | less => "<"
  | greater => ">"
  | lessEqual => "<="
  | greaterEqual => ">="
  | equal => "=="
  | notEqual => "!="
  | and => "&&"
  | or => "||"
  | bang => "!"
  | assign => "="
  | plusAssign => "+="
  | minusAssign => "-="
  | starAssign => "*="
  | slashAssign => "/="
  | newline => "\n"

/-- The characters are digits that read as the value, with or without a fraction. -/
def DigitsOf (value : Float) (spelling : List Char) : Prop :=
  ∃ whole fraction, whole ≠ [] ∧ whole.all Char.isDigit = true ∧
    fraction.all Char.isDigit = true ∧ value = Number.ofDigits whole fraction 0 ∧
    spelling = if fraction = [] then whole else whole ++ '.' :: fraction

/-- The characters are the token, as it may be written. -/
def Token.SpelledAs : Token → List Char → Prop
  | number value, spelling => DigitsOf value spelling
  | text content, spelling => ∃ quote, isQuote quote = true ∧ quote ∉ content.toList ∧
      '\n' ∉ content.toList ∧ spelling = quote :: content.toList ++ [quote]
  | .name word, spelling => spelling = word.toList
  | unit measure, spelling => spelling = '<' :: measure.toList ++ ['>']
  | token, spelling => spelling = token.sign.toList

theorem Token.spelledAs_newline : Token.newline.SpelledAs ['\n'] := rfl

/-- Behind the characters before it a text consists of what the lexemes are written as, in their
order, and of blanks, line ends and comments in between.  Each lexeme has the span of what it is
written as; a line end is a lexeme as well. -/
inductive Tiling : List Char → List Char → List Lexeme → Prop where
  | done {before} : Tiling before [] [⟨.eof, spanBehind before []⟩]
  | blank {before c rest lexemes} : isBlank c = true → Tiling (before ++ [c]) rest lexemes →
      Tiling before (c :: rest) lexemes
  | comment {before body rest lexemes} : '\n' ∉ body → rest = [] ∨ rest.head? = some '\n' →
      Tiling (before ++ '/' :: '/' :: body) rest lexemes →
      Tiling before ('/' :: '/' :: body ++ rest) lexemes
  | line {before rest lexemes} : Tiling (before ++ ['\n']) rest lexemes →
      Tiling before ('\n' :: rest) (⟨.newline, spanBehind before ['\n']⟩ :: lexemes)
  | lexeme {before token spelling rest lexemes} : token.SpelledAs spelling → spelling ≠ [] →
      '\n' ∉ spelling → Tiling (before ++ spelling) rest lexemes →
      Tiling before (spelling ++ rest) (⟨token, spanBehind before spelling⟩ :: lexemes)

/-! ### Blanking -/

section Blanking

/-- Whether the character is neither blanked out of a comment, nor opens or ends anything that
blanking looks at. -/
def isSolid (c : Char) : Bool := c != ' ' && c != '\n' && !isQuote c

theorem blankComments_nil (state : CommentState) : blankComments state [] = [] := by
  cases state <;> rfl

theorem blankComments_comment {body rest : List Char} (inside : '\n' ∉ body)
    (ends : rest = [] ∨ rest.head? = some '\n') :
    blankComments .comment (body ++ rest) =
      List.replicate (byteLength body) ' ' ++ blankComments .code rest := by
  induction body with
  | nil =>
      rcases ends with rfl | ends
      · rfl
      · obtain ⟨more, rfl⟩ := List.head?_eq_some_iff.mp ends
        rfl
  | cons c body inductionHypothesis =>
      obtain ⟨other, inside⟩ := not_or.mp (mt List.mem_cons.mpr inside)
      rw [List.cons_append, blankComments, if_neg (Ne.symm other), inductionHypothesis inside,
        byteLength_cons, ← List.replicate_append_replicate, List.append_assoc]

theorem blankComments_slashes {body rest : List Char} (inside : '\n' ∉ body)
    (ends : rest = [] ∨ rest.head? = some '\n') :
    blankComments .code ('/' :: '/' :: body ++ rest) =
      List.replicate (byteLength ('/' :: '/' :: body)) ' ' ++ blankComments .code rest := by
  have free : '\n' ∉ '/' :: body := by simpa using inside
  have blanked := blankComments_comment free ends
  rw [List.cons_append, blankComments, if_pos ⟨rfl, rfl⟩, blanked,
    byteLength_cons '/' ('/' :: body), ← List.replicate_append_replicate]
  rfl

/-- A comment goes to the end of its line. -/
theorem exists_comment (rest : List Char) :
    ∃ body tail, rest = body ++ tail ∧ '\n' ∉ body ∧ (tail = [] ∨ tail.head? = some '\n') := by
  induction rest with
  | nil => exact ⟨[], [], rfl, List.not_mem_nil, .inl rfl⟩
  | cons c rest inductionHypothesis =>
      by_cases ends : c = '\n'
      · exact ⟨[], c :: rest, rfl, List.not_mem_nil, .inr (congrArg some ends)⟩
      · obtain ⟨body, tail, rfl, inside, stops⟩ := inductionHypothesis
        exact ⟨c :: body, tail, rfl,
          fun found => (List.mem_cons.mp found).elim (fun same => ends same.symm) inside, stops⟩

/-- Blanking keeps a string up to the quote that closes it. -/
theorem exists_quoted {quote : Char} {content after rest : List Char} (open_ : quote ∉ content)
    (inside : '\n' ∉ content)
    (blanked : blankComments (.quoted quote) rest = content ++ quote :: after) :
    ∃ tail, rest = content ++ quote :: tail ∧ after = blankComments .code tail := by
  induction content generalizing rest with
  | nil =>
      cases rest with
      | nil => cases blanked
      | cons c tail =>
          obtain ⟨rfl, rfl⟩ := List.cons.inj blanked
          exact ⟨tail, rfl, by rw [if_pos (.inl rfl)]⟩
  | cons d content inductionHypothesis =>
      cases rest with
      | nil => cases blanked
      | cons c rest =>
          obtain ⟨rfl, further⟩ := List.cons.inj blanked
          obtain ⟨unclosed, open_⟩ := not_or.mp (mt List.mem_cons.mpr open_)
          obtain ⟨unended, inside⟩ := not_or.mp (mt List.mem_cons.mpr inside)
          rw [if_neg (not_or.mpr ⟨Ne.symm unclosed, Ne.symm unended⟩)] at further
          obtain ⟨tail, rfl, same⟩ := inductionHypothesis open_ inside further
          exact ⟨tail, rfl, same⟩

/-- Solid characters are those of the text itself. -/
theorem blankComments_solid (solid : List Char) {rest after : List Char}
    (plain : ∀ c ∈ solid, isSolid c = true)
    (blanked : blankComments .code rest = solid ++ after) :
    ∃ tail, rest = solid ++ tail ∧ after = blankComments .code tail := by
  induction solid generalizing rest with
  | nil => exact ⟨rest, rfl, blanked.symm⟩
  | cons d solid inductionHypothesis =>
      obtain ⟨here, others⟩ := List.forall_mem_cons.mp plain
      cases rest with
      | nil => cases blanked
      | cons c rest =>
          rw [blankComments, List.cons_append] at blanked
          split at blanked
          · cases (List.cons.inj blanked).1
            cases here
          · obtain ⟨rfl, further⟩ := List.cons.inj blanked
            have unquoted : isQuote c = false := by
              simp only [isSolid, Bool.and_eq_true, Bool.not_eq_true'] at here
              exact here.2
            rw [unquoted] at further
            obtain ⟨tail, rfl, same⟩ := inductionHypothesis others further
            exact ⟨tail, rfl, same⟩

theorem isQuote_of_isBlank {c : Char} (blank : isBlank c = true) : isQuote c = false := by
  simp only [isBlank, Bool.or_eq_true, decide_eq_true_iff] at blank
  rcases blank with (rfl | rfl) | rfl <;> rfl

theorem isSolid_of {p : Char → Bool} {c : Char} (holds : p c = true)
    (others : p ' ' = false ∧ p '\n' = false ∧ p '\x27' = false ∧ p '\x22' = false) :
    isSolid c = true := by
  have apart {d : Char} (other : p d = false) : c ≠ d := by
    rintro rfl
    rw [holds] at other
    cases other
  obtain ⟨space, line, single, double⟩ := others
  simp [isSolid, isQuote, apart space, apart line, apart single, apart double]

theorem isSolid_of_isDigit {c : Char} (digit : c.isDigit = true) : isSolid c = true :=
  isSolid_of digit (by decide)

theorem isSolid_of_isWordChar {c : Char} (inside : isWordChar c = true) : isSolid c = true :=
  isSolid_of inside (by decide)

theorem isSolid_of_isUnitChar {c : Char} (inside : isUnitChar c = true) : isSolid c = true :=
  isSolid_of inside (by decide)

end Blanking

/-! ### Scanning -/

section Scanning

/-- The token is the first character with some of those behind it, which are either solid or
the rest of a string. -/
def Cuts (c : Char) (rest : List Char) (token : Token) (taken : Nat) : Prop :=
  ∃ more after, rest = more ++ after ∧ more.length = taken ∧ token.SpelledAs (c :: more) ∧
    ((isQuote c = true ∧ ∃ content, more = content ++ [c] ∧ c ∉ content ∧ '\n' ∉ content) ∨
      isSolid c = true ∧ ∀ d ∈ more, isSolid d = true)

variable {c : Char} {rest : List Char} {token : Token} {taken : Nat}

theorem cuts_solid (more after : List Char) (spelled : token.SpelledAs (c :: more))
    (solid : ∀ d ∈ c :: more, isSolid d = true) : Cuts c (more ++ after) token more.length :=
  ⟨more, after, rfl, rfl, spelled, .inr (List.forall_mem_cons.mp solid)⟩

/-- A sign of one or two characters is cut off. -/
theorem cuts_sign (more after : List Char) (spelled : token.SpelledAs (c :: more))
    (solid : (c :: more).all isSolid = true) : Cuts c (more ++ after) token more.length :=
  cuts_solid more after spelled (List.all_eq_true.mp solid)

theorem cuts_scanAssign {plain assigned : Token}
    (scanned : scanAssign rest plain assigned = .ok (token, taken))
    (spelled : plain.SpelledAs [c] ∧ assigned.SpelledAs [c, '=']) (solid : isSolid c = true) :
    Cuts c rest token taken := by
  unfold scanAssign at scanned
  split at scanned
  · cases scanned
    exact cuts_solid ['='] _ spelled.2 (by simp [solid]; decide)
  · cases scanned
    exact cuts_solid [] _ spelled.1 (by simp [solid])

theorem cuts_scanDouble {double : Token} {problem : LexicalProblem}
    (scanned : scanDouble c rest double problem = .ok (token, taken))
    (spelled : double.SpelledAs [c, c]) (solid : isSolid c = true) :
    Cuts c rest token taken := by
  unfold scanDouble at scanned
  split at scanned
  next twice =>
    cases scanned
    obtain ⟨after, rfl⟩ := List.head?_eq_some_iff.mp twice
    exact cuts_solid [c] _ spelled (by simp [solid])
  next => cases scanned

theorem cuts_scanText (quoted : isQuote c = true)
    (scanned : scanText c rest = .ok (token, taken)) : Cuts c rest token taken := by
  unfold scanText at scanned
  dsimp only at scanned
  split at scanned
  next closes =>
    cases scanned
    have whole := List.takeWhile_append_dropWhile (p := fun d => d != c && d != '\n') (l := rest)
    have inside := fun d => List.mem_takeWhile_imp (p := fun d => d != c && d != '\n') (x := d)
      (l := rest)
    generalize rest.takeWhile (fun d => d != c && d != '\n') = content at *
    generalize rest.dropWhile (fun d => d != c && d != '\n') = behind at *
    rw [← whole, List.drop_left] at closes
    obtain ⟨after, rfl⟩ := List.head?_eq_some_iff.mp closes
    have unclosed : c ∉ content := fun found => by simpa using inside c found
    have unended : '\n' ∉ content := fun found => by simpa using inside '\n' found
    refine ⟨content ++ [c], after, by simp [← whole], by simp, ?_,
      .inl ⟨quoted, content, rfl, unclosed, unended⟩⟩
    exact ⟨c, quoted, by simpa using unclosed, by simpa using unended, by simp⟩
  next => cases scanned

theorem cuts_scanNumber (digit : c.isDigit = true)
    (scanned : scanNumber c rest = .ok (token, taken)) : Cuts c rest token taken := by
  have digits (cs : List Char) : ∃ some others, Number.takeDigits cs = (some, others) ∧
      cs = some ++ others ∧ some.all Char.isDigit = true := by
    refine ⟨_, _, List.span_eq_takeWhile_dropWhile (p := Char.isDigit) (l := cs),
      List.takeWhile_append_dropWhile.symm, ?_⟩
    exact List.all_eq_true.mpr fun d => List.mem_takeWhile_imp
  unfold scanNumber at scanned
  obtain ⟨more, after, taken', rfl, all⟩ := digits rest
  rw [taken'] at scanned
  dsimp only at scanned
  have solid : ∀ d ∈ c :: more, isSolid d = true :=
    List.forall_mem_cons.mpr ⟨isSolid_of_isDigit digit,
      fun d among => isSolid_of_isDigit (List.all_eq_true.mp all d among)⟩
  have whole : (c :: more).all Char.isDigit = true := by rw [List.all_cons, digit, all]; rfl
  have plainly : Cuts c (more ++ after) (.number (Number.ofDigits (c :: more) [] 0)) more.length :=
    cuts_solid _ _ ⟨c :: more, [], nofun, whole, rfl, rfl, rfl⟩ solid
  split at scanned
  next behind =>
    obtain ⟨fraction, after, taken'', rfl, all'⟩ := digits behind
    rw [taken''] at scanned
    dsimp only at scanned
    split at scanned
    next => cases scanned; exact plainly
    next several =>
      cases scanned
      refine ⟨more ++ '.' :: fraction, after, by simp, by simp; omega, ?_,
        .inr ⟨isSolid_of_isDigit digit, ?_⟩⟩
      · exact ⟨c :: more, fraction, nofun, whole, all', rfl, by rw [if_neg several]; rfl⟩
      · refine List.forall_mem_append.mpr ⟨(List.forall_mem_cons.mp solid).2,
          List.forall_mem_cons.mpr ⟨by decide, ?_⟩⟩
        exact fun d among => isSolid_of_isDigit (List.all_eq_true.mp all' d among)
  next => cases scanned; exact plainly

theorem Token.spelledAs_ofWord (word : String) : (Token.ofWord word).SpelledAs word.toList := by
  unfold Token.ofWord
  split <;> rfl

theorem cuts_scanWord (inside : isWordChar c = true)
    (scanned : scanWord c rest = .ok (token, taken)) : Cuts c rest token taken := by
  cases scanned
  have spelled := Token.spelledAs_ofWord (String.ofList (c :: rest.takeWhile isWordChar))
  rw [String.toList_ofList] at spelled
  have cut := cuts_solid _ (rest.dropWhile isWordChar) spelled
    (List.forall_mem_cons.mpr ⟨isSolid_of_isWordChar inside,
      fun d among => isSolid_of_isWordChar (List.mem_takeWhile_imp among)⟩)
  rwa [List.takeWhile_append_dropWhile] at cut

theorem cuts_scanLess {previous : Option Char}
    (scanned : scanLess previous rest = .ok (token, taken)) : Cuts '<' rest token taken := by
  unfold scanLess at scanned
  dsimp only at scanned
  split at scanned
  next closes =>
    cases scanned
    simp only [Bool.and_eq_true, beq_iff_eq] at closes
    have whole := List.takeWhile_append_dropWhile (p := isUnitChar) (l := rest)
    have inside := fun d => List.mem_takeWhile_imp (p := isUnitChar) (x := d) (l := rest)
    generalize rest.takeWhile isUnitChar = content at *
    generalize rest.dropWhile isUnitChar = behind at *
    rw [← whole, List.drop_left] at closes
    obtain ⟨after, rfl⟩ := List.head?_eq_some_iff.mp closes.2
    have spelled : (Token.unit (String.ofList content)).SpelledAs ('<' :: (content ++ ['>'])) := by
      simp [Token.SpelledAs]
    have cut := cuts_solid _ after spelled
      (List.forall_mem_cons.mpr ⟨by decide, List.forall_mem_append.mpr
        ⟨fun d among => isSolid_of_isUnitChar (inside d among),
          List.forall_mem_singleton.mpr (by decide)⟩⟩)
    simpa [← whole] using cut
  next =>
    exact cuts_scanAssign scanned ⟨rfl, rfl⟩ (by decide)

/-- Every token that scanning finds is written as the characters it takes. -/
theorem cuts_scanToken {previous : Option Char}
    (scanned : scanToken previous c rest = .ok (token, taken)) : Cuts c rest token taken := by
  unfold scanToken at scanned
  split at scanned
  all_goals first
    | (cases scanned
       exact cuts_sign [] _ rfl (by decide))
    | exact cuts_scanAssign scanned ⟨rfl, rfl⟩ (by decide)
    | exact cuts_scanText (by decide) scanned
    | exact cuts_scanLess scanned
    | exact cuts_scanDouble scanned rfl (by decide)
    | skip
  · split at scanned
    next twice =>
      cases scanned
      obtain ⟨after, rfl⟩ := List.head?_eq_some_iff.mp twice
      exact cuts_sign [':'] _ rfl (by decide)
    next =>
      cases scanned
      exact cuts_sign [] _ rfl (by decide)
  · split at scanned
    next points =>
      cases scanned
      obtain ⟨after, rfl⟩ := List.head?_eq_some_iff.mp points
      exact cuts_sign ['>'] _ rfl (by decide)
    next => exact cuts_scanAssign scanned ⟨rfl, rfl⟩ (by decide)
  · split at scanned
    next digit => exact cuts_scanNumber digit scanned
    next =>
      split at scanned
      next opens =>
        refine cuts_scanWord ?_ scanned
        simp only [isWordChar, Char.isAlphanum, Bool.or_eq_true] at opens ⊢
        exact opens.imp_left .inl
      next => cases scanned

/-- A token cut off a blanked text is one that the text itself has there. -/
theorem Cuts.unblanked {text : List Char} (cut : Cuts c rest token taken)
    (blanked : blankComments .code text = c :: rest) :
    ∃ spelling tail, text = spelling ++ tail ∧ c :: rest.take taken = spelling ∧
      rest.drop taken = blankComments .code tail ∧ token.SpelledAs spelling ∧
      '\n' ∉ spelling := by
  obtain ⟨more, after, rfl, rfl, spelled, ⟨quoted, content, rfl, unclosed, unended⟩ | solid⟩ := cut
  · cases text with
    | nil => cases blanked
    | cons d text =>
        rw [blankComments] at blanked
        split at blanked
        · cases (List.cons.inj blanked).1
          cases quoted
        · obtain ⟨rfl, further⟩ := List.cons.inj blanked
          rw [if_pos quoted, List.append_assoc] at further
          obtain ⟨tail, rfl, same⟩ := exists_quoted unclosed unended further
          refine ⟨d :: (content ++ [d]), tail, by simp, by rw [List.take_left], ?_, spelled, ?_⟩
          · rw [List.drop_left]
            exact same
          · have other : d ≠ '\n' := by
              rintro rfl
              cases quoted
            simp [unended, other.symm]
  · have all : ∀ d ∈ c :: more, isSolid d = true := List.forall_mem_cons.mpr solid
    obtain ⟨tail, rfl, same⟩ := blankComments_solid (c :: more) all blanked
    exact ⟨c :: more, tail, rfl, by rw [List.take_left], by rw [List.drop_left, same], spelled,
      fun found => absurd (all _ found) (by decide)⟩

/-- The cursor has come through the characters. -/
def Cursor.Behind (cursor : Cursor) (before : List Char) : Prop :=
  cursor.offset = byteLength before ∧ cursor.line = lineBehind before

theorem Cursor.Behind.skip {cursor : Cursor} {before cs : List Char} (here : cursor.Behind before)
    (inside : '\n' ∉ cs) : (cursor.skip cs).Behind (before ++ cs) := by
  constructor
  · rw [byteLength_append, ← here.1]
    rfl
  · rw [lineBehind_append, List.count_eq_zero.mpr inside, ← here.2]
    rfl

theorem Cursor.Behind.nextLine {cursor : Cursor} {before : List Char}
    (here : cursor.Behind before) : cursor.nextLine.Behind (before ++ ['\n']) := by
  constructor
  · rw [byteLength_append, ← here.1]
    rfl
  · rw [lineBehind_append, ← here.2]
    rfl

theorem Cursor.Behind.span {cursor : Cursor} {before : List Char} (here : cursor.Behind before)
    (cs : List Char) : cursor.span cs = spanBehind before cs := by
  rw [Cursor.span, spanBehind, byteLength_append, here.1, here.2]

/-- Blanks only move the cursor. -/
theorem scanFrom_blanks (count : Nat) (cursor : Cursor) (cs : List Char) :
    ∃ further, further.offset = cursor.offset + count ∧ further.line = cursor.line ∧
      scanFrom cursor (List.replicate count ' ' ++ cs) = scanFrom further cs := by
  induction count generalizing cursor with
  | zero => exact ⟨cursor, rfl, rfl, rfl⟩
  | succ count inductionHypothesis =>
      obtain ⟨further, offset, line, same⟩ := inductionHypothesis (cursor.skip [' '])
      refine ⟨further, ?_, line, ?_⟩
      · rw [offset, Nat.add_comm count, ← Nat.add_assoc]
        rfl
      · rw [← same, List.replicate_succ, List.cons_append, scanFrom]
        rfl

/-- What scanning from behind some characters of a text on may come to: lexemes that lie in the
rest of the text, or a problem that starts somewhere in it. -/
def Explained (before rest : List Char) : Reading (List Lexeme) → Prop
  | .ok lexemes => Tiling before rest lexemes
  | .error diagnostic => diagnostic.stage = .lexical ∧ ∃ more behind, rest = more ++ behind ∧
      diagnostic.span.start = byteLength (before ++ more) ∧
      diagnostic.span.line = lineBehind (before ++ more)

/-- What scanning comes to further on explains what it comes to here, where the lexemes found
further on do, and the text in between holds at most one lexeme. -/
theorem Explained.before {before part rest : List Char} {reading : Reading (List Lexeme)}
    (found : List Lexeme → List Lexeme) (further : Explained (before ++ part) rest reading)
    (extends_ : ∀ lexemes, Tiling (before ++ part) rest lexemes →
      Tiling before (part ++ rest) (found lexemes)) :
    Explained before (part ++ rest) (found <$> reading) := by
  cases reading with
  | ok lexemes => exact extends_ lexemes further
  | error diagnostic =>
      obtain ⟨lexical, more, behind, rfl, start, line⟩ := further
      exact ⟨lexical, part ++ more, behind, by rw [List.append_assoc],
        by rw [start, List.append_assoc], by rw [line, List.append_assoc]⟩

/-- Scanning a blanked text finds the lexemes of the text, or a problem in it. -/
theorem explained_scanFrom {before : List Char} {cursor : Cursor} (rest : List Char)
    (here : cursor.Behind before) :
    Explained before rest (scanFrom cursor (blankComments .code rest)) := by
  match rest with
  | [] =>
      rw [blankComments_nil, scanFrom, here.span]
      exact .done
  | c :: rest =>
      by_cases comments : c = '/' ∧ rest.head? = some '/'
      · -- The slashes are blanked with what follows them on the line.
        obtain ⟨rfl, second⟩ := comments
        obtain ⟨rest, rfl⟩ := List.head?_eq_some_iff.mp second
        obtain ⟨body, tail, rfl, inside, ends⟩ := exists_comment rest
        have inside' : '\n' ∉ '/' :: '/' :: body := by simpa using inside
        obtain ⟨further, offset, line, same⟩ := scanFrom_blanks
          (byteLength ('/' :: '/' :: body)) cursor (blankComments .code tail)
        rw [← List.cons_append, ← List.cons_append, blankComments_slashes inside ends, same]
        have shorter : tail.length < ('/' :: '/' :: (body ++ tail)).length := by
          rw [List.length_cons, List.length_cons, List.length_append]
          omega
        have there : further.Behind (before ++ '/' :: '/' :: body) := by
          have moved := here.skip inside'
          exact ⟨offset.trans moved.1, line.trans moved.2⟩
        have explained := explained_scanFrom tail there
        simpa using explained.before id fun _ => Tiling.comment inside ends
      · have kept : blankComments .code (c :: rest) =
            c :: blankComments (if isQuote c then .quoted c else .code) rest := if_neg comments
        rw [kept, scanFrom]
        split
        next blank =>
          have inside : '\n' ∉ [c] := by
            rintro found
            cases List.mem_singleton.mp found
            cases blank
          have explained := explained_scanFrom rest (here.skip inside)
          rw [isQuote_of_isBlank blank]
          simpa using explained.before id fun _ => Tiling.blank blank
        next =>
          split
          next ends =>
            subst ends
            have explained := explained_scanFrom rest here.nextLine
            rw [here.span]
            exact explained.before _ fun _ => Tiling.line
          next ends =>
            split
            next problem taken scanned =>
              refine ⟨rfl, [], c :: rest, rfl, ?_, ?_⟩ <;> rw [here.span, List.append_nil] <;> rfl
            next token taken scanned =>
              obtain ⟨spelling, tail, split, took, left, spelled, inside⟩ :=
                (cuts_scanToken scanned).unblanked kept
              have some_ : spelling ≠ [] := by
                rintro rfl
                cases took
              have shorter : tail.length < (c :: rest).length := by
                have positive := List.length_pos_iff.mpr some_
                rw [split, List.length_append]
                omega
              have explained := explained_scanFrom tail (here.skip inside)
              dsimp only
              rw [took, left, here.span, split]
              exact explained.before _ fun _ => Tiling.lexeme spelled some_ inside
termination_by rest.length
decreasing_by
  · subst_vars
    exact shorter
  all_goals first | exact shorter | exact Nat.lt_succ_self _

/-- Scanning a text without its comments finds the lexemes of the text, or a problem in it. -/
theorem explained_scan (text : String) :
    Explained [] text.toList (scan (stripComments text)) := by
  rw [scan, stripComments, String.toList_ofList]
  exact explained_scanFrom text.toList ⟨rfl, rfl⟩

end Scanning

end EntityScript
