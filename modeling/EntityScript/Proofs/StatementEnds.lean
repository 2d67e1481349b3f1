import EntityScript.Proofs.Lexing
import EntityScript.Proofs.Reads

/-!
Where statements end.  Between two tokens of a text there is a newline just if they stand on
different lines, outside parentheses, and neither of them makes the statement go on.
-/

namespace EntityScript

open Source

/-! ### Tokens that make a statement go on -/

namespace Token

/-- The tokens that no statement ends with: the binary operators, the assignments, and what joins
a list or a path. -/
def continuations : List Token :=
  [plus, minus, star, slash, percent, less, greater, lessEqual, greaterEqual, equal, notEqual, and,
    or, assign, plusAssign, minusAssign, starAssign, slashAssign, comma, dot, doubleColon]

/-- The tokens that no statement starts with. -/
def leadingOperators : List Token :=
  [plus, star, slash, percent, lessEqual, greaterEqual, equal, notEqual, and, or, dot]

theorem mem_continuations {token : Token} :
    token ∈ continuations ↔ token.expectsMore = true := by
  cases token <;> simp [continuations, expectsMore]

theorem mem_leadingOperators {token : Token} :
    token ∈ leadingOperators ↔ token.carriesOn = true := by
  cases token <;> simp [leadingOperators, carriesOn]

end Token

/-- How deep in parentheses what follows the lexemes is, given how deep they are. -/
def depthFrom (depth : Nat) (lexemes : List Lexeme) : Nat :=
  lexemes.foldl (fun depth lexeme => lexeme.token.depthAfter depth) depth

def AllNewlines (lexemes : List Lexeme) : Prop := ∀ lexeme ∈ lexemes, lexeme.token = .newline

theorem depthFrom_newlines {depth : Nat} {lines : List Lexeme} (newlines : AllNewlines lines)
    (more : List Lexeme) : depthFrom depth (lines ++ more) = depthFrom depth more := by
  induction lines with
  | nil => rfl
  | cons line rest inductionHypothesis =>
      obtain ⟨newline, others⟩ := List.forall_mem_cons.mp newlines
      rw [← inductionHypothesis others, List.cons_append, depthFrom, List.foldl_cons, newline]
      rfl

/-! ### Which newlines are kept -/

section Joining

variable {depth : Nat} {last : Option Token} {pending : Option Lexeme}
variable {lexemes front gap rest : List Lexeme} {lexeme earlier later : Lexeme}

/-- The newlines that are kept before a token, of one that is pending. -/
def breaksBefore (token : Token) (pending : Option Lexeme) : List Lexeme :=
  if token.carriesOn || token = .eof then [] else pending.toList

theorem joinLinesFrom_newline (newline : lexeme.token = .newline) :
    joinLinesFrom depth last pending (lexeme :: rest) =
      joinLinesFrom depth last
        (pending.or (if depth = 0 && last.any fun token => !token.expectsMore then some lexeme
          else none)) rest := by
  rw [joinLinesFrom, if_pos newline]

theorem joinLinesFrom_other (other : lexeme.token ≠ .newline) :
    joinLinesFrom depth last pending (lexeme :: rest) =
      breaksBefore lexeme.token pending ++
        lexeme :: joinLinesFrom (lexeme.token.depthAfter depth) (some lexeme.token) none rest := by
  rw [joinLinesFrom, if_neg other]
  rfl

theorem allNewlines_none : AllNewlines (none : Option Lexeme).toList := List.forall_mem_nil _

theorem allNewlines_breaksBefore (token : Token) (pends : AllNewlines pending.toList) :
    AllNewlines (breaksBefore token pending) := by
  unfold breaksBefore
  split
  · exact List.forall_mem_nil _
  · exact pends

theorem allNewlines_pending {stops : Bool} (pends : AllNewlines pending.toList)
    (newline : lexeme.token = .newline) :
    AllNewlines (pending.or (if stops then some lexeme else none)).toList := by
  cases pending with
  | some line => exact pends
  | none =>
      by_cases kept : stops = true
      · simpa [kept, AllNewlines] using newline
      · simp [kept, AllNewlines]

/-- Newlines in front of other lexemes can be told from them. -/
theorem newlines_inj {lines lines' : List Lexeme} {lexeme' : Lexeme} {rest' : List Lexeme}
    (newlines : AllNewlines lines) (newlines' : AllNewlines lines')
    (other : lexeme.token ≠ .newline) (other' : lexeme'.token ≠ .newline)
    (same : lines ++ lexeme :: rest = lines' ++ lexeme' :: rest') :
    lines = lines' ∧ lexeme = lexeme' ∧ rest = rest' := by
  induction lines generalizing lines' with
  | nil =>
      cases lines' with
      | nil => exact ⟨rfl, List.cons.inj same⟩
      | cons line more =>
          obtain ⟨rfl, _⟩ := List.cons.inj same
          exact absurd (newlines' lexeme List.mem_cons_self) other
  | cons line more inductionHypothesis =>
      cases lines' with
      | nil =>
          obtain ⟨rfl, _⟩ := List.cons.inj same
          exact absurd (newlines line List.mem_cons_self) other'
      | cons line' more' =>
          obtain ⟨rfl, further⟩ := List.cons.inj same
          obtain ⟨rfl, tails⟩ := inductionHypothesis (List.forall_mem_cons.mp newlines).2
            (List.forall_mem_cons.mp newlines').2 further
          exact ⟨rfl, tails⟩

/-- Behind a token that is kept, joining goes on with it as the last one. -/
theorem exists_joinLinesFrom_behind (pends : AllNewlines pending.toList)
    (other : lexeme.token ≠ .newline)
    (joined : joinLinesFrom depth last pending lexemes = front ++ lexeme :: rest) :
    ∃ before after, lexemes = before ++ lexeme :: after ∧
      rest = joinLinesFrom (depthFrom depth (front ++ [lexeme])) (some lexeme.token) none
        after := by
  induction lexemes generalizing depth last pending front with
  | nil => simp [joinLinesFrom] at joined
  | cons head tail inductionHypothesis =>
      by_cases newline : head.token = .newline
      · rw [joinLinesFrom_newline newline] at joined
        obtain ⟨before, after, rfl, continues⟩ :=
          inductionHypothesis (allNewlines_pending pends newline) joined
        exact ⟨head :: before, after, rfl, continues⟩
      · rw [joinLinesFrom_other newline] at joined
        have newlines := allNewlines_breaksBefore head.token pends
        generalize breaksBefore head.token pending = breaks at joined newlines
        rcases List.append_eq_append_iff.mp joined with
          ⟨more, rfl, further⟩ | ⟨more, rfl, further⟩
        · rw [List.append_assoc, depthFrom_newlines newlines]
          cases more with
          | nil =>
              obtain ⟨rfl, rfl⟩ := List.cons.inj further
              exact ⟨[], tail, rfl, rfl⟩
          | cons first more =>
              obtain ⟨rfl, behind⟩ := List.cons.inj further
              obtain ⟨before, after, rfl, continues⟩ :=
                inductionHypothesis allNewlines_none behind
              exact ⟨head :: before, after, rfl, continues⟩
        · cases more with
          | nil =>
              obtain ⟨rfl, rfl⟩ := List.cons.inj further
              rw [List.append_nil] at newlines
              rw [depthFrom_newlines newlines]
              exact ⟨[], tail, rfl, rfl⟩
          | cons first more =>
              obtain ⟨rfl, _⟩ := List.cons.inj further
              exact absurd (newlines lexeme (by simp)) other

/-- In front of the next token that is kept, the first of the newlines before it is kept if it
counts. -/
theorem exists_joinLinesFrom_gap (pends : AllNewlines pending.toList) (newlines : AllNewlines gap)
    (other : later.token ≠ .newline)
    (joined : joinLinesFrom depth last pending lexemes = gap ++ later :: rest) :
    ∃ between after, lexemes = between ++ later :: after ∧ AllNewlines between ∧
      gap = breaksBefore later.token
        (pending.or (if depth = 0 && last.any fun token => !token.expectsMore then between.head?
          else none)) := by
  induction lexemes generalizing pending with
  | nil => simp [joinLinesFrom] at joined
  | cons head tail inductionHypothesis =>
      by_cases newline : head.token = .newline
      · rw [joinLinesFrom_newline newline] at joined
        obtain ⟨between, after, rfl, among, kept⟩ :=
          inductionHypothesis (allNewlines_pending pends newline) joined
        refine ⟨head :: between, after, rfl, List.forall_mem_cons.mpr ⟨newline, among⟩, ?_⟩
        rw [kept]
        generalize (decide (depth = 0) && last.any fun token => !token.expectsMore) = stops
        cases pending <;> cases stops <;> rfl
      · rw [joinLinesFrom_other newline] at joined
        obtain ⟨same, rfl, _⟩ := newlines_inj (allNewlines_breaksBefore _ pends) newlines newline
          other joined
        refine ⟨[], tail, rfl, List.forall_mem_nil _, ?_⟩
        rw [← same]
        split <;> simp

/-- No newline is kept while there is no token in front of it. -/
theorem first_joinLinesFrom (joined : joinLinesFrom depth none none lexemes = lexeme :: rest) :
    lexeme.token ≠ .newline := by
  induction lexemes with
  | nil => cases joined
  | cons head tail inductionHypothesis =>
      by_cases newline : head.token = .newline
      · rw [joinLinesFrom_newline newline] at joined
        apply inductionHypothesis
        simpa using joined
      · rw [joinLinesFrom_other newline] at joined
        have unbroken : breaksBefore head.token none = [] := by
          unfold breaksBefore
          split <;> rfl
        rw [unbroken] at joined
        obtain ⟨rfl, _⟩ := List.cons.inj joined
        exact newline

/-- The lexeme is not a newline if the one before it is. -/
abbrev Apart (lexeme next : Lexeme) : Prop := lexeme.token = .newline → next.token ≠ .newline

theorem apart_joinLinesFrom (depth : Nat) (last : Option Token) (pending : Option Lexeme)
    (lexemes : List Lexeme) : (joinLinesFrom depth last pending lexemes).IsChain Apart := by
  induction lexemes generalizing depth last pending with
  | nil => exact .nil
  | cons head tail inductionHypothesis =>
      by_cases newline : head.token = .newline
      · rw [joinLinesFrom_newline newline]
        apply inductionHypothesis
      · rw [joinLinesFrom_other newline]
        have further := inductionHypothesis (head.token.depthAfter depth) (some head.token) none
        generalize joinLinesFrom (head.token.depthAfter depth) (some head.token) none tail = joined
          at further
        have behind : (head :: joined).IsChain Apart := by
          cases joined with
          | nil => exact .singleton head
          | cons next rest => exact .cons_cons (fun same => absurd same newline) further
        unfold breaksBefore
        split
        · exact behind
        · cases pending with
          | none => exact behind
          | some line => exact .cons_cons (fun _ => newline) behind

/-- Behind a token that is kept, a newline stands before the next one just if there is one to be
kept and neither of them makes the statement go on. -/
theorem exists_newlines_between
    (joined : joinLines lexemes = front ++ earlier :: gap ++ later :: rest)
    (other : earlier.token ≠ .newline) (otherLater : later.token ≠ .newline)
    (newlines : AllNewlines gap) :
    ∃ before between after, lexemes = before ++ earlier :: (between ++ later :: after) ∧
      AllNewlines between ∧
      ((∃ line, gap = [line]) ↔ between ≠ [] ∧ depthFrom 0 (front ++ [earlier]) = 0 ∧
        earlier.token.expectsMore = false ∧ later.token.carriesOn = false ∧
        later.token ≠ .eof) := by
  rw [List.append_assoc, List.cons_append] at joined
  obtain ⟨before, behind, rfl, continues⟩ :=
    exists_joinLinesFrom_behind allNewlines_none other joined
  obtain ⟨between, after, rfl, among, kept⟩ :=
    exists_joinLinesFrom_gap allNewlines_none newlines otherLater continues.symm
  refine ⟨before, between, after, rfl, among, ?_⟩
  rw [kept, Option.none_or, breaksBefore, Option.any_some]
  by_cases goesOn : later.token.carriesOn = true ∨ later.token = .eof
  · have refused : (later.token.carriesOn || decide (later.token = .eof)) = true := by
      simpa using goesOn
    rw [if_pos refused]
    rcases goesOn with carries | ends
    · simp [carries]
    · simp [ends]
  · rw [not_or, Bool.not_eq_true] at goesOn
    have breaks : ¬(later.token.carriesOn || decide (later.token = .eof)) = true := by
      simp [goesOn]
    rw [if_neg breaks]
    by_cases stops : depthFrom 0 (front ++ [earlier]) = 0 ∧ earlier.token.expectsMore = false
    · cases between <;> simp [stops, goesOn]
    · have unbroken : ¬(decide (depthFrom 0 (front ++ [earlier]) = 0) &&
          !earlier.token.expectsMore) = true := by
        simpa using stops
      rw [if_neg unbroken]
      constructor
      · rintro ⟨line, single⟩
        cases single
      · rintro ⟨_, outside, open_, _⟩
        exact absurd ⟨outside, open_⟩ stops

end Joining

/-! ### Newlines in a text -/

/-- The text has a line end at one of the bytes. -/
def LineEndWithin (text : String) (start stop : Nat) : Prop :=
  ∃ before behind, text.toList = before ++ '\n' :: behind ∧
    start ≤ byteLength before ∧ byteLength before < stop

theorem lineEndWithin_iff {text : String} {before part behind : List Char}
    (split : text.toList = before ++ part ++ behind) :
    LineEndWithin text (byteLength before) (byteLength (before ++ part)) ↔ '\n' ∈ part := by
  constructor
  · rintro ⟨front, rest, split', start, stop⟩
    rw [split, List.append_assoc] at split'
    rcases List.append_eq_append_iff.mp split' with ⟨more, rfl, further⟩ | ⟨more, rfl, further⟩
    · rcases List.append_eq_append_iff.mp further with ⟨gone, rfl, _⟩ | ⟨gone, rfl, ends⟩
      · simp only [byteLength_append] at stop
        omega
      · cases gone with
        | nil => simp at stop
        | cons c gone =>
            obtain ⟨rfl, _⟩ := List.cons.inj ends
            simp
    · have empty : byteLength more = 0 := by
        rw [byteLength_append] at start
        omega
      obtain rfl := eq_nil_of_byteLength empty
      cases part with
      | nil => simp at stop
      | cons c part =>
          obtain ⟨rfl, _⟩ := List.cons.inj further
          simp
  · intro among
    obtain ⟨front, rest, rfl⟩ := List.append_of_mem among
    refine ⟨before ++ front, rest ++ behind, by simp [split], ?_, ?_⟩
    · rw [byteLength_append]
      omega
    · rw [← List.append_assoc, byteLength_append (before ++ front), byteLength_cons]
      have positive : 0 < '\n'.utf8Size := by decide
      omega

section Tiling

variable {before rest : List Char} {lexemes front between after : List Lexeme}
variable {earlier later : Lexeme}

/-- The lexemes behind one of a text lie in what the text has behind it. -/
theorem Tiling.exists_behind (tiling : Tiling before rest (front ++ earlier :: after))
    (some_ : after ≠ []) :
    ∃ passed left, before ++ rest = passed ++ left ∧ byteLength passed = earlier.span.stop ∧
      Tiling passed left after := by
  generalize whole : front ++ earlier :: after = lexemes at tiling
  induction tiling generalizing front with
  | done =>
      cases front with
      | nil =>
          obtain ⟨_, rfl⟩ := List.cons.inj whole
          exact absurd rfl some_
      | cons => simp at whole
  | blank _ _ inductionHypothesis | comment _ _ _ inductionHypothesis =>
      simpa using inductionHypothesis whole
  | @line before rest lexemes further inductionHypothesis =>
      cases front with
      | nil =>
          obtain ⟨rfl, rfl⟩ := List.cons.inj whole
          exact ⟨before ++ ['\n'], rest, by simp, rfl, further⟩
      | cons first front =>
          obtain ⟨_, others⟩ := List.cons.inj whole
          simpa using inductionHypothesis others
  | @lexeme before token spelling rest lexemes _ _ _ further inductionHypothesis =>
      cases front with
      | nil =>
          obtain ⟨rfl, rfl⟩ := List.cons.inj whole
          exact ⟨before ++ spelling, rest, by simp, rfl, further⟩
      | cons first front =>
          obtain ⟨_, others⟩ := List.cons.inj whole
          simpa using inductionHypothesis others

/-- The text in front of a lexeme has line ends just if there are newlines in front of it. -/
theorem Tiling.exists_gap (tiling : Tiling before rest (between ++ later :: after))
    (newlines : AllNewlines between) (other : later.token ≠ .newline) :
    ∃ gap behind, rest = gap ++ behind ∧ byteLength (before ++ gap) = later.span.start ∧
      ('\n' ∈ gap ↔ between ≠ []) := by
  generalize whole : between ++ later :: after = lexemes at tiling
  induction tiling generalizing between with
  | @done before =>
      cases between with
      | nil =>
          obtain ⟨rfl, _⟩ := List.cons.inj whole
          exact ⟨[], [], rfl, by simp [spanBehind], by simp⟩
      | cons => simp at whole
  | @blank before c rest lexemes blank _ inductionHypothesis =>
      obtain ⟨gap, behind, rfl, start, found⟩ := inductionHypothesis newlines whole
      refine ⟨c :: gap, behind, rfl, by simpa using start, ?_⟩
      have inside : '\n' ≠ c := by
        rintro rfl
        cases blank
      rw [← found, List.mem_cons, or_iff_right inside]
  | @comment before body rest lexemes inside _ _ inductionHypothesis =>
      obtain ⟨gap, behind, rfl, start, found⟩ := inductionHypothesis newlines whole
      refine ⟨'/' :: '/' :: body ++ gap, behind, by simp, by simpa using start, ?_⟩
      rw [← found]
      simp [inside]
  | @line before rest lexemes _ inductionHypothesis =>
      cases between with
      | nil =>
          obtain ⟨rfl, _⟩ := List.cons.inj whole
          exact absurd rfl other
      | cons first between =>
          obtain ⟨rfl, others⟩ := List.cons.inj whole
          obtain ⟨gap, behind, rfl, start, _⟩ :=
            inductionHypothesis (List.forall_mem_cons.mp newlines).2 others
          exact ⟨'\n' :: gap, behind, rfl, by simpa using start, by simp⟩
  | @lexeme before token spelling rest lexemes spelled _ inside _ _ =>
      cases between with
      | nil =>
          obtain ⟨rfl, _⟩ := List.cons.inj whole
          exact ⟨[], spelling ++ rest, rfl, by simp [spanBehind], by simp⟩
      | cons first between =>
          obtain ⟨rfl, others⟩ := List.cons.inj whole
          have newline : token = .newline := newlines _ List.mem_cons_self
          subst newline
          have written : spelling = ['\n'] := spelled
          exact absurd (by simp [written]) inside

end Tiling

/-! ### Scanning a text with its comments -/

theorem Cuts.exists_spelling {c : Char} {rest : List Char} {token : Token} {taken : Nat}
    (cut : Cuts c rest token taken) :
    ∃ after, c :: rest = c :: rest.take taken ++ after ∧ rest.drop taken = after ∧
      token.SpelledAs (c :: rest.take taken) ∧ '\n' ∉ c :: rest.take taken := by
  obtain ⟨more, after, rfl, rfl, spelled, written⟩ := cut
  rw [List.take_left, List.drop_left]
  refine ⟨after, rfl, rfl, spelled, ?_⟩
  rcases written with ⟨quoted, content, rfl, _, unended⟩ | solid
  · have other : '\n' ≠ c := by
      rintro rfl
      cases quoted
    simp [unended, other]
  · have all : ∀ d ∈ c :: more, isSolid d = true := List.forall_mem_cons.mpr solid
    intro found
    exact absurd (all _ found) (by decide)

/-- What scanning a text finds lies in the text, whether comments are blanked or not. -/
theorem tiling_of_scanFrom {before : List Char} {cursor : Cursor} (rest : List Char)
    {lexemes : List Lexeme} (here : cursor.Behind before)
    (scanned : scanFrom cursor rest = .ok lexemes) : Tiling before rest lexemes := by
  match rest with
  | [] =>
      rw [scanFrom, here.span] at scanned
      cases scanned
      exact .done
  | c :: rest =>
      rw [scanFrom] at scanned
      by_cases blank : isBlank c = true
      · rw [if_pos blank] at scanned
        have inside : '\n' ∉ [c] := by
          rintro found
          cases List.mem_singleton.mp found
          cases blank
        exact .blank blank (tiling_of_scanFrom rest (here.skip inside) scanned)
      · rw [if_neg blank] at scanned
        by_cases ends : c = '\n'
        · subst ends
          rw [if_pos rfl, bind_eq_ok] at scanned
          obtain ⟨more, further, made⟩ := scanned
          cases made
          rw [here.span]
          exact .line (tiling_of_scanFrom rest here.nextLine further)
        · rw [if_neg ends] at scanned
          cases cut : scanToken cursor.previous c rest with
          | error problem =>
              rw [cut] at scanned
              cases scanned
          | ok found =>
              obtain ⟨token, taken⟩ := found
              rw [cut] at scanned
              simp only [bind_eq_ok, pure_eq_ok] at scanned
              obtain ⟨more, further, rfl⟩ := scanned
              obtain ⟨after, split, left, spelled, inside⟩ :=
                (cuts_scanToken cut).exists_spelling
              rw [split, here.span]
              apply Tiling.lexeme spelled nofun inside
              have shorter : after.length < (c :: rest).length := by
                rw [← left, List.length_drop, List.length_cons]
                omega
              rw [left] at further
              exact tiling_of_scanFrom after (here.skip inside) further
termination_by rest.length
decreasing_by
  all_goals first | exact shorter | exact Nat.lt_succ_self _

/-! ### Newlines among the lexemes of a text -/

/-- Newlines stand where statements end, and nowhere else. -/
structure EndsStatements (text : String) (lexemes : List Lexeme) : Prop where
  first : ∀ lexeme ∈ lexemes.head?, lexeme.token ≠ .newline
  apart : lexemes.IsChain Apart
  /-- Between two tokens with no other one between them there is a newline just if there is a line
  end between them outside parentheses, the first does not ask for more, and the second neither
  carries on nor ends the text. -/
  between : ∀ front earlier gap later behind,
    lexemes = front ++ earlier :: gap ++ later :: behind → AllNewlines gap →
    earlier.token ≠ .newline → later.token ≠ .newline →
    ((∃ line, gap = [line]) ↔
      LineEndWithin text earlier.span.stop later.span.start ∧
        depthFrom 0 (front ++ [earlier]) = 0 ∧ earlier.token ∉ Token.continuations ∧
        later.token ∉ Token.leadingOperators ∧ later.token ≠ .eof)

theorem endsStatements_of_lex {text : String} {lexemes : List Lexeme}
    (accepted : lex text = .ok lexemes) : EndsStatements text lexemes := by
  obtain ⟨scanned, found, rfl⟩ := map_eq_ok.mp accepted
  have tiling : Tiling [] text.toList scanned := tiling_of_scanFrom _ ⟨rfl, rfl⟩ found
  refine ⟨?_, apart_joinLinesFrom 0 none none scanned, ?_⟩
  · intro lexeme among
    obtain ⟨rest, joined⟩ := List.head?_eq_some_iff.mp among
    exact first_joinLinesFrom joined
  · intro front earlier gap later behind joined newlines other otherLater
    obtain ⟨before, between, after, rfl, among, kept⟩ :=
      exists_newlines_between joined other otherLater newlines
    obtain ⟨passed, left, split, stop, further⟩ := tiling.exists_behind (by simp)
    obtain ⟨part, rest, rfl, start, lined⟩ := further.exists_gap among otherLater
    have whole : text.toList = passed ++ part ++ rest := by
      simpa using split
    rw [kept, ← lined, ← stop, ← start, lineEndWithin_iff whole, Token.mem_continuations,
      Token.mem_leadingOperators, Bool.not_eq_true, Bool.not_eq_true]

/-- Of six line ends one ends a statement: the first comes after an operator, the third is one too
many, the fourth is in parentheses, the fifth comes before an operator, and the last ends the
text. -/
def brokenLines : String := "a +\nb\n\n(c\n)\n. d\n"

theorem brokenLines_ended :
    ∃ lexemes, lex brokenLines = .ok lexemes ∧
      lexemes.map (·.token) = [.name "a", .plus, .name "b", .newline, .leftParen, .name "c",
        .rightParen, .dot, .name "d", .eof] ∧ EndsStatements brokenLines lexemes := by
  have found : (lex brokenLines).toOption.map (·.map (·.token)) =
      some [.name "a", .plus, .name "b", .newline, .leftParen, .name "c", .rightParen, .dot,
        .name "d", .eof] := by
    decide +kernel
  cases accepted : lex brokenLines with
  | error diagnostic =>
      rw [accepted] at found
      cases found
  | ok lexemes =>
      rw [accepted] at found
      exact ⟨lexemes, rfl, Option.some.inj found, endsStatements_of_lex accepted⟩

end EntityScript
