import EntityScript.Proofs.Tiling

/-!
What a text consists of: its strings, its comments and the characters outside of them.  The pieces
are told apart by how they start and by what ends them, so that a text is divided in one way only.
-/

namespace EntityScript.Source

/-- What stands together in a text. -/
inductive Piece where
  /-- A character outside of strings and comments. -/
  | code (c : Char)
  /-- A quote, what stands behind it, and the same quote or the line end that it goes up to; there
  is neither when it goes up to the end of the text. -/
  | quoted (quote : Char) (content : List Char) (closing : Option Char)
  /-- Two slashes and what stands behind them on their line. -/
  | comment (note : List Char)

namespace Piece

def chars : Piece → List Char
  | code c => [c]
  | quoted quote content closing => quote :: content ++ closing.toList
  | comment note => '/' :: '/' :: note

def isComment : Piece → Bool
  | comment _ => true
  | code _ | quoted .. => false

/-- The piece may stand where the characters follow it. -/
def Fits : Piece → List Char → Prop
  | code c, behind => isQuote c = false ∧ ¬(c = '/' ∧ behind.head? = some '/')
  | quoted quote content closing, behind =>
      isQuote quote = true ∧ quote ∉ content ∧ '\n' ∉ content ∧
        (closing = some quote ∨ closing = some '\n' ∨ closing = none ∧ behind = [])
  | comment note, behind => '\n' ∉ note ∧ (behind = [] ∨ behind.head? = some '\n')

end Piece

/-- The characters that the pieces are made of. -/
def charsOf (pieces : List Piece) : List Char := pieces.flatMap Piece.chars

/-- The text is made of the pieces, one behind the other. -/
inductive Divided : List Piece → List Char → Prop where
  | nil : Divided [] []
  | cons {piece more rest} : piece.Fits rest → Divided more rest →
      Divided (piece :: more) (piece.chars ++ rest)

section Divided

variable {pieces : List Piece} {cs : List Char}

theorem Divided.chars_eq (divided : Divided pieces cs) : cs = charsOf pieces := by
  induction divided with
  | nil => rfl
  | cons fits further inductionHypothesis =>
      rw [charsOf, List.flatMap_cons]
      exact congrArg _ inductionHypothesis

/-- A string goes up to the same quote, the end of its line or the end of the text. -/
theorem exists_string (quote : Char) (rest : List Char) :
    ∃ content closing tail, rest = content ++ Option.toList closing ++ tail ∧ quote ∉ content ∧
      '\n' ∉ content ∧
        (closing = some quote ∨ closing = some '\n' ∨ closing = none ∧ tail = []) := by
  induction rest with
  | nil => exact ⟨[], none, [], rfl, List.not_mem_nil, List.not_mem_nil, .inr (.inr ⟨rfl, rfl⟩)⟩
  | cons c rest inductionHypothesis =>
      by_cases same : c = quote
      · exact ⟨[], some c, rest, rfl, List.not_mem_nil, List.not_mem_nil, .inl (congrArg some same)⟩
      by_cases line : c = '\n'
      · exact ⟨[], some c, rest, rfl, List.not_mem_nil, List.not_mem_nil,
          .inr (.inl (congrArg some line))⟩
      obtain ⟨content, closing, tail, rfl, open_, inside, closes⟩ := inductionHypothesis
      exact ⟨c :: content, closing, tail, rfl, by simp [open_, Ne.symm same],
        by simp [inside, Ne.symm line], closes⟩

theorem exists_divided (cs : List Char) : ∃ pieces, Divided pieces cs := by
  induction count : cs.length using Nat.strong_induction_on generalizing cs with
  | _ count inductionHypothesis =>
  subst count
  cases cs with
  | nil => exact ⟨[], .nil⟩
  | cons c rest =>
      by_cases slashes : c = '/' ∧ rest.head? = some '/'
      · obtain ⟨rfl, second⟩ := slashes
        obtain ⟨more, rfl⟩ := List.head?_eq_some_iff.mp second
        obtain ⟨note, tail, rfl, inside, ends⟩ := exists_comment more
        obtain ⟨pieces, divided⟩ := inductionHypothesis tail.length (by simp; omega) tail rfl
        have fits : (Piece.comment note).Fits tail := ⟨inside, ends⟩
        exact ⟨.comment note :: pieces, .cons fits divided⟩
      cases quote : isQuote c with
      | true =>
          obtain ⟨content, closing, tail, rfl, open_, inside, closes⟩ := exists_string c rest
          obtain ⟨pieces, divided⟩ := inductionHypothesis tail.length (by simp; omega) tail rfl
          have fits : (Piece.quoted c content closing).Fits tail := ⟨quote, open_, inside, closes⟩
          have whole := Divided.cons fits divided
          exact ⟨_, by simpa [Piece.chars] using whole⟩
      | false =>
          obtain ⟨pieces, divided⟩ := inductionHypothesis rest.length (by simp) rest rfl
          have fits : (Piece.code c).Fits rest := ⟨quote, slashes⟩
          exact ⟨.code c :: pieces, .cons fits divided⟩

/-- Two runs of characters that a text starts with are the same when both go up to the first one
that stops them. -/
theorem append_unique (stops : Char → Prop) {run run' rest rest' : List Char}
    (goes : ∀ c ∈ run, ¬stops c) (goes' : ∀ c ∈ run', ¬stops c)
    (ends : ∀ c ∈ rest.head?, stops c) (ends' : ∀ c ∈ rest'.head?, stops c)
    (same : run ++ rest = run' ++ rest') : run = run' ∧ rest = rest' := by
  induction run generalizing run' with
  | nil =>
      cases run' with
      | nil => exact ⟨rfl, same⟩
      | cons d more =>
          obtain rfl : rest = d :: more ++ rest' := same
          exact absurd (ends d rfl) (goes' d List.mem_cons_self)
  | cons c run inductionHypothesis =>
      cases run' with
      | nil =>
          obtain rfl : c :: run ++ rest = rest' := same
          exact absurd (ends' c rfl) (goes c List.mem_cons_self)
      | cons d more =>
          obtain ⟨rfl, further⟩ := List.cons.inj same
          obtain ⟨rfl, rfl⟩ := inductionHypothesis (List.forall_mem_cons.mp goes).2
            (List.forall_mem_cons.mp goes').2 further
          exact ⟨rfl, rfl⟩

theorem closing_unique {closing closing' : Option Char} {rest rest' : List Char}
    (ends : closing = none → rest = []) (ends' : closing' = none → rest' = [])
    (same : closing.toList ++ rest = closing'.toList ++ rest') :
    closing = closing' ∧ rest = rest' := by
  cases closing <;> cases closing' <;> simp_all

theorem Piece.Fits.unique {piece other : Piece} {rest rest' : List Char} (fits : piece.Fits rest)
    (fits' : other.Fits rest') (same : piece.chars ++ rest = other.chars ++ rest') :
    piece = other ∧ rest = rest' := by
  cases piece with
  | code c =>
      obtain ⟨plain, single⟩ := fits
      cases other with
      | code d =>
          obtain ⟨rfl, rfl⟩ := List.cons.inj same
          exact ⟨rfl, rfl⟩
      | quoted | comment => simp_all [Piece.chars, Piece.Fits]
  | quoted quote content closing =>
      obtain ⟨opens, open_, inside, closes⟩ := fits
      cases other with
      | code d => simp_all [Piece.chars, Piece.Fits]
      | comment note =>
          obtain ⟨rfl, _⟩ := List.cons.inj same
          cases opens
      | quoted quote' content' closing' =>
          obtain ⟨_, open', inside', closes'⟩ := fits'
          simp only [Piece.chars, List.cons_append, List.append_assoc, List.cons.injEq] at same
          obtain ⟨rfl, same⟩ := same
          obtain ⟨rfl, further⟩ := append_unique (fun c => c = quote ∨ c = '\n')
            (by grind) (by grind) (by grind) (by grind) same
          have ends : closing = none → rest = [] := by grind
          have ends' : closing' = none → rest' = [] := by grind
          obtain ⟨rfl, rfl⟩ := closing_unique ends ends' further
          exact ⟨rfl, rfl⟩
  | comment note =>
      obtain ⟨inside, ends⟩ := fits
      cases other with
      | code d =>
          obtain ⟨rfl, rfl⟩ := List.cons.inj same
          exact absurd ⟨rfl, rfl⟩ fits'.2
      | quoted quote content closing =>
          obtain ⟨rfl, _⟩ := List.cons.inj same
          cases fits'.1
      | comment note' =>
          obtain ⟨inside', ends'⟩ := fits'
          simp only [Piece.chars, List.cons_append, List.cons.injEq, true_and] at same
          obtain ⟨rfl, rfl⟩ := append_unique (· = '\n') (by grind) (by grind) (by grind) (by grind)
            same
          exact ⟨rfl, rfl⟩

theorem Divided.unique {others : List Piece} (divided : Divided pieces cs)
    (divided' : Divided others cs) : others = pieces := by
  induction divided generalizing others with
  | nil =>
      generalize none_ : ([] : List Char) = cs at divided'
      cases divided' with
      | nil => rfl
      | @cons piece => cases piece <;> cases none_
  | @cons piece more rest fits further inductionHypothesis =>
      generalize whole : piece.chars ++ rest = cs at divided'
      cases divided' with
      | nil => cases piece <;> cases whole
      | cons fits' further' =>
          obtain ⟨rfl, rfl⟩ := fits.unique fits' whole
          rw [inductionHypothesis further']

/-- No piece ends between two slashes that follow each other. -/
theorem Piece.Fits.not_between_slashes {piece : Piece} {front rest : List Char}
    (fits : piece.Fits rest) (last : piece.chars = front ++ ['/']) : rest.head? ≠ some '/' := by
  intro second
  have ends : piece.chars.getLast? = some '/' := by rw [last, List.getLast?_concat]
  cases piece with
  | code c =>
      obtain rfl : c = '/' := Option.some.inj ends
      exact fits.2 ⟨rfl, second⟩
  | quoted quote content closing =>
      obtain ⟨opens, _, _, closes⟩ := fits
      rcases closes with rfl | rfl | ⟨rfl, rfl⟩
      · have closed : (Piece.quoted quote content (some quote)).chars =
            (quote :: content) ++ [quote] := rfl
        rw [closed, List.getLast?_concat] at ends
        obtain rfl := Option.some.inj ends
        cases opens
      · have closed : (Piece.quoted quote content (some '\n')).chars =
            (quote :: content) ++ ['\n'] := rfl
        rw [closed, List.getLast?_concat] at ends
        cases ends
      · cases second
  | comment note =>
      rcases fits.2 with rfl | line
      · cases second
      · cases line.symm.trans second

/-- Where two slashes follow each other there is a string or a comment that they are in. -/
theorem Divided.slashes (divided : Divided pieces cs) {before behind : List Char}
    (split : cs = before ++ '/' :: '/' :: behind) :
    ∃ earlier piece later front back, pieces = earlier ++ piece :: later ∧
      before = charsOf earlier ++ front ∧ piece.chars = front ++ '/' :: '/' :: back ∧
      ∀ c, piece ≠ .code c := by
  induction divided generalizing before with
  | nil => simp at split
  | @cons piece more rest fits further inductionHypothesis =>
      have later (part : List Char) (split : rest = part ++ '/' :: '/' :: behind) :
          ∃ earlier other later front back, piece :: more = earlier ++ other :: later ∧
            piece.chars ++ part = charsOf earlier ++ front ∧
            other.chars = front ++ '/' :: '/' :: back ∧ ∀ c, other ≠ .code c := by
        obtain ⟨earlier, other, later, front, back, rfl, rfl, inside, closed⟩ :=
          inductionHypothesis split
        exact ⟨piece :: earlier, other, later, front, back, rfl, by simp [charsOf], inside, closed⟩
      -- The slashes stand behind the first piece, on its end, or in it.
      rcases List.append_eq_append_iff.mp split with ⟨part, rfl, rest_⟩ | ⟨part, chars, rest_⟩
      · exact later part rest_
      · match part, rest_ with
        | [], rest_ =>
            have behind_ := later [] rest_.symm
            rwa [chars, List.append_nil, List.append_nil] at behind_
        | [c], rest_ =>
            obtain ⟨rfl, same⟩ := List.cons.inj rest_
            exact absurd (congrArg List.head? same.symm) (fits.not_between_slashes chars)
        | c :: d :: back, rest_ =>
            simp only [List.cons_append, List.cons.injEq] at rest_
            obtain ⟨rfl, rfl, _⟩ := rest_
            refine ⟨[], piece, more, before, back, rfl, rfl, chars, ?_⟩
            rintro c rfl
            have single := congrArg List.length chars
            simp [Piece.chars] at single
            omega

end Divided

end EntityScript.Source
