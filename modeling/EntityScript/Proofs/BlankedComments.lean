import EntityScript.Proofs.TextPieces
import EntityScript.Proofs.TrailingComments

/-!
The layout of a text whose comments are blanked.  Blanking works piece by piece, keeps the bytes of
each piece, and makes pieces of what it leaves of a text.
-/

namespace EntityScript.Source

variable {pieces : List Piece} {cs : List Char}

namespace Piece

/-- What is left of the piece: of a comment nothing but blanks. -/
def blanked : Piece → List Char
  | comment note => List.replicate (byteLength (comment note).chars) ' '
  | piece => piece.chars

/-- The pieces of what is left of the piece. -/
def left : Piece → List Piece
  | comment note => List.replicate (byteLength (comment note).chars) (code ' ')
  | piece => [piece]

theorem byteLength_blanked (piece : Piece) : byteLength piece.blanked = byteLength piece.chars := by
  cases piece with
  | code | quoted => rfl
  | comment note => exact byteLength_replicate _

theorem blanked_eq {piece : Piece} (outside : piece.isComment = false) :
    piece.blanked = piece.chars := by
  cases piece with
  | code | quoted => rfl
  | comment => cases outside

theorem not_isComment_of_left {piece part : Piece} (member : part ∈ piece.left) :
    part.isComment = false := by
  cases piece with
  | code | quoted =>
      rw [List.mem_singleton.mp member]
      rfl
  | comment note =>
      rw [(List.mem_replicate.mp member).2]
      rfl

theorem not_isComment_of_mem_left {part : Piece} (member : part ∈ pieces.flatMap left) :
    part.isComment = false := by
  obtain ⟨piece, _, ofPiece⟩ := List.mem_flatMap.mp member
  exact not_isComment_of_left ofPiece

end Piece

theorem blankComments_quoted {quote : Char} {content : List Char} (open_ : quote ∉ content)
    (inside : '\n' ∉ content) (rest : List Char) :
    blankComments (.quoted quote) (content ++ rest) =
      content ++ blankComments (.quoted quote) rest := by
  induction content with
  | nil => rfl
  | cons c content inductionHypothesis =>
      obtain ⟨other, open_⟩ := not_or.mp (mt List.mem_cons.mpr open_)
      obtain ⟨other', inside⟩ := not_or.mp (mt List.mem_cons.mpr inside)
      rw [List.cons_append, blankComments, if_neg (by grind), inductionHypothesis open_ inside,
        List.cons_append]

theorem Piece.Fits.blankComments_append {piece : Piece} {rest : List Char}
    (fits : piece.Fits rest) :
    blankComments .code (piece.chars ++ rest) = piece.blanked ++ blankComments .code rest := by
  cases piece with
  | code c =>
      obtain ⟨plain, single⟩ := fits
      change blankComments .code (c :: rest) = c :: blankComments .code rest
      rw [blankComments, if_neg single, plain]
      rfl
  | quoted quote content closing =>
      obtain ⟨opens, open_, inside, closes⟩ := fits
      have single : ¬(quote = '/' ∧ (content ++ closing.toList ++ rest).head? = some '/') := by
        rintro ⟨rfl, _⟩
        cases opens
      change blankComments .code (quote :: (content ++ closing.toList) ++ rest) =
        quote :: (content ++ closing.toList) ++ blankComments .code rest
      rw [List.cons_append, blankComments, if_neg single, opens, if_pos rfl,
        List.append_assoc, blankComments_quoted open_ inside, List.cons_append, List.append_assoc]
      rcases closes with rfl | rfl | ⟨rfl, rfl⟩
      · simp [blankComments]
      · simp [blankComments]
      · rfl
  | comment note => exact blankComments_slashes fits.1 fits.2

theorem Divided.blankComments_eq (divided : Divided pieces cs) :
    blankComments .code cs = pieces.flatMap Piece.blanked := by
  induction divided with
  | nil => rfl
  | cons fits further inductionHypothesis =>
      rw [fits.blankComments_append, inductionHypothesis, List.flatMap_cons]

/-- Blanking leaves no slash in front that was not there. -/
theorem head?_blankComments {rest : List Char}
    (slash : (blankComments .code rest).head? = some '/') : rest.head? = some '/' := by
  cases rest with
  | nil => exact slash
  | cons c rest =>
      rw [blankComments] at slash
      split at slash
      · cases slash
      · exact slash

theorem Piece.Fits.blanked {piece : Piece} {rest : List Char} (fits : piece.Fits rest)
    (kept : piece.isComment = false) : piece.Fits (blankComments .code rest) := by
  cases piece with
  | code c =>
      obtain ⟨plain, single⟩ := fits
      exact ⟨plain, fun slashes => single ⟨slashes.1, head?_blankComments slashes.2⟩⟩
  | quoted quote content closing =>
      obtain ⟨opens, open_, inside, closes⟩ := fits
      refine ⟨opens, open_, inside, closes.imp_right (Or.imp_right ?_)⟩
      rintro ⟨none_, rfl⟩
      exact ⟨none_, rfl⟩
  | comment => cases kept

theorem Divided.spaces (divided : Divided pieces cs) (count : Nat) :
    Divided (List.replicate count (.code ' ') ++ pieces) (List.replicate count ' ' ++ cs) := by
  induction count with
  | zero => exact divided
  | succ count inductionHypothesis =>
      have fits : (Piece.code ' ').Fits (List.replicate count ' ' ++ cs) :=
        ⟨by decide, fun slashes => absurd slashes.1 (by decide)⟩
      exact .cons fits inductionHypothesis

/-- What blanking leaves of a text is divided into what it leaves of the pieces. -/
theorem Divided.left (divided : Divided pieces cs) :
    Divided (pieces.flatMap Piece.left) (blankComments .code cs) := by
  induction divided with
  | nil => exact .nil
  | @cons piece more rest fits further inductionHypothesis =>
      rw [fits.blankComments_append, List.flatMap_cons]
      cases piece with
      | code | quoted => exact .cons (fits.blanked rfl) inductionHypothesis
      | comment note => exact inductionHypothesis.spaces _

/-- A text without comments is left as it is. -/
theorem Divided.blankComments_of_bare (divided : Divided pieces cs)
    (bare : ∀ piece ∈ pieces, piece.isComment = false) : blankComments .code cs = cs := by
  induction divided with
  | nil => rfl
  | @cons piece more rest fits further inductionHypothesis =>
      obtain ⟨here, others⟩ := List.forall_mem_cons.mp bare
      rw [fits.blankComments_append, inductionHypothesis others, Piece.blanked_eq here]

/-- The characters stand together in the text, the first one at the byte offset. -/
def StandAt (part cs : List Char) (offset : Nat) : Prop :=
  ∃ before behind, cs = before ++ part ++ behind ∧ byteLength before = offset

section StandAt

variable {c : Char} {part xs ys : List Char} {offset : Nat}

theorem StandAt.mem (stands : StandAt [c] xs offset) : c ∈ xs := by
  obtain ⟨before, behind, rfl, _⟩ := stands
  simp

theorem standAt_append :
    StandAt [c] (xs ++ ys) offset ↔
      StandAt [c] xs offset ∨
        ∃ further, StandAt [c] ys further ∧ offset = byteLength xs + further := by
  constructor
  · rintro ⟨before, behind, split, rfl⟩
    rw [List.append_assoc] at split
    rcases List.append_eq_append_iff.mp split with ⟨part, rfl, rfl⟩ | ⟨part, rfl, rest⟩
    · exact .inr ⟨_, ⟨part, behind, (List.append_assoc ..).symm, rfl⟩, byteLength_append ..⟩
    · cases part with
      | nil => exact .inr ⟨0, ⟨[], behind, rest.symm, rfl⟩, by simp⟩
      | cons d more =>
          obtain ⟨rfl, _⟩ := List.cons.inj rest
          exact .inl ⟨before, more, by simp, rfl⟩
  · rintro (⟨before, behind, rfl, rfl⟩ | ⟨_, ⟨before, behind, rfl, rfl⟩, rfl⟩)
    · exact ⟨before, behind ++ ys, by simp, rfl⟩
    · exact ⟨xs ++ before, behind, by simp, byteLength_append ..⟩

end StandAt

/-- Blanking keeps line ends where they are. -/
theorem Divided.standAt_line (divided : Divided pieces cs) (offset : Nat) :
    StandAt ['\n'] (blankComments .code cs) offset ↔ StandAt ['\n'] cs offset := by
  induction divided generalizing offset with
  | nil => exact Iff.rfl
  | @cons piece more rest fits further inductionHypothesis =>
      have here : StandAt ['\n'] piece.blanked offset ↔ StandAt ['\n'] piece.chars offset := by
        cases piece with
        | code | quoted => exact Iff.rfl
        | comment note =>
            refine iff_of_false (fun stands => ?_) fun stands => ?_
            · exact absurd (List.eq_of_mem_replicate stands.mem) (by decide)
            · exact fits.1 (by simpa [Piece.chars] using stands.mem)
      rw [fits.blankComments_append, standAt_append, standAt_append, here, piece.byteLength_blanked]
      simp only [inductionHypothesis]

theorem byteLength_flatMap_blanked (pieces : List Piece) :
    byteLength (pieces.flatMap Piece.blanked) = byteLength (charsOf pieces) := by
  induction pieces with
  | nil => rfl
  | cons piece pieces inductionHypothesis =>
      rw [charsOf, List.flatMap_cons, List.flatMap_cons, byteLength_append, byteLength_append,
        piece.byteLength_blanked, inductionHypothesis, charsOf]

/-- What is left of a piece stands where the piece stood. -/
theorem Divided.standAt_blanked {earlier later : List Piece} {piece : Piece}
    (divided : Divided (earlier ++ piece :: later) cs) :
    StandAt piece.chars cs (byteLength (charsOf earlier)) ∧
      StandAt piece.blanked (blankComments .code cs) (byteLength (charsOf earlier)) := by
  refine ⟨⟨charsOf earlier, charsOf later, ?_, rfl⟩, ⟨earlier.flatMap Piece.blanked,
    later.flatMap Piece.blanked, ?_, byteLength_flatMap_blanked earlier⟩⟩
  · rw [divided.chars_eq]
    simp [charsOf]
  · rw [divided.blankComments_eq]
    simp

theorem utf8ByteSize_ofList (cs : List Char) : (String.ofList cs).utf8ByteSize = byteLength cs := by
  induction cs with
  | nil => rfl
  | cons c cs inductionHypothesis =>
      rw [← List.singleton_append, String.ofList_append, String.utf8ByteSize_append,
        inductionHypothesis, byteLength_append, ← String.singleton_eq_ofList,
        String.utf8ByteSize_singleton]
      simp

theorem toList_stripComments (text : String) :
    (stripComments text).toList = blankComments .code text.toList := String.toList_ofList

/-- How a text of the `parts` has the layout of a text of the `pieces` and none of its comments. -/
structure KeepsLayout (pieces : List Piece) (text : String) (parts : List Piece) (bare : String) :
    Prop where
  size : bare.utf8ByteSize = text.utf8ByteSize
  lines : ∀ offset, StandAt ['\n'] bare.toList offset ↔ StandAt ['\n'] text.toList offset
  /-- What is outside of comments stands where it stood. -/
  kept : ∀ earlier piece later, pieces = earlier ++ piece :: later → piece.isComment = false →
    StandAt piece.chars text.toList (byteLength (charsOf earlier)) ∧
      StandAt piece.chars bare.toList (byteLength (charsOf earlier))
  /-- There is a blank for each byte of a comment. -/
  blank : ∀ earlier note later, pieces = earlier ++ .comment note :: later →
    StandAt (Piece.comment note).chars text.toList (byteLength (charsOf earlier)) ∧
      StandAt (List.replicate (byteLength (Piece.comment note).chars) ' ') bare.toList
        (byteLength (charsOf earlier))
  /-- Two slashes stand together in strings alone. -/
  slashes : ∀ before behind, bare.toList = before ++ '/' :: '/' :: behind →
    ∃ earlier quote content closing later front back,
      parts = earlier ++ .quoted quote content closing :: later ∧
        before = charsOf earlier ++ front ∧
        (Piece.quoted quote content closing).chars = front ++ '/' :: '/' :: back

theorem Divided.keepsLayout {text : String} (divided : Divided pieces text.toList) :
    KeepsLayout pieces text (pieces.flatMap Piece.left) (stripComments text) where
  size := by
    rw [stripComments, utf8ByteSize_ofList, byteLength_blankComments, ← utf8ByteSize_ofList,
      String.ofList_toList]
  lines offset := by
    rw [toList_stripComments]
    exact divided.standAt_line offset
  kept earlier piece later split outside := by
    subst split
    have stands := divided.standAt_blanked
    rwa [Piece.blanked_eq outside, ← toList_stripComments] at stands
  blank earlier note later split := by
    subst split
    rw [toList_stripComments]
    exact divided.standAt_blanked
  slashes before behind split := by
    have left := divided.left
    rw [← toList_stripComments] at left
    obtain ⟨earlier, piece, later, front, back, parts, before_, inside, closed⟩ :=
      left.slashes split
    cases piece with
    | code c => exact absurd rfl (closed c)
    | quoted quote content closing =>
        exact ⟨earlier, quote, content, closing, later, front, back, parts, before_, inside⟩
    | comment note =>
        have member : Piece.comment note ∈ pieces.flatMap Piece.left := by simp [parts]
        cases Piece.not_isComment_of_mem_left member

/-- Every text is divided in one way into strings, comments and what is outside of them, and so is
the text without its comments.  That one has the layout of the text, and is left as it is when its
comments are taken out again. -/
theorem stripComments_layout (text : String) :
    ∃ pieces parts, (Divided pieces text.toList ∧
        ∀ others, Divided others text.toList → others = pieces) ∧
      (Divided parts (stripComments text).toList ∧
        ∀ others, Divided others (stripComments text).toList → others = parts) ∧
      KeepsLayout pieces text parts (stripComments text) ∧
      stripComments (stripComments text) = stripComments text := by
  obtain ⟨pieces, divided⟩ := exists_divided text.toList
  have left := divided.left
  refine ⟨pieces, pieces.flatMap Piece.left, ⟨divided, fun _ => divided.unique⟩, ?_,
    divided.keepsLayout, ?_⟩
  · rw [toList_stripComments]
    exact ⟨left, fun _ => left.unique⟩
  · rw [stripComments, toList_stripComments, left.blankComments_of_bare fun _ =>
      Piece.not_isComment_of_mem_left]
    rfl

end EntityScript.Source
