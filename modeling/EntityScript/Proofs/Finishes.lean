import EntityScript.Proofs.Reads
import EntityScript.Stmt.Reader

/-!
Where a payload ends matters to problems only: what is read of its lexemes as an expression or a
statement is the same wherever the end is said to be.
-/

namespace EntityScript

open Source (Span)

section Carries

variable {α β : Type}

/-- What the first reading succeeds with, the second one does as well. -/
def Carries (first second : Reading α) : Prop := ∀ value, first = .ok value → second = .ok value

theorem Carries.refl (reading : Reading α) : Carries reading reading := fun _ same => same

theorem Carries.malformed {finish : Span} {problem : ExpressionProblem} {lexemes : List Lexeme}
    (second : Reading α) : Carries (malformed finish problem lexemes) second := nofun

theorem Carries.bind {first second : Reading β} {next next' : β → Reading α}
    (carries : Carries first second) (later : ∀ value, Carries (next value) (next' value)) :
    Carries (first >>= next) (second >>= next') := by
  intro result reads
  obtain ⟨value, same, done⟩ := bind_eq_ok.mp reads
  exact bind_eq_ok.mpr ⟨value, carries value same, later value result done⟩

theorem Carries.map {first second : Reading β} {change : β → α} (carries : Carries first second) :
    Carries (change <$> first) (change <$> second) := by
  intro result reads
  obtain ⟨value, same, changed⟩ := map_eq_ok.mp reads
  exact map_eq_ok.mpr ⟨value, carries value same, changed⟩

end Carries

section Expressions

variable (finish finish' : Span)

theorem carries_requireToken (wanted : Token) (lexemes : List Lexeme) :
    Carries (requireToken finish wanted lexemes) (requireToken finish' wanted lexemes) := by
  unfold requireToken
  split
  · split
    · exact .refl _
    · exact .malformed _
  · exact .malformed _

theorem carries_requireName (lexemes : List Lexeme) :
    Carries (requireName finish lexemes) (requireName finish' lexemes) := by
  unfold requireName
  split
  · split
    · exact .refl _
    · exact .malformed _
  · exact .malformed _

mutual

theorem carries_readTier (tier : Nat) (lexemes : List Lexeme) :
    Carries (readTier finish tier lexemes) (readTier finish' tier lexemes) := by
  cases tier with
  | zero =>
      rw [readTier, readTier]
      exact carries_readUnary lexemes
  | succ tier =>
      rw [readTier, readTier]
      apply (carries_readTier tier lexemes).bind
      rintro ⟨left, middle, shorter⟩
      apply (carries_readOperands tier left middle).bind
      exact fun _ => .refl _
termination_by 16 * lexemes.length + (3 + tier)
decreasing_by all_goals omega

theorem carries_readOperands (tier : Nat) (left : Expr) (lexemes : List Lexeme) :
    Carries (readOperands finish tier left lexemes) (readOperands finish' tier left lexemes) := by
  cases lexemes with
  | nil =>
      rw [readOperands, readOperands]
      exact .refl _
  | cons next rest =>
      rw [readOperands, readOperands]
      split
      · exact .refl _
      · apply (carries_readTier tier rest).bind
        rintro ⟨right, middle, shorter⟩
        apply (carries_readOperands tier _ middle).bind
        exact fun _ => .refl _
termination_by 16 * lexemes.length + (3 + tier)
decreasing_by all_goals (rw [List.length_cons]; omega)

theorem carries_readUnary (lexemes : List Lexeme) :
    Carries (readUnary finish lexemes) (readUnary finish' lexemes) := by
  cases lexemes with
  | nil =>
      rw [readUnary, readUnary]
      exact carries_readPostfix []
  | cons next rest =>
      rw [readUnary, readUnary]
      split
      · exact carries_readPostfix (next :: rest)
      · apply (carries_readUnary rest).bind
        exact fun _ => .refl _
termination_by 16 * lexemes.length + 2
decreasing_by all_goals (simp only [List.length_cons, List.length_nil]; omega)

theorem carries_readPostfix (lexemes : List Lexeme) :
    Carries (readPostfix finish lexemes) (readPostfix finish' lexemes) := by
  rw [readPostfix, readPostfix]
  apply (carries_readPrimary lexemes).bind
  rintro ⟨object, middle, shorter⟩
  apply (carries_readAccesses object middle).bind
  exact fun _ => .refl _
termination_by 16 * lexemes.length + 1
decreasing_by all_goals omega

theorem carries_readAccesses (object : Expr) (lexemes : List Lexeme) :
    Carries (readAccesses finish object lexemes) (readAccesses finish' object lexemes) := by
  cases lexemes with
  | nil =>
      rw [readAccesses, readAccesses]
      exact .refl _
  | cons next rest =>
      rw [readAccesses, readAccesses]
      split
      · apply (carries_requireName finish finish' rest).bind
        rintro ⟨name, middle, shorter⟩
        dsimp only
        split
        · apply (carries_readAccesses _ middle).bind
          exact fun _ => .refl _
        · next opening _ =>
          have opened := opening.within
          apply (carries_readArguments opening.rest).bind
          rintro ⟨arguments, behind, listed⟩
          apply (carries_readAccesses _ behind).bind
          exact fun _ => .refl _
      · exact .refl _
termination_by 16 * lexemes.length + 0
decreasing_by all_goals (rw [List.length_cons]; omega)

theorem carries_readArguments (lexemes : List Lexeme) :
    Carries (readArguments finish lexemes) (readArguments finish' lexemes) := by
  cases lexemes with
  | nil =>
      rw [readArguments, readArguments]
      exact carries_readArgumentList []
  | cons next rest =>
      rw [readArguments, readArguments]
      split
      · exact .refl _
      · exact carries_readArgumentList (next :: rest)
termination_by 16 * lexemes.length + 11
decreasing_by all_goals omega

theorem carries_readArgumentList (lexemes : List Lexeme) :
    Carries (readArgumentList finish lexemes) (readArgumentList finish' lexemes) := by
  rw [readArgumentList, readArgumentList]
  apply (carries_readTier tierCount lexemes).bind
  rintro ⟨argument, middle, shorter⟩
  split
  · exact .malformed _
  · next next _ =>
    have separated := next.within
    split
    · apply (carries_readArgumentList next.rest).bind
      exact fun _ => .refl _
    · exact .refl _
    · exact .malformed _
termination_by 16 * lexemes.length + 10
decreasing_by all_goals (try unfold tierCount); omega

theorem carries_readPrimary (lexemes : List Lexeme) :
    Carries (readPrimary finish lexemes) (readPrimary finish' lexemes) := by
  cases lexemes with
  | nil =>
      rw [readPrimary]
      exact .malformed _
  | cons next rest =>
      rw [readPrimary, readPrimary]
      split
      · exact .refl _
      · split
        · apply (carries_readTier tierCount rest).bind
          intro inner
          apply (carries_requireToken finish finish' .rightParen inner.rest).bind
          exact fun _ => .refl _
        · exact carries_readSpawn next.span rest
        · exact carries_readNamed _ next.span rest
        · exact .malformed _
termination_by 16 * lexemes.length + 0
decreasing_by all_goals simp only [tierCount, List.length_cons]; omega

theorem carries_readSpawn (opener : Span) (lexemes : List Lexeme) :
    Carries (readSpawn finish opener lexemes) (readSpawn finish' opener lexemes) := by
  rw [readSpawn, readSpawn]
  apply (carries_requireToken finish finish' .leftParen lexemes).bind
  rintro ⟨opening, middle, shorter⟩
  apply (carries_requireName finish finish' middle).bind
  rintro ⟨name, behind, shorter'⟩
  dsimp only
  split
  · next separator _ =>
    have separated := separator.within
    apply (carries_readArguments separator.rest).bind
    exact fun _ => .refl _
  · apply (carries_requireToken finish finish' .rightParen behind).bind
    exact fun _ => .refl _
termination_by 16 * lexemes.length + 1
decreasing_by all_goals omega

theorem carries_readNamed (word : String) (position : Span) (lexemes : List Lexeme) :
    Carries (readNamed finish word position lexemes)
      (readNamed finish' word position lexemes) := by
  cases lexemes with
  | nil =>
      rw [readNamed, readNamed]
      exact .refl _
  | cons next rest =>
      rw [readNamed, readNamed]
      split
      · apply (carries_requireName finish finish' rest).bind
        rintro ⟨name, middle, shorter⟩
        dsimp only
        split
        · next opening _ =>
          have opened := opening.within
          apply (carries_readArguments opening.rest).bind
          exact fun _ => .refl _
        · exact .refl _
      · apply (carries_readArguments rest).bind
        exact fun _ => .refl _
      · exact .refl _
termination_by 16 * lexemes.length + 0
decreasing_by all_goals (rw [List.length_cons]; omega)

end

theorem carries_requireDone (lexemes : List Lexeme) :
    Carries (requireDone finish lexemes) (requireDone finish' lexemes) := by
  unfold requireDone
  split
  · exact .refl _
  · split
    · exact .refl _
    · exact .malformed _

end Expressions

variable (payload payload' : Span) (lexemes : List Lexeme)

theorem Expr.carries_ofLexemes :
    Carries (Expr.ofLexemes payload lexemes) (Expr.ofLexemes payload' lexemes) := by
  apply (carries_readTier _ _ tierCount lexemes).bind
  intro expr
  apply (carries_requireDone _ _ expr.rest).bind
  exact fun _ => .refl _

section Statements

variable (finish finish' : Span)

theorem carries_readDefinition (opener : Span) :
    Carries (readDefinition finish opener lexemes) (readDefinition finish' opener lexemes) := by
  apply (carries_requireName finish finish' lexemes).bind
  intro name
  apply (carries_requireToken finish finish' .assign name.rest).bind
  intro sign
  apply (carries_readTier finish finish' tierCount sign.rest).bind
  exact fun _ => .refl _

theorem carries_readAction :
    Carries (readAction finish lexemes) (readAction finish' lexemes) := by
  apply (carries_readTier finish finish' tierCount lexemes).bind
  intro target
  split
  · exact .refl _
  · next next _ =>
    split
    · exact .refl _
    · apply (Carries.refl target.value.place?).bind
      intro place
      apply (carries_readTier finish finish' tierCount next.rest).bind
      exact fun _ => .refl _

theorem carries_readStmt : Carries (readStmt finish lexemes) (readStmt finish' lexemes) := by
  unfold readStmt
  split
  · exact carries_readAction [] finish finish'
  · next next rest =>
    split
    · exact (carries_readDefinition rest finish finish' next.span).bind fun _ => .refl _
    · exact carries_readAction (next :: rest) finish finish'

end Statements

theorem Stmt.carries_ofLexemes :
    Carries (Stmt.ofLexemes payload lexemes) (Stmt.ofLexemes payload' lexemes) := by
  apply (carries_readStmt lexemes _ _).bind
  intro stmt
  apply (carries_requireDone _ _ stmt.rest).bind
  exact fun _ => .refl _

end EntityScript
