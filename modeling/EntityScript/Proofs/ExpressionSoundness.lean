import EntityScript.Proofs.ExpressionRules
import EntityScript.Proofs.Spelling

/-!
What is read is spelled by the tokens that are taken for it.
-/

namespace EntityScript

open Source (Span)
open Phrase (Spelled)

/-- The tokens are those in front of the rest. -/
abbrev Takes (lexemes : List Lexeme) (tokens : List Token) (rest : List Lexeme) : Prop :=
  lexemes.map (·.token) = tokens ++ rest.map (·.token)

section Spelled

variable {finish : Span}

theorem Lexeme.token?_of_atom? {lexeme : Lexeme} {atom : Expr}
    (single : lexeme.atom? = some atom) : atom.token? = some lexeme.token := by
  unfold Lexeme.atom? at single
  split at single <;> cases single <;> simp only [Expr.token?, *]

theorem Token.operatorOf?_eq_some {tier : Nat} {token : Token} {op : BinaryOp} :
    token.operatorOf? tier = some op ↔ token = op.token ∧ op.tier = tier := by
  simp only [operatorOf?, Option.filter_eq_some_iff, decide_eq_true_eq]
  constructor
  · rintro ⟨found, tiered⟩
    exact ⟨Token.eq_of_binaryOp? found, tiered⟩
  · rintro ⟨rfl, tiered⟩
    exact ⟨op.binaryOp?_token, tiered⟩

mutual

theorem spelled_of_readTier {tier : Nat} {expr : Expr} {lexemes rest : List Lexeme}
    (reads : Reads (readTier finish tier lexemes) expr rest) :
    ∃ tokens, Takes lexemes tokens rest ∧ Spelled (.one (tier + 1) expr) tokens := by
  cases tier with
  | zero =>
      rw [readTier] at reads
      exact spelled_of_readUnary reads
  | succ tier =>
      obtain ⟨left, middle, first, further⟩ := reads_readTier_succ.mp reads
      have shorter := first.within
      obtain ⟨before, taken, spelled⟩ := spelled_of_readTier first
      obtain ⟨behind, taken', joined⟩ :=
        spelled_of_readOperands further (spelled.mono (Nat.le_succ _))
      exact ⟨before ++ behind, by simp [Takes, taken, taken'], joined⟩
termination_by 16 * lexemes.length + (3 + tier)
decreasing_by all_goals omega

theorem spelled_of_readOperands {tier : Nat} {left whole : Expr} {before : List Token}
    {lexemes rest : List Lexeme}
    (reads : Reads (readOperands finish tier left lexemes) whole rest)
    (spelled : Spelled (.one (tier + 2) left) before) :
    ∃ tokens, Takes lexemes tokens rest ∧
      Spelled (.one (tier + 2) whole) (before ++ tokens) := by
  cases joins : (nextToken lexemes).operatorOf? tier with
  | none =>
      obtain ⟨rfl, rfl⟩ := (reads_readOperands_of_none joins).mp reads
      exact ⟨[], by simp, by simpa using spelled⟩
  | some op =>
      obtain ⟨starts, rfl⟩ := Token.operatorOf?_eq_some.mp joins
      obtain ⟨next, more, same, found, shorter⟩ := cons_of_nextToken starts (by cases op <;> nofun)
      rw [same] at joins reads
      obtain ⟨right, middle, second, further⟩ := (reads_readOperands_of_some joins).mp reads
      have shorter' := second.within
      obtain ⟨between, taken, operand⟩ := spelled_of_readTier second
      obtain ⟨behind, taken', joined⟩ :=
        spelled_of_readOperands further (.binary (Nat.le_refl _) spelled operand)
      exact ⟨op.token :: between ++ behind, by simp [Takes, same, taken, taken', found],
        by simpa using joined⟩
termination_by 16 * lexemes.length + (3 + tier)
decreasing_by all_goals omega

theorem spelled_of_readUnary {expr : Expr} {lexemes rest : List Lexeme}
    (reads : Reads (readUnary finish lexemes) expr rest) :
    ∃ tokens, Takes lexemes tokens rest ∧ Spelled (.one 1 expr) tokens := by
  cases signed : (nextToken lexemes).unaryOp? with
  | none =>
      obtain ⟨tokens, taken, spelled⟩ :=
        spelled_of_readPostfix ((reads_readUnary_of_none signed).mp reads)
      exact ⟨tokens, taken, spelled.mono (Nat.zero_le 1)⟩
  | some op =>
      obtain ⟨next, more, same, found, shorter⟩ :=
        cons_of_nextToken (Token.eq_of_unaryOp? signed) (by cases op <;> nofun)
      rw [same] at signed reads
      obtain ⟨operand, inner, rfl⟩ := (reads_readUnary_of_some signed).mp reads
      obtain ⟨tokens, taken, spelled⟩ := spelled_of_readUnary inner
      exact ⟨op.token :: tokens, by simp [Takes, same, taken, found],
        .unary (Nat.le_refl 1) spelled⟩
termination_by 16 * lexemes.length + 2
decreasing_by all_goals omega

theorem spelled_of_readPostfix {expr : Expr} {lexemes rest : List Lexeme}
    (reads : Reads (readPostfix finish lexemes) expr rest) :
    ∃ tokens, Takes lexemes tokens rest ∧ Spelled (.one 0 expr) tokens := by
  obtain ⟨object, middle, first, further⟩ := reads_readPostfix.mp reads
  have shorter := first.within
  obtain ⟨before, taken, spelled⟩ := spelled_of_readPrimary first
  obtain ⟨behind, taken', accessed⟩ := spelled_of_readAccesses further spelled
  exact ⟨before ++ behind, by simp [Takes, taken, taken'], accessed⟩
termination_by 16 * lexemes.length + 1
decreasing_by all_goals omega

theorem spelled_of_readAccesses {object whole : Expr} {before : List Token}
    {lexemes rest : List Lexeme}
    (reads : Reads (readAccesses finish object lexemes) whole rest)
    (spelled : Spelled (.one 0 object) before) :
    ∃ tokens, Takes lexemes tokens rest ∧ Spelled (.one 0 whole) (before ++ tokens) := by
  by_cases next : nextToken lexemes = .dot
  · obtain ⟨dot, more, same, accesses, shorter⟩ := cons_of_nextToken next nofun
    rw [same] at reads
    obtain ⟨⟨word, position⟩, middle, named, cases⟩ := (reads_readAccesses_of_dot accesses).mp reads
    have shorter' := named.within
    obtain ⟨name, rfl, found, _⟩ := reads_requireName.mp named
    rcases cases with ⟨_, further⟩ |
      ⟨opening, inner, rfl, opens, arguments, behind, called, further⟩
    · obtain ⟨tokens, taken, accessed⟩ := spelled_of_readAccesses further (.field spelled)
      exact ⟨.dot :: .name word :: tokens, by simp [Takes, same, taken, found, accesses],
        by simpa using accessed⟩
    · have opened : inner.length < (opening :: inner).length := Nat.lt_succ_self _
      have listed := called.within
      obtain ⟨between, taken, listed⟩ := spelled_of_readArguments called
      obtain ⟨tokens, taken', accessed⟩ :=
        spelled_of_readAccesses further (.method spelled listed)
      exact ⟨.dot :: .name word :: grouped between ++ tokens,
        by simp [Takes, same, taken, taken', found, accesses, opens, grouped],
        by simpa using accessed⟩
  · obtain ⟨rfl, rfl⟩ := (reads_readAccesses_of_other next).mp reads
    exact ⟨[], by simp, by simpa using spelled⟩
termination_by 16 * lexemes.length + 0
decreasing_by all_goals omega

theorem spelled_of_readArguments {arguments : List Expr × Span} {lexemes rest : List Lexeme}
    (reads : Reads (readArguments finish lexemes) arguments rest) :
    ∃ tokens, Takes lexemes (tokens ++ [.rightParen]) rest ∧
      Spelled (.several arguments.1) tokens := by
  by_cases next : nextToken lexemes = .rightParen
  · obtain ⟨closing, more, same, closes, shorter⟩ := cons_of_nextToken next nofun
    rw [same] at reads
    obtain ⟨rfl, rfl⟩ := (reads_readArguments_of_closing closes).mp reads
    exact ⟨[], by simp [Takes, same, closes], .noArguments⟩
  · obtain ⟨first, more, tokens, listed, taken, spelled⟩ :=
      spelled_of_readArgumentList ((reads_readArguments_of_other next).mp reads)
    exact ⟨tokens, taken, listed ▸ spelled⟩
termination_by 16 * lexemes.length + 11
decreasing_by all_goals omega

theorem spelled_of_readArgumentList {arguments : List Expr × Span}
    {lexemes rest : List Lexeme}
    (reads : Reads (readArgumentList finish lexemes) arguments rest) :
    ∃ first more tokens, arguments.1 = first :: more ∧
      Takes lexemes (tokens ++ [.rightParen]) rest ∧ Spelled (.several (first :: more)) tokens := by
  obtain ⟨argument, middle, one, next, more, rfl, cases⟩ := reads_readArgumentList.mp reads
  have shorter := one.within
  have behind : more.length < (next :: more).length := Nat.lt_succ_self _
  obtain ⟨tokens, taken, spelled⟩ := spelled_of_readTier one
  rcases cases with ⟨closes, rfl, rfl⟩ | ⟨separated, ⟨further, closing⟩, others, rfl⟩
  · exact ⟨argument, [], tokens, rfl, by simp [Takes, taken, closes], .lastArgument spelled⟩
  · obtain ⟨second, rest, between, rfl, taken', listed⟩ := spelled_of_readArgumentList others
    exact ⟨argument, second :: rest, tokens ++ .comma :: between, rfl,
      by simp [Takes, taken, taken', separated], .moreArguments spelled listed⟩
termination_by 16 * lexemes.length + 10
decreasing_by all_goals (unfold tierCount at *; omega)

theorem spelled_of_readPrimary {expr : Expr} {lexemes rest : List Lexeme}
    (reads : Reads (readPrimary finish lexemes) expr rest) :
    ∃ tokens, Takes lexemes tokens rest ∧ Spelled (.one 0 expr) tokens := by
  obtain ⟨next, more, same, cases⟩ := reads_readPrimary.mp reads
  have shorter : more.length < lexemes.length := same ▸ Nat.lt_succ_self _
  rcases cases with ⟨single, rfl⟩ | ⟨opens, closing, grouped, closes⟩ | ⟨spawns, spawned⟩ |
    ⟨word, found, named⟩
  · exact ⟨[next.token], by simp [Takes, same], .single (Lexeme.token?_of_atom? single)⟩
  · obtain ⟨tokens, taken, spelled⟩ := spelled_of_readTier grouped
    exact ⟨_, by simp [Takes, same, EntityScript.grouped, opens, closes, taken], .group spelled⟩
  · obtain ⟨tokens, taken, spelled⟩ := spelled_of_readSpawn spawned
    exact ⟨_, by simp [Takes, same, spawns, taken], spelled⟩
  · obtain ⟨tokens, taken, spelled⟩ := spelled_of_readNamed named
    exact ⟨_, by simp [Takes, same, found, taken], spelled⟩
termination_by 16 * lexemes.length + 0
decreasing_by all_goals (unfold tierCount at *; omega)

theorem spelled_of_readSpawn {opener : Span} {expr : Expr} {lexemes rest : List Lexeme}
    (reads : Reads (readSpawn finish opener lexemes) expr rest) :
    ∃ tokens, Takes lexemes tokens rest ∧ Spelled (.one 0 expr) (.kwSpawn :: tokens) := by
  obtain ⟨_, middle, opened, ⟨type, _⟩, behind, named, next, more, rfl, cases⟩ :=
    reads_readSpawn.mp reads
  have shorter := opened.within
  have shorter' := named.within
  have inside : more.length < (next :: more).length := Nat.lt_succ_self _
  obtain ⟨opening, same, opens, _⟩ := reads_requireToken.mp opened
  obtain ⟨name, rfl, found, _⟩ := reads_requireName.mp named
  rcases cases with ⟨closes, rfl, rfl⟩ | ⟨separated, arguments, listed, rfl⟩
  · exact ⟨grouped [.name type], by simp [Takes, same, grouped, opens, found, closes], .spawn⟩
  · obtain ⟨between, taken, spelled⟩ := spelled_of_readArguments listed
    exact ⟨grouped (.name type :: .comma :: between),
      by simp [Takes, same, grouped, opens, found, separated, taken], .spawnWith spelled⟩
termination_by 16 * lexemes.length + 1
decreasing_by all_goals omega

theorem spelled_of_readNamed {word : String} {position : Span} {expr : Expr}
    {lexemes rest : List Lexeme}
    (reads : Reads (readNamed finish word position lexemes) expr rest) :
    ∃ tokens, Takes lexemes tokens rest ∧ Spelled (.one 0 expr) (.name word :: tokens) := by
  by_cases next : nextToken lexemes = .doubleColon
  · obtain ⟨colons, more, same, qualifies, shorter⟩ := cons_of_nextToken next nofun
    rw [same] at reads
    obtain ⟨⟨inner, _⟩, middle, named, cases⟩ :=
      (reads_readNamed_of_doubleColon qualifies).mp reads
    have shorter' := named.within
    obtain ⟨name, rfl, found, _⟩ := reads_requireName.mp named
    rcases cases with ⟨_, rfl, rfl⟩ | ⟨opening, list, rfl, opens, arguments, listed, rfl⟩
    · exact ⟨[.doubleColon, .name inner], by simp [Takes, same, qualifies, found], .member⟩
    · have opened : list.length < (opening :: list).length := Nat.lt_succ_self _
      obtain ⟨between, taken, spelled⟩ := spelled_of_readArguments listed
      exact ⟨.doubleColon :: .name inner :: grouped between,
        by simp [Takes, same, grouped, qualifies, found, opens, taken], .memberCall spelled⟩
  by_cases called : nextToken lexemes = .leftParen
  · obtain ⟨opening, more, same, opens, shorter⟩ := cons_of_nextToken called nofun
    rw [same] at reads
    obtain ⟨arguments, listed, rfl⟩ := (reads_readNamed_of_leftParen opens).mp reads
    obtain ⟨between, taken, spelled⟩ := spelled_of_readArguments listed
    exact ⟨grouped between, by simp [Takes, same, grouped, opens, taken], .call spelled⟩
  · obtain ⟨rfl, rfl⟩ := (reads_readNamed_of_other next called).mp reads
    exact ⟨[], by simp, .single rfl⟩
termination_by 16 * lexemes.length + 0
decreasing_by all_goals omega

end

end Spelled

end EntityScript
