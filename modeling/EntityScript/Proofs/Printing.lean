import EntityScript.Proofs.ExpressionCompleteness

/-!
Printing and reading are inverse to each other, for expressions and for the statements that
are made of them.
-/

namespace EntityScript

open Source (Span)
open Phrase (Spelled)

/-- The fields of a path as accesses to what it starts from, the last field first. -/
def PlaceRoot.access (root : PlaceRoot) (fields : List String) : Expr :=
  fields.foldr (fun name object => .field object name .none) root.toExpr

namespace Expr

theorem path?_eq_ok {root : PlaceRoot} (expr : Expr) {fields : List String} :
    expr.path? = .ok (root, fields) ↔ expr.bare = root.access fields := by
  cases expr with
  | field object name span =>
      have inner {fields : List String} : object.path? = .ok (root, fields) ↔
          object.bare = root.access fields := path?_eq_ok object
      cases fields with
      | nil =>
          refine iff_of_false ?_ (by cases root <;> simp [bare, PlaceRoot.access, PlaceRoot.toExpr])
          rw [path?]
          cases object.path? <;> simp [bind, Except.bind, pure, Except.pure]
      | cons last fields =>
          have accessed : root.access (last :: fields) = .field (root.access fields) last .none :=
            rfl
          rw [path?, bare, accessed, field.injEq, ← inner]
          cases object.path? <;> simp [bind, Except.bind, pure, Except.pure]
          grind
  | ident name span =>
      cases fields <;> cases root <;> simp [path?, bare, PlaceRoot.access, PlaceRoot.toExpr]
  | this span =>
      cases fields <;> cases root <;> simp [path?, bare, PlaceRoot.access, PlaceRoot.toExpr]
  | member library name arguments span =>
      cases arguments <;> cases fields <;> cases root <;>
        simp [path?, bare, PlaceRoot.access, PlaceRoot.toExpr]
  | _ =>
      cases fields <;> cases root <;> simp [path?, bare, PlaceRoot.access, PlaceRoot.toExpr]

theorem place?_eq_ok {expr : Expr} {place : Place} :
    expr.place? = .ok place ↔ expr.bare = place.toExpr := by
  obtain ⟨root, fields⟩ := place
  have path : expr.path? = .ok (root, fields.reverse) ↔ _ := path?_eq_ok expr
  rw [PlaceRoot.access, List.foldr_reverse] at path
  rw [place?, Place.toExpr, ← path]
  cases expr.path? with
  | error => simp
  | ok found =>
      obtain ⟨root', fields'⟩ := found
      simp [List.reverse_eq_iff]

end Expr

theorem Place.unresolved_toExpr (place : Place) : place.toExpr.unresolved = true := by
  obtain ⟨root, fields⟩ := place
  have accessed (object : Expr) (resolved : object.unresolved = true) :
      (fields.foldl (fun object name => .field object name .none) object).unresolved = true := by
    induction fields generalizing object with
    | nil => exact resolved
    | cons name fields inductionHypothesis => exact inductionHypothesis _ resolved
  exact accessed _ (by cases root <;> rfl)

theorem Place.bare_toExpr (place : Place) : place.toExpr.bare = place.toExpr := by
  obtain ⟨root, fields⟩ := place
  have accessed (object : Expr) (positionless : object.bare = object) :
      (fields.foldl (fun object name => Expr.field object name .none) object).bare =
        fields.foldl (fun object name => Expr.field object name .none) object := by
    induction fields generalizing object with
    | nil => exact positionless
    | cons name fields inductionHypothesis =>
        apply inductionHypothesis
        rw [Expr.bare, positionless]
  exact accessed _ (by cases root <;> rfl)

/-- The tokens are the statement, one that is read from a payload. -/
inductive Stmt.Spelled : Stmt → List Token → Prop where
  | define {keyword name value span tokens} : keyword = .kwLet ∨ keyword = .kwConst →
      Phrase.Spelled (.one loosest value) tokens →
      Stmt.Spelled (.define name value span) (keyword :: .name name :: .assign :: tokens)
  | assign {place op value span before behind} :
      Phrase.Spelled (.one loosest place.toExpr) before →
      Phrase.Spelled (.one loosest value) behind →
      Stmt.Spelled (.assign place op value span) (before ++ op.token :: behind)
  | expr {value tokens} : Phrase.Spelled (.one loosest value) tokens →
      Stmt.Spelled (.expr value) tokens

namespace Stmt

variable {finish : Span} {lexemes rest : List Lexeme} {stmt : Stmt}

theorem spelled_of_readStmt (reads : Reads (readStmt finish lexemes) stmt rest) :
    ∃ tokens, Takes lexemes tokens rest ∧ stmt.Spelled tokens := by
  by_cases defines : nextToken lexemes = .kwLet ∨ nextToken lexemes = .kwConst
  · obtain ⟨opener, more, rfl, opens⟩ : ∃ opener more, lexemes = opener :: more ∧
        (opener.token = .kwLet ∨ opener.token = .kwConst) := by
      cases lexemes with
      | nil => rcases defines with wrong | wrong <;> cases wrong
      | cons opener more => exact ⟨opener, more, rfl, defines⟩
    obtain ⟨⟨word, _⟩, _, named, _, _, signed, value, read, rfl⟩ :=
      reads_readDefinition.mp ((reads_readStmt_of_definition opens).mp reads)
    obtain ⟨name, rfl, found, _⟩ := reads_requireName.mp named
    obtain ⟨sign, rfl, assigns, _⟩ := reads_requireToken.mp signed
    obtain ⟨tokens, taken, spelled⟩ := spelled_of_readTier read
    exact ⟨_, by simp [Takes, found, assigns, taken], .define opens spelled⟩
  · obtain ⟨undefined, inconstant⟩ := not_or.mp defines
    obtain ⟨target, middle, read, cases⟩ :=
      reads_readAction.mp ((reads_readStmt_of_action undefined inconstant).mp reads)
    obtain ⟨tokens, taken, spelled⟩ := spelled_of_readTier read
    rcases cases with ⟨_, rfl, rfl⟩ |
      ⟨sign, more, op, rfl, assigns, place, placed, value, read', rfl⟩
    · exact ⟨tokens, taken, .expr spelled⟩
    · obtain ⟨behind, taken', spelled'⟩ := spelled_of_readTier read'
      have found : sign.token = op.token := Token.eq_of_assignOp? assigns
      have target : Phrase.Spelled (.one loosest place.toExpr) tokens :=
        Expr.place?_eq_ok.mp placed ▸ spelled.bare
      exact ⟨tokens ++ op.token :: behind, by simp [Takes, taken, taken', found],
        .assign target spelled'⟩

end Stmt

section Payloads

variable {payload : Span} {lexemes : List Lexeme}

theorem rest_eq_nil {rest : List Lexeme} {tokens : List Token}
    (endless : ∀ lexeme ∈ lexemes, lexeme.token ≠ .eof) (taken : Takes lexemes tokens rest)
    (done : nextToken rest = .eof) : rest = [] ∧ lexemes.map (·.token) = tokens := by
  cases rest with
  | nil => exact ⟨rfl, taken.trans (List.append_nil _)⟩
  | cons next more =>
      have member : Token.eof ∈ lexemes.map (·.token) := by
        rw [taken]
        simp [show next.token = .eof from done]
      obtain ⟨lexeme, among, ends⟩ := List.mem_map.mp member
      exact absurd ends (endless lexeme among)

theorem Expr.spelled_of_ofLexemes {expr : Expr}
    (endless : ∀ lexeme ∈ lexemes, lexeme.token ≠ .eof)
    (accepted : Expr.ofLexemes payload lexemes = .ok expr) :
    Spelled (.one loosest expr) (lexemes.map (·.token)) := by
  obtain ⟨rest, reads, done⟩ := exprOfLexemes_eq_ok.mp accepted
  obtain ⟨tokens, taken, spelled⟩ := spelled_of_readTier reads
  exact (rest_eq_nil endless taken done).2 ▸ spelled

theorem Stmt.spelled_of_ofLexemes {stmt : Stmt}
    (endless : ∀ lexeme ∈ lexemes, lexeme.token ≠ .eof)
    (accepted : Stmt.ofLexemes payload lexemes = .ok stmt) :
    stmt.Spelled (lexemes.map (·.token)) := by
  obtain ⟨rest, reads, done⟩ := stmtOfLexemes_eq_ok.mp accepted
  obtain ⟨tokens, taken, spelled⟩ := spelled_of_readStmt reads
  exact (rest_eq_nil endless taken done).2 ▸ spelled

theorem readTier_of_spelled (finish : Span) {expr : Expr} {tokens : List Token}
    {part : List Lexeme} (rest : List Lexeme) (spelled : Spelled (.one loosest expr) tokens)
    (lexed : part.map (·.token) = tokens)
    (stops : (nextToken rest).joins (loosest + 1) = false) :
    ∃ read, Reads (readTier finish tierCount (part ++ rest)) read rest ∧
      read.bare = expr.bare := by
  obtain ⟨read, bare, goes⟩ := @readFrom_of_spelled finish _ _ spelled _ lexed
  exact ⟨read, goes.reads stops, bare⟩

theorem Expr.ofLexemes_of_spelled {expr : Expr}
    (spelled : Spelled (.one loosest expr) (lexemes.map (·.token))) :
    ∃ read, Expr.ofLexemes payload lexemes = .ok read ∧ read.bare = expr.bare := by
  obtain ⟨read, reads, bare⟩ := readTier_of_spelled (endOf payload) []
    spelled rfl rfl
  rw [List.append_nil] at reads
  exact ⟨read, exprOfLexemes_eq_ok.mpr ⟨[], reads, rfl⟩, bare⟩

theorem starts_lexed (rest : List Lexeme) {expr : Expr} {tokens : List Token}
    {part : List Lexeme} (spelled : Spelled (.one loosest expr) tokens)
    (lexed : part.map (·.token) = tokens) :
    (nextToken (part ++ rest)).opensExpr = true := by
  obtain ⟨first, more, started, opens, _⟩ := spelled.starts
  obtain ⟨lexeme, more, rfl, rfl, _⟩ := List.map_eq_cons_iff.mp (lexed.trans started)
  exact opens

theorem reads_readStmt_of_opensExpr {finish : Span} {rest : List Lexeme} {stmt : Stmt}
    (opens : (nextToken lexemes).opensExpr = true) :
    Reads (readStmt finish lexemes) stmt rest ↔ Reads (readAction finish lexemes) stmt rest := by
  apply reads_readStmt_of_action
  · intro defines
    rw [defines] at opens
    cases opens
  · intro defines
    rw [defines] at opens
    cases opens

theorem Stmt.ofLexemes_define {name : String} {value : Expr} {tokens : List Token} {keyword : Token}
    (opens : keyword = .kwLet ∨ keyword = .kwConst)
    (spelled : Phrase.Spelled (.one loosest value) tokens)
    (lexed : lexemes.map (·.token) = keyword :: .name name :: .assign :: tokens) :
    ∃ read span, Stmt.ofLexemes payload lexemes = .ok (.define name read span) ∧
      read.bare = value.bare := by
  obtain ⟨opener, more, rfl, rfl, named⟩ := List.map_eq_cons_iff.mp lexed
  obtain ⟨word, more, rfl, found, signed⟩ := List.map_eq_cons_iff.mp named
  obtain ⟨sign, part, rfl, assigns, lexed'⟩ := List.map_eq_cons_iff.mp signed
  obtain ⟨read, reads, bare⟩ := readTier_of_spelled (endOf payload) []
    spelled lexed' rfl
  rw [List.append_nil] at reads
  refine ⟨read, opener.span.union read.span, stmtOfLexemes_eq_ok.mpr ⟨[], ?_, rfl⟩, bare⟩
  exact (reads_readStmt_of_definition opens).mpr (reads_readDefinition.mpr ⟨(name, word.span), _,
    reads_requireName.mpr ⟨word, rfl, found, rfl⟩, sign.span, _,
    reads_requireToken.mpr ⟨sign, rfl, assigns, rfl⟩, read, reads, rfl⟩)

theorem Stmt.ofLexemes_assign {place : Place} {op : AssignOp} {value : Expr}
    {before behind : List Token}
    (target : Phrase.Spelled (.one loosest place.toExpr) before)
    (spelled : Phrase.Spelled (.one loosest value) behind)
    (lexed : lexemes.map (·.token) = before ++ op.token :: behind) :
    ∃ read span, Stmt.ofLexemes payload lexemes = .ok (.assign place op read span) ∧
      read.bare = value.bare := by
  obtain ⟨part, more, rfl, lexed', signed⟩ := List.map_eq_append_iff.mp lexed
  obtain ⟨sign, part', rfl, found, lexed''⟩ := List.map_eq_cons_iff.mp signed
  have assigns : sign.token.assignOp? = some op := found ▸ op.assignOp?_token
  obtain ⟨object, reads, bare⟩ := readTier_of_spelled (endOf payload)
    (sign :: part') target lexed'
    (by rw [nextToken_cons, found]; exact Token.joins_assignment op)
  obtain ⟨read, reads', bare'⟩ := readTier_of_spelled (endOf payload) []
    spelled lexed'' rfl
  rw [List.append_nil] at reads'
  have placed : object.place? = .ok place :=
    Expr.place?_eq_ok.mpr (bare.trans place.bare_toExpr)
  refine ⟨read, object.span.union read.span, stmtOfLexemes_eq_ok.mpr ⟨[], ?_, rfl⟩, bare'⟩
  apply (reads_readStmt_of_opensExpr (starts_lexed _ target lexed')).mpr
  exact reads_readAction.mpr ⟨object, _, reads,
    .inr ⟨sign, part', op, rfl, assigns, place, placed, read, reads', rfl⟩⟩

theorem Stmt.ofLexemes_expr {value : Expr}
    (spelled : Phrase.Spelled (.one loosest value) (lexemes.map (·.token))) :
    ∃ read, Stmt.ofLexemes payload lexemes = .ok (.expr read) ∧ read.bare = value.bare := by
  obtain ⟨read, reads, bare⟩ := readTier_of_spelled (endOf payload) []
    spelled rfl rfl
  have opens := starts_lexed [] spelled rfl
  rw [List.append_nil] at reads opens
  refine ⟨read, stmtOfLexemes_eq_ok.mpr ⟨[], ?_, rfl⟩, bare⟩
  apply (reads_readStmt_of_opensExpr opens).mpr
  exact reads_readAction.mpr ⟨read, [], reads, .inl ⟨rfl, rfl, rfl⟩⟩

end Payloads

/-- Reading takes the printing of an expression or a statement back to it, and accepts nothing
that is not a spelling of what it returns: its printing and more parentheses. -/
theorem reading_inverts_printing :
    (∀ payload lexemes (expr : Expr), expr.unresolved = true →
      lexemes.map (·.token) = expr.print loosest →
      ∃ read, Expr.ofLexemes payload lexemes = .ok read ∧ read.bare = expr.bare) ∧
    (∀ payload lexemes expr, (∀ lexeme ∈ lexemes, lexeme.token ≠ .eof) →
      Expr.ofLexemes payload lexemes = .ok expr →
      Spelled (.one loosest expr) (lexemes.map (·.token)) ∧
        (expr.print loosest).Sublist (lexemes.map (·.token))) ∧
    (∀ payload lexemes (expr : Expr), Spelled (.one loosest expr) (lexemes.map (·.token)) →
      ∃ read, Expr.ofLexemes payload lexemes = .ok read ∧ read.bare = expr.bare) ∧
    (∀ payload lexemes name (value : Expr), value.unresolved = true →
      lexemes.map (·.token) = .kwLet :: .name name :: .assign :: value.print loosest →
      ∃ read span, Stmt.ofLexemes payload lexemes = .ok (.define name read span) ∧
        read.bare = value.bare) ∧
    (∀ payload lexemes (place : Place) (op : AssignOp) (value : Expr), value.unresolved = true →
      lexemes.map (·.token) = place.toExpr.print loosest ++ op.token :: value.print loosest →
      ∃ read span, Stmt.ofLexemes payload lexemes = .ok (.assign place op read span) ∧
        read.bare = value.bare) ∧
    (∀ payload lexemes (value : Expr), value.unresolved = true →
      lexemes.map (·.token) = value.print loosest →
      ∃ read, Stmt.ofLexemes payload lexemes = .ok (.expr read) ∧ read.bare = value.bare) ∧
    (∀ payload lexemes stmt, (∀ lexeme ∈ lexemes, lexeme.token ≠ .eof) →
      Stmt.ofLexemes payload lexemes = .ok stmt → stmt.Spelled (lexemes.map (·.token))) := by
  refine ⟨?printed, ?accepted, ?spelled, ?define, ?assign, ?expr, ?statement⟩
  case printed =>
    intro payload lexemes expr unresolved lexed
    exact Expr.ofLexemes_of_spelled (lexed ▸ Expr.spelled_print expr unresolved)
  case accepted =>
    intro payload lexemes expr endless accepted
    have spelled := Expr.spelled_of_ofLexemes endless accepted
    exact ⟨spelled, spelled.print_sublist⟩
  case spelled => exact fun payload lexemes expr => Expr.ofLexemes_of_spelled
  case define =>
    intro payload lexemes name value unresolved
    exact Stmt.ofLexemes_define (.inl rfl) (Expr.spelled_print value unresolved)
  case assign =>
    intro payload lexemes place op value unresolved
    exact Stmt.ofLexemes_assign (Expr.spelled_print _ place.unresolved_toExpr)
      (Expr.spelled_print value unresolved)
  case expr =>
    intro payload lexemes value unresolved lexed
    exact Stmt.ofLexemes_expr (lexed ▸ Expr.spelled_print value unresolved)
  case statement => exact fun payload lexemes stmt => Stmt.spelled_of_ofLexemes

/-- The product `(a + b) * -this.c`. -/
def signedProduct : Expr :=
  .binary .mul (.binary .add (.ident "a" .none) (.ident "b" .none) .none)
    (.unary .neg (.field (.this .none) "c" .none) .none) .none

theorem signedProduct_read_back :
    (∃ read, Expr.ofLexemes .none ((signedProduct.print loosest).map (⟨·, .none⟩)) = .ok read ∧
      read.bare = signedProduct ∧
      Spelled (.one loosest read) [.leftParen, .name "a", .plus, .name "b", .rightParen, .star,
        .minus, .kwThis, .dot, .name "c"]) ∧
    (∃ read span, Stmt.ofLexemes .none
        ((Token.kwThis :: .dot :: .name "x" :: .plusAssign :: signedProduct.print loosest).map
          (⟨·, .none⟩)) = .ok (.assign ⟨.this, ["x"]⟩ .add read span) ∧
      read.bare = signedProduct) := by
  constructor
  · obtain ⟨read, accepted, bare⟩ := reading_inverts_printing.1 .none
      ((signedProduct.print loosest).map (⟨·, .none⟩)) signedProduct rfl rfl
    exact ⟨read, accepted, bare, (reading_inverts_printing.2.1 _ _ read (by decide) accepted).1⟩
  · exact reading_inverts_printing.2.2.2.2.1 .none _ ⟨.this, ["x"]⟩ .add signedProduct rfl rfl

end EntityScript
