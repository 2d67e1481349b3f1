import EntityScript.Proofs.Closed
import EntityScript.Proofs.Places
import EntityScript.Stmt.Reader

/-!
Where the problems are that the readers of expressions and statements find: at a lexeme, or where
the lexemes are at their end.  What they read has spans of the text that the lexemes are from.
-/

namespace EntityScript

open Source

mutual

/-- The expression and all in it have spans of the text. -/
def Expr.Placed (text : String) : Expr → Prop
  | .number _ span | .text _ span | .bool _ span | .unset span | .this span | .ident _ span =>
      Marks text span
  | .binary _ left right span => Marks text span ∧ left.Placed text ∧ right.Placed text
  | .unary _ operand span => Marks text span ∧ operand.Placed text
  | .field object _ span => Marks text span ∧ object.Placed text
  | .method object _ arguments span =>
      Marks text span ∧ object.Placed text ∧ AllPlaced text arguments
  | .spawn _ arguments span | .call _ arguments span => Marks text span ∧ AllPlaced text arguments
  | .member _ _ none span => Marks text span
  | .member _ _ (some arguments) span => Marks text span ∧ AllPlaced text arguments
  | .builtin _ arguments span | .global _ arguments span =>
      Marks text span ∧ AllPlaced text arguments

def AllPlaced (text : String) : List Expr → Prop
  | [] => True
  | expr :: rest => expr.Placed text ∧ AllPlaced text rest

end

variable {text : String} {finish : Span} {lexeme : Lexeme} {lexemes rest : List Lexeme}

theorem Expr.Placed.span {expr : Expr} (placed : expr.Placed text) : Marks text expr.span := by
  cases expr with
  | member _ _ arguments _ =>
      cases arguments with
      | none => exact placed
      | some => exact placed.1
  | number | text | bool | unset | this | ident => exact placed
  | _ => exact placed.1

/-- The lexemes are from the text. -/
def Marked (text : String) (lexemes : List Lexeme) : Prop :=
  ∀ lexeme ∈ lexemes, Marks text lexeme.span

theorem marked_cons :
    Marked text (lexeme :: lexemes) ↔ Marks text lexeme.span ∧ Marked text lexemes :=
  List.forall_mem_cons

theorem Marked.next? {α : Type} {bound : Nat} {remaining : Remaining Lexeme (bound + 1) α}
    {found : Remaining Lexeme bound Lexeme} {p : Remaining Lexeme bound Lexeme → Bool}
    (marked : Marked text remaining.rest) (next : remaining.next?.filter p = some found) :
    Marked text found.rest := by
  obtain ⟨value, lexemes, within⟩ := remaining
  cases lexemes with
  | nil => cases next
  | cons lexeme rest =>
      cases (Option.filter_eq_some_iff.mp next).1
      exact (marked_cons.mp marked).2

/-- The problem is one of an expression; it is in the text, or where the expression breaks off. -/
def Near (text : String) (finish : Span) (diagnostic : Diagnostic) : Prop :=
  diagnostic.stage = .expression ∧ (Marks text diagnostic.span ∨ diagnostic.span = finish)

/-- A problem is where it may be; otherwise what was read is as it should be, and the rest is from
the text. -/
abbrev Locates {α : Type} {bound : Nat} (text : String) (finish : Span) (good : α → Prop) :
    Reading (Remaining Lexeme bound α) → Prop :=
  Meets (Near text finish) fun remaining => good remaining.value ∧ Marked text remaining.rest

theorem near_malformed {α : Type} {good : α → Prop} {problem : ExpressionProblem}
    (marked : Marked text lexemes) :
    Meets (Near text finish) good (malformed finish problem lexemes) := by
  cases lexemes with
  | nil => exact ⟨rfl, .inr rfl⟩
  | cons lexeme rest => exact ⟨rfl, .inl (marked_cons.mp marked).1⟩

section Expressions

theorem locates_requireToken {wanted : Token} (marked : Marked text lexemes) :
    Locates text finish (Marks text) (requireToken finish wanted lexemes) := by
  cases lexemes with
  | nil => exact near_malformed marked
  | cons lexeme rest =>
      rw [requireToken]
      split
      next => exact marked_cons.mp marked
      next => exact near_malformed marked

theorem locates_requireName (marked : Marked text lexemes) :
    Locates text finish (Marks text ·.2) (requireName finish lexemes) := by
  cases lexemes with
  | nil => exact near_malformed marked
  | cons lexeme rest =>
      rw [requireName]
      split
      next => exact marked_cons.mp marked
      next => exact near_malformed marked

theorem Lexeme.placed_of_atom? {atom : Expr} (single : lexeme.atom? = some atom)
    (marks : Marks text lexeme.span) : atom.Placed text := by
  unfold Lexeme.atom? at single
  split at single <;> cases single <;> exact marks

mutual

theorem locates_readTier {tier : Nat} {lexemes : List Lexeme} (marked : Marked text lexemes) :
    Locates text finish (Expr.Placed text) (readTier finish tier lexemes) := by
  cases tier with
  | zero =>
      rw [readTier]
      exact locates_readUnary marked
  | succ tier =>
      rw [readTier]
      refine (locates_readTier marked).bind fun left first => ?_
      have shorter := left.within
      exact (locates_readOperands first.1 first.2).bind fun whole joined => joined
termination_by 16 * lexemes.length + (3 + tier)
decreasing_by all_goals omega

theorem locates_readOperands {tier : Nat} {left : Expr} {lexemes : List Lexeme}
    (placed : left.Placed text) (marked : Marked text lexemes) :
    Locates text finish (Expr.Placed text) (readOperands finish tier left lexemes) := by
  cases lexemes with
  | nil =>
      rw [readOperands]
      exact ⟨placed, marked⟩
  | cons next rest =>
      rw [readOperands]
      split
      next => exact ⟨placed, marked⟩
      next =>
        refine (locates_readTier (marked_cons.mp marked).2).bind fun right second => ?_
        have shorter := right.within
        refine (locates_readOperands ?_ second.2).bind fun whole joined => joined
        exact ⟨placed.span.union second.1.span, placed, second.1⟩
termination_by 16 * lexemes.length + (3 + tier)
decreasing_by all_goals subst_vars; simp only [List.length_cons]; omega

theorem locates_readUnary {lexemes : List Lexeme} (marked : Marked text lexemes) :
    Locates text finish (Expr.Placed text) (readUnary finish lexemes) := by
  cases lexemes with
  | nil =>
      rw [readUnary]
      exact locates_readPostfix marked
  | cons next rest =>
      rw [readUnary]
      obtain ⟨marks, further⟩ := marked_cons.mp marked
      split
      next => exact locates_readPostfix marked
      next =>
        exact (locates_readUnary further).bind fun operand inner =>
          ⟨⟨marks.union inner.1.span, inner.1⟩, inner.2⟩
termination_by 16 * lexemes.length + 2
decreasing_by all_goals subst_vars; first | omega | simp only [List.length_cons]; omega

theorem locates_readPostfix {lexemes : List Lexeme} (marked : Marked text lexemes) :
    Locates text finish (Expr.Placed text) (readPostfix finish lexemes) := by
  rw [readPostfix]
  refine (locates_readPrimary marked).bind fun object first => ?_
  have shorter := object.within
  exact (locates_readAccesses first.1 first.2).bind fun whole accessed => accessed
termination_by 16 * lexemes.length + 1
decreasing_by all_goals omega

theorem locates_readAccesses {object : Expr} {lexemes : List Lexeme} (placed : object.Placed text)
    (marked : Marked text lexemes) :
    Locates text finish (Expr.Placed text) (readAccesses finish object lexemes) := by
  cases lexemes with
  | nil =>
      rw [readAccesses]
      exact ⟨placed, marked⟩
  | cons next rest =>
      rw [readAccesses]
      split
      next =>
        refine (locates_requireName (marked_cons.mp marked).2).bind fun name named => ?_
        have shorter := name.within
        have union := placed.span.union named.1
        dsimp only
        split
        next =>
          refine (locates_readAccesses ?_ named.2).bind fun whole accessed => accessed
          exact ⟨union, placed⟩
        next opening opens =>
          have further : Marked text opening.rest := Marked.next? named.2 opens
          have shorter' := opening.within
          refine (locates_readArguments further).bind fun arguments listed => ?_
          have shorter'' := arguments.within
          refine (locates_readAccesses ?_ listed.2).bind fun whole accessed => accessed
          exact ⟨union, placed, listed.1.1⟩
      next => exact ⟨placed, marked⟩
termination_by 16 * lexemes.length + 0
decreasing_by all_goals subst_vars; simp only [List.length_cons]; omega

theorem locates_readArguments {lexemes : List Lexeme} (marked : Marked text lexemes) :
    Locates text finish (fun arguments => AllPlaced text arguments.1 ∧ Marks text arguments.2)
      (readArguments finish lexemes) := by
  cases lexemes with
  | nil =>
      rw [readArguments]
      exact locates_readArgumentList marked
  | cons next rest =>
      rw [readArguments]
      obtain ⟨marks, further⟩ := marked_cons.mp marked
      split
      next => exact ⟨⟨trivial, marks⟩, further⟩
      next => exact locates_readArgumentList marked
termination_by 16 * lexemes.length + 11
decreasing_by all_goals subst_vars; omega

theorem locates_readArgumentList {lexemes : List Lexeme} (marked : Marked text lexemes) :
    Locates text finish (fun arguments => AllPlaced text arguments.1 ∧ Marks text arguments.2)
      (readArgumentList finish lexemes) := by
  rw [readArgumentList]
  refine (locates_readTier marked).bind fun argument first => ?_
  have shorter := argument.within
  obtain ⟨value, rest, within⟩ := argument
  cases rest with
  | nil => exact near_malformed first.2
  | cons next behind =>
      obtain ⟨marks, further⟩ := marked_cons.mp first.2
      simp only [Remaining.relax, Remaining.next?]
      split
      next =>
        exact (locates_readArgumentList further).bind fun more listed =>
          ⟨⟨⟨first.1, listed.1.1⟩, listed.1.2⟩, listed.2⟩
      next => exact ⟨⟨⟨first.1, trivial⟩, marks⟩, further⟩
      next => exact near_malformed first.2
termination_by 16 * lexemes.length + 10
decreasing_by
  · rw [tierCount]; omega
  · rw [List.length_cons] at within; omega

theorem locates_readPrimary {lexemes : List Lexeme} (marked : Marked text lexemes) :
    Locates text finish (Expr.Placed text) (readPrimary finish lexemes) := by
  cases lexemes with
  | nil =>
      rw [readPrimary]
      exact near_malformed marked
  | cons next rest =>
      rw [readPrimary]
      obtain ⟨marks, further⟩ := marked_cons.mp marked
      split
      next single => exact ⟨Lexeme.placed_of_atom? single marks, further⟩
      next =>
        split
        next =>
          refine (locates_readTier further).bind fun inner first => ?_
          exact (locates_requireToken first.2).bind fun closing closes => ⟨first.1, closes.2⟩
        next => exact locates_readSpawn marks further
        next => exact locates_readNamed marks further
        next => exact near_malformed marked
termination_by 16 * lexemes.length + 0
decreasing_by all_goals subst_vars; simp only [List.length_cons, tierCount]; omega

theorem locates_readSpawn {opener : Span} {lexemes : List Lexeme} (marks : Marks text opener)
    (marked : Marked text lexemes) :
    Locates text finish (Expr.Placed text) (readSpawn finish opener lexemes) := by
  rw [readSpawn]
  refine (locates_requireToken marked).bind fun opening opens => ?_
  refine (locates_requireName opens.2).bind fun name named => ?_
  have shorter := opening.within
  have shorter' := name.within
  dsimp only
  split
  next separator separates =>
    have further : Marked text separator.rest := Marked.next? named.2 separates
    have shorter'' := separator.within
    exact (locates_readArguments further).bind fun arguments listed =>
      ⟨⟨marks.union listed.1.2, listed.1.1⟩, listed.2⟩
  next =>
    exact (locates_requireToken named.2).bind fun closing closes =>
      ⟨⟨marks.union closes.1, trivial⟩, closes.2⟩
termination_by 16 * lexemes.length + 1
decreasing_by all_goals omega

theorem locates_readNamed {word : String} {position : Span} {lexemes : List Lexeme}
    (marks : Marks text position) (marked : Marked text lexemes) :
    Locates text finish (Expr.Placed text) (readNamed finish word position lexemes) := by
  cases lexemes with
  | nil =>
      rw [readNamed]
      exact ⟨marks, marked⟩
  | cons next rest =>
      rw [readNamed]
      have further := (marked_cons.mp marked).2
      split
      next =>
        refine (locates_requireName further).bind fun name named => ?_
        dsimp only
        split
        next opening opens =>
          have further : Marked text opening.rest := Marked.next? named.2 opens
          have shorter := opening.within
          exact (locates_readArguments further).bind fun arguments listed =>
            ⟨⟨marks.union listed.1.2, listed.1.1⟩, listed.2⟩
        next => exact ⟨marks.union named.1, named.2⟩
      next =>
        exact (locates_readArguments further).bind fun arguments listed =>
          ⟨⟨marks.union listed.1.2, listed.1.1⟩, listed.2⟩
      next => exact ⟨marks, marked⟩
termination_by 16 * lexemes.length + 0
decreasing_by all_goals subst_vars; simp only [List.length_cons]; omega

end

end Expressions

section Statements

/-- The value of the statement, and of what is in it, has spans of the text. -/
noncomputable def placed (text : String) (expr : Expr) : Bool :=
  open Classical in decide (expr.Placed text)

theorem placed_iff {expr : Expr} : placed text expr = true ↔ expr.Placed text := by
  simp [placed]

/-- The part of an expression that is no place is in the text. -/
theorem Expr.placed_of_path? (expr : Expr) {other : Expr} (placed : expr.Placed text)
    (path : expr.path? = .error other) : other.Placed text := by
  cases expr with
  | field object name span =>
      rw [Expr.path?] at path
      cases inner : object.path? with
      | error part =>
          rw [inner] at path
          cases path
          exact object.placed_of_path? placed.2 inner
      | ok found =>
          rw [inner] at path
          cases path
  | ident | this => cases path
  | _ =>
      cases path
      exact placed

theorem meets_place? {expr : Expr} (placed : expr.Placed text) :
    Meets (Near text finish) (fun _ => True) expr.place? := by
  unfold Expr.place?
  split
  next => trivial
  next other path => exact ⟨rfl, .inl (expr.placed_of_path? placed path).span⟩

theorem locates_readDefinition {opener : Span} (marked : Marked text lexemes) :
    Locates text finish (·.every (placed text) = true) (readDefinition finish opener lexemes) := by
  rw [readDefinition]
  refine (locates_requireName marked).bind fun name named => ?_
  refine (locates_requireToken named.2).bind fun sign assigns => ?_
  exact (locates_readTier assigns.2).bind fun value inner => ⟨placed_iff.mpr inner.1, inner.2⟩

theorem locates_readAction (marked : Marked text lexemes) :
    Locates text finish (·.every (placed text) = true) (readAction finish lexemes) := by
  rw [readAction]
  refine (locates_readTier marked).bind fun target first => ?_
  obtain ⟨value, rest, within⟩ := target
  have target : value.Placed text := first.1
  cases rest with
  | nil => exact ⟨placed_iff.mpr target, first.2⟩
  | cons next behind =>
      simp only [Remaining.relax, Remaining.next?]
      split
      next => exact ⟨placed_iff.mpr target, first.2⟩
      next op =>
        refine (meets_place? target).bind fun place _ => ?_
        exact (locates_readTier (marked_cons.mp first.2).2).bind fun value inner =>
          ⟨placed_iff.mpr inner.1, inner.2⟩

theorem locates_readStmt (marked : Marked text lexemes) :
    Locates text finish (·.every (placed text) = true) (readStmt finish lexemes) := by
  cases lexemes with
  | nil =>
      rw [readStmt]
      exact locates_readAction marked
  | cons next rest =>
      rw [readStmt]
      split
      next =>
        exact (locates_readDefinition (marked_cons.mp marked).2).bind fun stmt inner => inner
      next => exact locates_readAction marked

theorem meets_requireDone (marked : Marked text lexemes) :
    Meets (Near text finish) (fun _ => True) (requireDone finish lexemes) := by
  cases lexemes with
  | nil => trivial
  | cons lexeme rest =>
      rw [requireDone]
      split
      next => trivial
      next => exact near_malformed marked

theorem meets_exprOfLexemes {payload : Span} (marked : Marked text lexemes) :
    Meets (Near text (endOf payload)) (placed text · = true) (Expr.ofLexemes payload lexemes) := by
  rw [Expr.ofLexemes]
  refine (locates_readTier marked).bind fun expr read => ?_
  exact (meets_requireDone read.2).bind fun _ _ => placed_iff.mpr read.1

theorem meets_stmtOfLexemes {payload : Span} (marked : Marked text lexemes) :
    Meets (Near text (endOf payload)) (·.every (placed text) = true)
      (Stmt.ofLexemes payload lexemes) := by
  rw [Stmt.ofLexemes]
  refine (locates_readStmt marked).bind fun stmt read => ?_
  exact (meets_requireDone read.2).bind fun _ _ => read.1

end Statements

end EntityScript
