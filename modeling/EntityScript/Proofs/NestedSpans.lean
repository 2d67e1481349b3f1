import EntityScript.Proofs.References
import EntityScript.Proofs.StatementEnds

/-!
How the spans of an expression lie in each other.  The span of an expression covers what it
consists of, with one exception: that of a method call ends with the name of the method, and the
arguments lie behind it.
-/

namespace EntityScript

open Source

/-! ### Nodes and their children -/

def Source.Span.ordered (span : Span) : Bool := span.start ≤ span.stop

def Source.Span.covers (outer inner : Span) : Bool :=
  outer.start ≤ inner.start && inner.stop ≤ outer.stop

namespace Expr

def children : Expr → List Expr
  | .number .. | .text .. | .bool .. | .unset _ | .this _ | .ident .. | .member _ _ none _ => []
  | .binary _ left right _ => [left, right]
  | .unary _ operand _ => [operand]
  | .field object _ _ => [object]
  | .method object _ arguments _ => object :: arguments
  | .spawn _ arguments _ | .call _ arguments _ | .member _ _ (some arguments) _
  | .builtin _ arguments _ | .global _ arguments _ => arguments

/-- Whether the span is in order and covers those of all children. -/
def covers (expr : Expr) : Bool :=
  expr.span.ordered && expr.children.all (expr.span.covers ·.span)

/-- Whether the span is in order and covers those of all children, but for the arguments of a
method, which lie behind it. -/
def nests : Expr → Bool
  | .method object _ arguments span =>
      span.ordered && span.covers object.span && arguments.all fun argument =>
        span.stop < argument.span.start
  | expr => expr.covers

end Expr

/-- Whether the span of a single statement is in order and covers that of the value. -/
def Stmt.covers : Stmt → Bool
  | .define _ value span | .assign _ _ value span => span.ordered && span.covers value.span
  | .expr _ => true
  | .choice .. | .loop .. => false

/-! ### Lexemes in order -/

/-- Lexemes lie behind a front and one behind another, and all but the end of the text have some
extent. -/
inductive Ascending : Nat → List Lexeme → Prop where
  | nil {front} : Ascending front []
  | cons {front lexeme rest} : front ≤ lexeme.span.start →
      lexeme.span.start ≤ lexeme.span.stop →
      (lexeme.token ≠ .eof → lexeme.span.start < lexeme.span.stop) →
      Ascending lexeme.span.stop rest → Ascending front (lexeme :: rest)

variable {front further : Nat} {finish : Span} {lexeme : Lexeme} {lexemes rest : List Lexeme}

theorem Ascending.before (ascending : Ascending front lexemes) (less : further ≤ front) :
    Ascending further lexemes := by
  cases ascending with
  | nil => exact .nil
  | cons behind ordered extended rest =>
      exact .cons (Nat.le_trans less behind) ordered extended rest

theorem Ascending.sublist (ascending : Ascending front lexemes) (fewer : rest.Sublist lexemes) :
    Ascending front rest := by
  induction fewer generalizing front with
  | slnil => exact .nil
  | cons _ _ inductionHypothesis =>
      cases ascending with
      | cons behind ordered _ others =>
          exact (inductionHypothesis others).before (Nat.le_trans behind ordered)
  | cons_cons _ _ inductionHypothesis =>
      cases ascending with
      | cons behind ordered extended others =>
          exact .cons behind ordered extended (inductionHypothesis others)

theorem Tiling.ascending {before left : List Char} (tiling : Tiling before left lexemes) :
    Ascending (byteLength before) lexemes := by
  induction tiling with
  | done => exact .cons (Nat.le_refl _) (by simp [spanBehind]) (fun other => absurd rfl other) .nil
  | blank _ _ inductionHypothesis | comment _ _ _ inductionHypothesis =>
      exact inductionHypothesis.before (by rw [byteLength_append]; omega)
  | line _ inductionHypothesis =>
      have extent : 0 < byteLength ['\n'] := by decide
      exact .cons (Nat.le_refl _) (by simp [spanBehind])
        (fun _ => by simpa [spanBehind] using extent) inductionHypothesis
  | @lexeme before _ spelling _ _ _ some_ _ _ inductionHypothesis =>
      have extent : 0 < byteLength spelling :=
        Nat.pos_of_ne_zero fun empty => some_ (eq_nil_of_byteLength empty)
      have longer : byteLength before < byteLength (before ++ spelling) := by
        rw [byteLength_append]
        omega
      exact .cons (Nat.le_refl _) (Nat.le_of_lt longer) (fun _ => longer) inductionHypothesis

/-- The lexemes of a text lie in order, and so do some of them. -/
theorem ascending_of_lex {text : String} (accepted : lex text = .ok lexemes)
    (fewer : rest.Sublist lexemes) : Ascending 0 rest := by
  obtain ⟨scanned, found, rfl⟩ := map_eq_ok.mp accepted
  have tiling : Tiling [] text.toList scanned := tiling_of_scanFrom _ ⟨rfl, rfl⟩ found
  obtain ⟨others, rfl, _⟩ := tiling.exists_ends
  obtain ⟨kept, joined, dropped, _⟩ := exists_joinLinesFrom 0 none none others
    (show (⟨.eof, spanBehind ([] ++ text.toList) []⟩ : Lexeme).token = .eof from rfl)
  refine tiling.ascending.sublist (fewer.trans ?_)
  rw [joinLines, joined]
  exact dropped.append (List.Sublist.refl _)

/-! ### Readers -/

/-- The span lies behind the front, and the rest behind the span. -/
structure Stands (front : Nat) (span : Span) (rest : List Lexeme) : Prop where
  start : front ≤ span.start
  ordered : span.start ≤ span.stop
  rest : Ascending span.stop rest

theorem Ascending.head (ascending : Ascending front (lexeme :: rest)) :
    Stands front lexeme.span rest := by
  cases ascending with
  | cons behind ordered _ others => exact ⟨behind, ordered, others⟩

theorem Ascending.next? {α : Type} {bound : Nat} {remaining : Remaining Lexeme (bound + 1) α}
    {found : Remaining Lexeme bound Lexeme} {p : Remaining Lexeme bound Lexeme → Bool}
    (ascending : Ascending front remaining.rest) (next : remaining.next?.filter p = some found) :
    Ascending front (found.value :: found.rest) := by
  obtain ⟨value, lexemes, within⟩ := remaining
  cases lexemes with
  | nil => cases next
  | cons lexeme rest =>
      cases (Option.filter_eq_some_iff.mp next).1
      exact ascending

namespace Stands

variable {inner : Span}

theorem before (stands : Stands front inner rest) (less : further ≤ front) :
    Stands further inner rest :=
  ⟨Nat.le_trans less stands.start, stands.ordered, stands.rest⟩

/-- Who comes to the end of the span has passed the front. -/
theorem passed (stands : Stands front inner rest) : front ≤ inner.stop :=
  Nat.le_trans stands.start stands.ordered

/-- The span from one that was read to one that was read behind it. -/
theorem union {first : Span} (stands : Stands front first lexemes)
    (later : Stands first.stop inner rest) : Stands front (first.union inner) rest := by
  obtain ⟨start, ordered, _⟩ := stands
  obtain ⟨start', ordered', others⟩ := later
  refine ⟨?_, ?_, others.before ?_⟩ <;> simp only [Span.union] <;> omega

end Stands

/-- An expression that was read behind the front, with the rest behind it. -/
structure Nested (front : Nat) (expr : Expr) (rest : List Lexeme) : Prop where
  stands : Stands front expr.span rest
  nests : expr.everyNode Expr.nests = true

/-- Arguments that were read behind the front and in front of the closing parenthesis. -/
structure NestedArguments (front : Nat) (arguments : List Expr × Span) (rest : List Lexeme) :
    Prop where
  closing : Stands front arguments.2 rest
  inside : ∀ argument ∈ arguments.1,
    front ≤ argument.span.start ∧ argument.span.stop ≤ arguments.2.stop
  nests : Expr.everyNodeIn Expr.nests arguments.1 = true

/-- If something is read it is as it should be. -/
abbrev Nesting {α : Type} {bound : Nat} (good : α → List Lexeme → Prop) :
    Reading (Remaining Lexeme bound α) → Prop :=
  Meets (fun _ => True) fun remaining => good remaining.value remaining.rest

theorem nesting_requireToken {wanted : Token} (ascending : Ascending front lexemes) :
    Nesting (Stands front) (requireToken finish wanted lexemes) := by
  cases lexemes with
  | nil => exact trivial
  | cons lexeme rest =>
      rw [requireToken]
      split
      next => exact ascending.head
      next => exact trivial

theorem nesting_requireName (ascending : Ascending front lexemes) :
    Nesting (fun name => Stands front name.2) (requireName finish lexemes) := by
  cases lexemes with
  | nil => exact trivial
  | cons lexeme rest =>
      rw [requireName]
      split
      next => exact ascending.head
      next => exact trivial

theorem Source.Span.covers_iff {outer inner : Span} :
    outer.covers inner = true ↔ outer.start ≤ inner.start ∧ inner.stop ≤ outer.stop := by
  simp [Span.covers]

theorem Source.Span.union_covers_left (first second : Span) :
    (first.union second).covers first = true :=
  covers_iff.mpr ⟨Nat.min_le_left .., Nat.le_max_left ..⟩

theorem Source.Span.union_covers_right (first second : Span) :
    (first.union second).covers second = true :=
  covers_iff.mpr ⟨Nat.min_le_right .., Nat.le_max_right ..⟩

theorem Stands.isOrdered {span : Span} (stands : Stands front span rest) :
    span.ordered = true := decide_eq_true stands.ordered

theorem Expr.covers_iff {expr : Expr} :
    expr.covers = true ↔
      expr.span.ordered = true ∧ ∀ child ∈ expr.children, expr.span.covers child.span = true := by
  simp [Expr.covers]

namespace Nested

variable {expr object left right : Expr} {opener position : Span}

theorem before (nested : Nested front expr rest) (less : further ≤ front) :
    Nested further expr rest :=
  ⟨nested.stands.before less, nested.nests⟩

/-- What is in parentheses is read as it is. -/
theorem through (nested : Nested front expr lexemes)
    (closing : Stands expr.span.stop position rest) : Nested front expr rest :=
  ⟨⟨nested.stands.start, nested.stands.ordered,
    closing.rest.before closing.passed⟩, nested.nests⟩

theorem atom {atom : Expr} (single : lexeme.atom? = some atom)
    (ascending : Ascending front (lexeme :: rest)) : Nested front atom rest := by
  have stands := ascending.head
  have alone : lexeme.span.ordered = true ∧ ∀ child ∈ ([] : List Expr),
      lexeme.span.covers child.span = true := ⟨stands.isOrdered, List.forall_mem_nil _⟩
  unfold Lexeme.atom? at single
  split at single <;> cases single <;> exact ⟨stands, Expr.covers_iff.mpr alone⟩

theorem ident {word : String} (stands : Stands front position rest) :
    Nested front (.ident word position) rest :=
  ⟨stands, Expr.covers_iff.mpr ⟨stands.isOrdered, List.forall_mem_nil _⟩⟩

theorem binary {op : BinaryOp} (first : Nested front left lexemes)
    (second : Nested left.span.stop right rest) :
    Nested front (.binary op left right (left.span.union right.span)) rest := by
  have stands := first.stands.union second.stands
  refine ⟨stands, ?_⟩
  rw [Expr.everyNode, first.nests, second.nests, Bool.and_self, Bool.and_true]
  refine Expr.covers_iff.mpr ⟨stands.isOrdered, List.forall_mem_cons.mpr ⟨?_, ?_⟩⟩
  · exact Span.union_covers_left ..
  · exact List.forall_mem_singleton.mpr (Span.union_covers_right ..)

theorem unary {op : UnaryOp} (sign : Stands front opener lexemes)
    (operand : Nested opener.stop expr rest) :
    Nested front (.unary op expr (opener.union expr.span)) rest := by
  have stands := sign.union operand.stands
  refine ⟨stands, ?_⟩
  rw [Expr.everyNode, operand.nests, Bool.and_true]
  exact Expr.covers_iff.mpr
    ⟨stands.isOrdered, List.forall_mem_singleton.mpr (Span.union_covers_right ..)⟩

theorem field {word : String} (whole : Nested front object lexemes)
    (name : Stands object.span.stop position rest) :
    Nested front (.field object word (object.span.union position)) rest := by
  have stands := whole.stands.union name
  refine ⟨stands, ?_⟩
  rw [Expr.everyNode, whole.nests, Bool.and_true]
  exact Expr.covers_iff.mpr
    ⟨stands.isOrdered, List.forall_mem_singleton.mpr (Span.union_covers_left ..)⟩

/-- The arguments of a method lie behind its name, where its span ends. -/
theorem method {word : String} {arguments : List Expr × Span} {more : List Lexeme}
    (whole : Nested front object lexemes) (name : Stands object.span.stop position more)
    (listed : NestedArguments further arguments rest) (later : position.stop < further) :
    Nested front (.method object word arguments.1 (object.span.union position)) rest := by
  have stands := whole.stands.union name
  have reaches : (object.span.union position).stop = position.stop :=
    Nat.max_eq_right name.passed
  have behind : (arguments.1.all fun argument =>
      (object.span.union position).stop < argument.span.start) = true := by
    rw [List.all_eq_true]
    intro argument among
    exact decide_eq_true (reaches ▸ Nat.lt_of_lt_of_le later (listed.inside argument among).1)
  refine ⟨⟨stands.start, stands.ordered, listed.closing.rest.before ?_⟩, ?_⟩
  · change (object.span.union position).stop ≤ _
    have closing := listed.closing.passed
    omega
  · rw [Expr.everyNode, whole.nests, listed.nests, Bool.and_self, Bool.and_true, Expr.nests,
      stands.isOrdered, behind, Span.union_covers_left]
    rfl

theorem member {library word : String} (first : Stands front opener lexemes)
    (name : Stands opener.stop position rest) :
    Nested front (.member library word none (opener.union position)) rest := by
  have stands := first.union name
  exact ⟨stands, Expr.covers_iff.mpr ⟨stands.isOrdered, List.forall_mem_nil _⟩⟩

/-- The span of what has arguments reaches to the closing parenthesis. -/
theorem enclosing {arguments : List Expr × Span} (first : Stands front opener lexemes)
    (listed : NestedArguments opener.stop arguments rest)
    (span : expr.span = opener.union arguments.2) (children : expr.children = arguments.1)
    (nodes : expr.everyNode Expr.nests =
      (expr.covers && Expr.everyNodeIn Expr.nests arguments.1)) :
    Nested front expr rest := by
  have stands := first.union listed.closing
  rw [← span] at stands
  refine ⟨stands, ?_⟩
  rw [nodes, listed.nests, Bool.and_true, Expr.covers_iff, children]
  refine ⟨stands.isOrdered, fun argument among => ?_⟩
  obtain ⟨start, stop⟩ := listed.inside argument among
  have ordered := first.ordered
  rw [Span.covers_iff, span]
  simp only [Span.union]
  omega

end Nested

namespace NestedArguments

variable {arguments : List Expr × Span} {argument : Expr} {closing : Span}

theorem before (listed : NestedArguments front arguments rest) (less : further ≤ front) :
    NestedArguments further arguments rest := by
  refine ⟨listed.closing.before less, fun argument among => ?_, listed.nests⟩
  obtain ⟨start, stop⟩ := listed.inside argument among
  exact ⟨Nat.le_trans less start, stop⟩

theorem none_ (stands : Stands front closing rest) : NestedArguments front ([], closing) rest :=
  ⟨stands, List.forall_mem_nil _, rfl⟩

theorem cons (first : Nested front argument lexemes)
    (listed : NestedArguments argument.span.stop arguments rest) :
    NestedArguments front (argument :: arguments.1, arguments.2) rest := by
  have others := listed.before first.stands.passed
  refine ⟨others.closing, List.forall_mem_cons.mpr ⟨⟨first.stands.start, ?_⟩, others.inside⟩, ?_⟩
  · exact listed.closing.passed
  · rw [Expr.everyNodeIn, first.nests, listed.nests]
    rfl

end NestedArguments

mutual

theorem nesting_readTier {tier : Nat} {lexemes : List Lexeme} {front : Nat}
    (ascending : Ascending front lexemes) :
    Nesting (Nested front) (readTier finish tier lexemes) := by
  cases tier with
  | zero =>
      rw [readTier]
      exact nesting_readUnary ascending
  | succ tier =>
      rw [readTier]
      refine (nesting_readTier ascending).bind fun left first => ?_
      have shorter := left.within
      exact (nesting_readOperands first).bind fun whole joined => joined
termination_by 16 * lexemes.length + (3 + tier)
decreasing_by all_goals omega

theorem nesting_readOperands {tier : Nat} {left : Expr} {lexemes : List Lexeme} {front : Nat}
    (first : Nested front left lexemes) :
    Nesting (Nested front) (readOperands finish tier left lexemes) := by
  cases lexemes with
  | nil =>
      rw [readOperands]
      exact first
  | cons next rest =>
      rw [readOperands]
      split
      next => exact first
      next =>
        have operator := first.stands.rest.head
        refine (nesting_readTier operator.rest).bind fun right second => ?_
        have shorter := right.within
        have behind := second.before operator.passed
        exact (nesting_readOperands (first.binary behind)).bind fun whole joined => joined
termination_by 16 * lexemes.length + (3 + tier)
decreasing_by all_goals subst_vars; simp only [List.length_cons]; omega

theorem nesting_readUnary {lexemes : List Lexeme} {front : Nat}
    (ascending : Ascending front lexemes) :
    Nesting (Nested front) (readUnary finish lexemes) := by
  cases lexemes with
  | nil =>
      rw [readUnary]
      exact nesting_readPostfix ascending
  | cons next rest =>
      rw [readUnary]
      have sign := ascending.head
      split
      next => exact nesting_readPostfix ascending
      next => exact (nesting_readUnary sign.rest).bind fun operand inner => .unary sign inner
termination_by 16 * lexemes.length + 2
decreasing_by all_goals subst_vars; first | omega | simp only [List.length_cons]; omega

theorem nesting_readPostfix {lexemes : List Lexeme} {front : Nat}
    (ascending : Ascending front lexemes) :
    Nesting (Nested front) (readPostfix finish lexemes) := by
  rw [readPostfix]
  refine (nesting_readPrimary ascending).bind fun object first => ?_
  have shorter := object.within
  exact (nesting_readAccesses first).bind fun whole accessed => accessed
termination_by 16 * lexemes.length + 1
decreasing_by all_goals omega

theorem nesting_readAccesses {object : Expr} {lexemes : List Lexeme} {front : Nat}
    (whole : Nested front object lexemes) :
    Nesting (Nested front) (readAccesses finish object lexemes) := by
  cases lexemes with
  | nil =>
      rw [readAccesses]
      exact whole
  | cons next rest =>
      rw [readAccesses]
      split
      next =>
        have dot := whole.stands.rest.head
        refine (nesting_requireName dot.rest).bind fun name named => ?_
        have shorter := name.within
        have behind := named.before dot.passed
        dsimp only
        split
        next =>
          exact (nesting_readAccesses (whole.field behind)).bind fun further accessed => accessed
        next opening opens =>
          have parenthesis := Ascending.next? named.rest opens
          have shorter' := opening.within
          refine (nesting_readArguments parenthesis.head.rest).bind fun arguments listed => ?_
          have shorter'' := arguments.within
          have later : name.value.2.stop < opening.value.span.stop := by
            cases parenthesis with
            | cons start _ extended _ =>
                refine Nat.lt_of_le_of_lt start (extended fun last => ?_)
                have token := (Option.filter_eq_some_iff.mp opens).2
                simp [last] at token
          exact (nesting_readAccesses (whole.method behind listed later)).bind
            fun further accessed => accessed
      next => exact whole
termination_by 16 * lexemes.length + 0
decreasing_by all_goals subst_vars; simp only [List.length_cons]; omega

theorem nesting_readArguments {lexemes : List Lexeme} {front : Nat}
    (ascending : Ascending front lexemes) :
    Nesting (NestedArguments front) (readArguments finish lexemes) := by
  cases lexemes with
  | nil =>
      rw [readArguments]
      exact nesting_readArgumentList ascending
  | cons next rest =>
      rw [readArguments]
      split
      next => exact .none_ ascending.head
      next => exact nesting_readArgumentList ascending
termination_by 16 * lexemes.length + 11
decreasing_by all_goals subst_vars; omega

theorem nesting_readArgumentList {lexemes : List Lexeme} {front : Nat}
    (ascending : Ascending front lexemes) :
    Nesting (NestedArguments front) (readArgumentList finish lexemes) := by
  rw [readArgumentList]
  refine (nesting_readTier ascending).bind fun argument first => ?_
  have shorter := argument.within
  obtain ⟨value, rest, within⟩ := argument
  cases rest with
  | nil => exact trivial
  | cons next behind =>
      have separator := first.stands.rest.head
      simp only [Remaining.relax, Remaining.next?]
      split
      next =>
        refine (nesting_readArgumentList separator.rest).bind fun more listed => ?_
        exact .cons first (listed.before separator.passed)
      next => exact .cons first (.none_ separator)
      next => exact trivial
termination_by 16 * lexemes.length + 10
decreasing_by
  · rw [tierCount]; omega
  · rw [List.length_cons] at within; omega

theorem nesting_readPrimary {lexemes : List Lexeme} {front : Nat}
    (ascending : Ascending front lexemes) :
    Nesting (Nested front) (readPrimary finish lexemes) := by
  cases lexemes with
  | nil =>
      rw [readPrimary]
      exact trivial
  | cons next rest =>
      rw [readPrimary]
      have opener := ascending.head
      split
      next single => exact .atom single ascending
      next =>
        split
        next =>
          refine (nesting_readTier opener.rest).bind fun inner first => ?_
          refine (nesting_requireToken first.stands.rest).bind fun closing closes => ?_
          exact (first.through closes).before opener.passed
        next => exact nesting_readSpawn opener
        next => exact nesting_readNamed opener
        next => exact trivial
termination_by 16 * lexemes.length + 0
decreasing_by all_goals subst_vars; simp only [List.length_cons, tierCount]; omega

theorem nesting_readSpawn {opener : Span} {lexemes : List Lexeme} {front : Nat}
    (stands : Stands front opener lexemes) :
    Nesting (Nested front) (readSpawn finish opener lexemes) := by
  rw [readSpawn]
  refine (nesting_requireToken stands.rest).bind fun opening opens => ?_
  refine (nesting_requireName opens.rest).bind fun name named => ?_
  have shorter := opening.within
  have shorter' := name.within
  have header := Nat.le_trans opens.passed named.passed
  dsimp only
  split
  next separator separates =>
    have comma := (Ascending.next? named.rest separates).head
    have shorter'' := separator.within
    refine (nesting_readArguments comma.rest).bind fun arguments listed => ?_
    have passed := Nat.le_trans header comma.passed
    exact .enclosing stands (listed.before passed) rfl rfl rfl
  next =>
    refine (nesting_requireToken named.rest).bind fun closing closes => ?_
    exact .enclosing stands (.none_ (closes.before header)) rfl rfl rfl
termination_by 16 * lexemes.length + 1
decreasing_by all_goals omega

theorem nesting_readNamed {word : String} {position : Span} {lexemes : List Lexeme} {front : Nat}
    (stands : Stands front position lexemes) :
    Nesting (Nested front) (readNamed finish word position lexemes) := by
  cases lexemes with
  | nil =>
      rw [readNamed]
      exact .ident stands
  | cons next rest =>
      rw [readNamed]
      have sign := stands.rest.head
      have behind := sign.passed
      split
      next =>
        refine (nesting_requireName sign.rest).bind fun name named => ?_
        dsimp only
        split
        next opening opens =>
          have parenthesis := (Ascending.next? named.rest opens).head
          have shorter := opening.within
          refine (nesting_readArguments parenthesis.rest).bind fun arguments listed => ?_
          have passed := Nat.le_trans behind named.passed
          have opened := Nat.le_trans passed parenthesis.passed
          exact .enclosing stands (listed.before opened) rfl rfl rfl
        next => exact .member stands (named.before behind)
      next =>
        refine (nesting_readArguments sign.rest).bind fun arguments listed => ?_
        exact .enclosing stands (listed.before behind) rfl rfl rfl
      next => exact .ident stands
termination_by 16 * lexemes.length + 0
decreasing_by all_goals subst_vars; simp only [List.length_cons]; omega

end

/-! ### Statements -/

/-- Whether the spans of the statement, and of the expression in it, lie in each other. -/
def Stmt.nests (stmt : Stmt) : Bool := stmt.covers && stmt.every (Expr.everyNode Expr.nests)

theorem Nested.valued {value : Expr} {opener : Span} (first : Stands front opener lexemes)
    (inner : Nested opener.stop value rest) :
    ((opener.union value.span).ordered && (opener.union value.span).covers value.span) = true ∧
      value.everyNode Expr.nests = true := by
  have stands := first.union inner.stands
  rw [stands.isOrdered, Span.union_covers_right]
  exact ⟨rfl, inner.nests⟩

theorem nests_readDefinition {opener : Span} (stands : Stands front opener lexemes) :
    Meets (fun _ => True) (fun read => read.value.nests = true)
      (readDefinition finish opener lexemes) := by
  rw [readDefinition]
  refine (nesting_requireName stands.rest).bind fun name named => ?_
  refine (nesting_requireToken named.rest).bind fun sign assigns => ?_
  refine (nesting_readTier assigns.rest).bind fun value inner => ?_
  have passed := Nat.le_trans named.passed assigns.passed
  exact Bool.and_eq_true_iff.mpr (Nested.valued stands (inner.before passed))

theorem nests_readAction (ascending : Ascending front lexemes) :
    Meets (fun _ => True) (fun read => read.value.nests = true) (readAction finish lexemes) := by
  rw [readAction]
  refine (nesting_readTier ascending).bind fun target first => ?_
  obtain ⟨target, rest, within⟩ := target
  have alone : (Stmt.expr target).nests = true := first.nests
  cases rest with
  | nil => exact alone
  | cons next behind =>
      simp only [Remaining.relax, Remaining.next?]
      split
      next => exact alone
      next op =>
        have sign := first.stands.rest.head
        have place : Meets (fun _ => True) (fun _ => True) target.place? :=
          .of_forall fun _ _ => trivial
        refine place.bind fun place _ => ?_
        refine (nesting_readTier sign.rest).bind fun value inner => ?_
        exact Bool.and_eq_true_iff.mpr (Nested.valued first.stands (inner.before sign.passed))

theorem nests_readStmt (ascending : Ascending front lexemes) :
    Meets (fun _ => True) (fun read => read.value.nests = true) (readStmt finish lexemes) := by
  cases lexemes with
  | nil =>
      rw [readStmt]
      exact nests_readAction ascending
  | cons next rest =>
      rw [readStmt]
      split
      next => exact (nests_readDefinition ascending.head).bind fun stmt nests => nests
      next => exact nests_readAction ascending

/-! ### Payloads -/

/-- In what is read of a payload each span covers those of the parts, apart from the arguments of
methods. -/
theorem spans_nest {text : String} (accepted : lex text = .ok lexemes)
    {payload : List Lexeme} (fewer : payload.Sublist lexemes) (span : Span) :
    (∀ expr, Expr.ofLexemes span payload = .ok expr → expr.everyNode Expr.nests = true) ∧
      ∀ stmt, Stmt.ofLexemes span payload = .ok stmt → stmt.nests = true := by
  have ascending := ascending_of_lex accepted fewer
  have done (rest : List Lexeme) :
      Meets (fun _ => True) (fun _ => True) (requireDone (endOf span) rest) :=
    .of_forall fun _ _ => trivial
  constructor
  · intro expr read
    have whole : Meets (fun _ => True) (fun expr : Expr => expr.everyNode Expr.nests = true)
        (Expr.ofLexemes span payload) := by
      refine (nesting_readTier ascending).bind fun expr inner => ?_
      exact (done expr.rest).bind fun _ _ => inner.nests
    exact whole.of_ok read
  · intro stmt read
    have whole : Meets (fun _ => True) (fun stmt : Stmt => stmt.nests = true)
        (Stmt.ofLexemes span payload) := by
      refine (nests_readStmt ascending).bind fun stmt nests => ?_
      exact (done stmt.rest).bind fun _ _ => nests
    exact whole.of_ok read

/-- What is read of a closed text, with a check of it. -/
theorem exists_read {text : String} {check : Stmt → Bool}
    (read : ((lex text).toOption.bind fun lexemes =>
      (Stmt.ofLexemes .none lexemes).toOption).any check = true) :
    ∃ lexemes stmt, lex text = .ok lexemes ∧ Stmt.ofLexemes .none lexemes = .ok stmt ∧
      check stmt = true := by
  cases accepted : lex text with
  | error diagnostic =>
      rw [accepted] at read
      cases read
  | ok lexemes =>
      cases made : Stmt.ofLexemes .none lexemes with
      | error diagnostic => simp [accepted, made, Except.toOption] at read
      | ok stmt =>
          refine ⟨lexemes, stmt, rfl, made, ?_⟩
          simpa [accepted, made, Except.toOption] using read

/-- A method that is called with what a function and a sign make. -/
def carrying : String := "this.load = cart.put(f(-a, b.c))"

theorem carrying_nests :
    ∃ lexemes stmt, lex carrying = .ok lexemes ∧ Stmt.ofLexemes .none lexemes = .ok stmt ∧
      stmt.nests = true := by
  have read : ((lex carrying).toOption.bind fun lexemes =>
      (Stmt.ofLexemes .none lexemes).toOption).any (fun _ => true) = true := by
    decide +kernel
  obtain ⟨lexemes, stmt, accepted, made, _⟩ := exists_read read
  exact ⟨lexemes, stmt, accepted, made,
    (spans_nest accepted (List.Sublist.refl lexemes) .none).2 stmt made⟩

/-- The span of a method call does not cover its arguments. -/
theorem carrying_uncovered :
    ∃ lexemes stmt, lex carrying = .ok lexemes ∧ Stmt.ofLexemes .none lexemes = .ok stmt ∧
      stmt.every (Expr.everyNode Expr.covers) = false := by
  have read : ((lex carrying).toOption.bind fun lexemes =>
      (Stmt.ofLexemes .none lexemes).toOption).any
        (fun stmt => !stmt.every (Expr.everyNode Expr.covers)) = true := by
    decide +kernel
  obtain ⟨lexemes, stmt, accepted, made, uncovered⟩ := exists_read read
  exact ⟨lexemes, stmt, accepted, made, by simpa using uncovered⟩

end EntityScript
