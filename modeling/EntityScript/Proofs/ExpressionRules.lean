import EntityScript.Expr.Printer
import EntityScript.Proofs.Reads

/-!
The readers of expressions and statements as rules: each says what its reader reads, given what
the readers do that it is made of.
-/

namespace EntityScript

open Source (Span)

variable {finish : Span} {lexemes rest : List Lexeme}

@[simp]
theorem reads_malformed {α : Type} {bound : Nat} {problem : ExpressionProblem} {value : α} :
    ¬Reads (malformed finish problem lexemes : Reading (Remaining Lexeme bound α)) value rest :=
  reads_error

theorem reads_requireToken {wanted : Token} {span : Span} :
    Reads (requireToken finish wanted lexemes) span rest ↔
      ∃ lexeme, lexemes = lexeme :: rest ∧ lexeme.token = wanted ∧ lexeme.span = span := by
  cases lexemes with
  | nil => simp [requireToken]
  | cons next more =>
      by_cases found : next.token = wanted
      · simp [requireToken, found, Remaining.taking, and_comm, and_left_comm]
      · simp only [requireToken, found, if_false, reads_malformed, false_iff]
        rintro ⟨_, same, found', _⟩
        cases same
        exact found found'

theorem reads_requireName {name : String × Span} :
    Reads (requireName finish lexemes) name rest ↔
      ∃ lexeme, lexemes = lexeme :: rest ∧ lexeme.token = .name name.1 ∧
        lexeme.span = name.2 := by
  cases lexemes with
  | nil => simp [requireName]
  | cons next more =>
      simp only [requireName]
      split
      · simp only [reads_ok, Remaining.taking]
        grind
      · simp only [reads_malformed, false_iff]
        grind

theorem reads_readTier_succ {tier : Nat} {whole : Expr} :
    Reads (readTier finish (tier + 1) lexemes) whole rest ↔
      ∃ left middle, Reads (readTier finish tier lexemes) left middle ∧
        Reads (readOperands finish tier left middle) whole rest := by
  rw [readTier]
  refine reads_bind fun left middle within => ?_
  rw [reads_bind_pure id fun _ _ _ => ⟨rfl, rfl⟩]
  simp

theorem reads_readOperands_of_none {tier : Nat} {left whole : Expr}
    (stops : (nextToken lexemes).operatorOf? tier = none) :
    Reads (readOperands finish tier left lexemes) whole rest ↔ left = whole ∧ lexemes = rest := by
  cases lexemes with
  | nil => rw [readOperands, reads_ok]; rfl
  | cons next more =>
      rw [nextToken_cons] at stops
      rw [readOperands, stops, reads_ok]
      rfl

theorem reads_readOperands_of_some {tier : Nat} {next : Lexeme} {op : BinaryOp}
    {left whole : Expr} (joins : next.token.operatorOf? tier = some op) :
    Reads (readOperands finish tier left (next :: lexemes)) whole rest ↔
      ∃ right middle, Reads (readTier finish tier lexemes) right middle ∧
        Reads (readOperands finish tier (.binary op left right (left.span.union right.span))
          middle) whole rest := by
  rw [readOperands, joins]
  refine reads_bind fun right middle within => ?_
  rw [reads_bind_pure id fun _ _ _ => ⟨rfl, rfl⟩]
  simp

theorem reads_readUnary_of_none {whole : Expr} (plain : (nextToken lexemes).unaryOp? = none) :
    Reads (readUnary finish lexemes) whole rest ↔
      Reads (readPostfix finish lexemes) whole rest := by
  cases lexemes with
  | nil => rw [readUnary]
  | cons next more =>
      rw [nextToken_cons] at plain
      rw [readUnary, plain]

theorem reads_readUnary_of_some {next : Lexeme} {op : UnaryOp} {whole : Expr}
    (signed : next.token.unaryOp? = some op) :
    Reads (readUnary finish (next :: lexemes)) whole rest ↔
      ∃ operand, Reads (readUnary finish lexemes) operand rest ∧
        .unary op operand (next.span.union operand.span) = whole := by
  rw [readUnary, signed]
  exact reads_bind_pure (fun operand => Expr.unary op operand (next.span.union operand.span))
    fun _ _ _ => ⟨rfl, rfl⟩

theorem reads_readPostfix {whole : Expr} :
    Reads (readPostfix finish lexemes) whole rest ↔
      ∃ object middle, Reads (readPrimary finish lexemes) object middle ∧
        Reads (readAccesses finish object middle) whole rest := by
  rw [readPostfix]
  refine reads_bind fun object middle within => ?_
  rw [reads_bind_pure id fun _ _ _ => ⟨rfl, rfl⟩]
  simp

theorem reads_readAccesses_of_other {object whole : Expr}
    (stops : nextToken lexemes ≠ .dot) :
    Reads (readAccesses finish object lexemes) whole rest ↔
      object = whole ∧ lexemes = rest := by
  cases lexemes with
  | nil => rw [readAccesses, reads_ok]; rfl
  | cons next more =>
      rw [nextToken_cons] at stops
      rw [readAccesses, if_neg stops, reads_ok]
      rfl

/-- Behind a dot a name follows, which is called if a parenthesis follows it. -/
theorem reads_readAccesses_of_dot {object whole : Expr} {dot : Lexeme}
    (accesses : dot.token = .dot) :
    Reads (readAccesses finish object (dot :: lexemes)) whole rest ↔
      ∃ name middle, Reads (requireName finish lexemes) name middle ∧
        ((nextToken middle ≠ .leftParen ∧
          Reads (readAccesses finish (.field object name.1 (object.span.union name.2)) middle)
            whole rest) ∨
        ∃ opening more, middle = opening :: more ∧ opening.token = .leftParen ∧
          ∃ arguments behind, Reads (readArguments finish more) arguments behind ∧
            Reads (readAccesses finish (.method object name.1 arguments.1
              (object.span.union name.2)) behind) whole rest) := by
  rw [readAccesses, if_pos accesses]
  refine reads_bind fun name middle within => ?_
  by_cases next : nextToken middle = .leftParen
  · obtain ⟨opening, more, rfl, opens, _⟩ := cons_of_nextToken next (by simp)
    obtain ⟨_, followed⟩ := Remaining.filter_next?_eq_some
      ⟨name, opening :: more, within⟩ rfl opens
    rw [followed, exists_cons_eq]
    rw [reads_bind (P := fun arguments behind => Reads (readAccesses finish
      (.method object name.1 arguments.1 (object.span.union name.2)) behind) whole rest)]
    · simp only [nextToken_cons, opens, ne_eq, not_true_eq_false, false_and, false_or, true_and]
    · intro arguments behind _
      rw [reads_bind_pure id fun _ _ _ => ⟨rfl, rfl⟩]
      simp only [id, exists_eq_right]
  · rw [Remaining.filter_next?_eq_none _ next]
    dsimp only
    rw [reads_bind_pure id fun _ _ _ => ⟨rfl, rfl⟩]
    simp only [id, exists_eq_right, ne_eq, next, not_false_eq_true, true_and]
    refine (or_iff_left ?_).symm
    rintro ⟨opening, more, rfl, opens, _⟩
    exact next opens

theorem reads_readArguments_of_closing {closing : Lexeme} {arguments : List Expr × Span}
    (closes : closing.token = .rightParen) :
    Reads (readArguments finish (closing :: lexemes)) arguments rest ↔
      ([], closing.span) = arguments ∧ lexemes = rest := by
  rw [readArguments, if_pos closes, reads_ok]
  rfl

theorem reads_readArguments_of_other {arguments : List Expr × Span}
    (opens : nextToken lexemes ≠ .rightParen) :
    Reads (readArguments finish lexemes) arguments rest ↔
      Reads (readArgumentList finish lexemes) arguments rest := by
  cases lexemes with
  | nil => rw [readArguments]
  | cons next more =>
      rw [nextToken_cons] at opens
      rw [readArguments, if_neg opens]

theorem reads_readArgumentList {arguments : List Expr × Span} :
    Reads (readArgumentList finish lexemes) arguments rest ↔
      ∃ argument middle, Reads (readTier finish tierCount lexemes) argument middle ∧
        ∃ next more, middle = next :: more ∧
          ((next.token = .rightParen ∧ ([argument], next.span) = arguments ∧ more = rest) ∨
          (next.token = .comma ∧ ∃ further, Reads (readArgumentList finish more) further rest ∧
            (argument :: further.1, further.2) = arguments)) := by
  rw [readArgumentList]
  refine reads_bind fun argument middle within => ?_
  cases middle with
  | nil => simp [Remaining.relax, Remaining.next?]
  | cons next more =>
      rw [exists_cons_eq]
      simp only [Remaining.relax, Remaining.next?]
      split
      next separated =>
        rw [reads_bind_pure (fun further => (argument :: further.1, further.2))
          fun _ _ _ => ⟨rfl, rfl⟩]
        simp [separated]
      next closes => simp [closes, Remaining.map]
      next separates closes =>
        simp only [reads_malformed, false_iff]
        rintro (⟨found, _⟩ | ⟨found, _⟩)
        · exact closes found
        · exact separates found

/-- An operand is a single token, or in parentheses, or starts with `spawn` or with a name. -/
theorem reads_readPrimary {whole : Expr} :
    Reads (readPrimary finish lexemes) whole rest ↔
      ∃ next more, lexemes = next :: more ∧
        ((next.atom? = some whole ∧ more = rest) ∨
        (next.token = .leftParen ∧
          ∃ closing, Reads (readTier finish tierCount more) whole (closing :: rest) ∧
            closing.token = .rightParen) ∨
        (next.token = .kwSpawn ∧ Reads (readSpawn finish next.span more) whole rest) ∨
        ∃ word, next.token = .name word ∧
          Reads (readNamed finish word next.span more) whole rest) := by
  cases lexemes with
  | nil => simp [readPrimary]
  | cons next more =>
      rw [readPrimary, exists_cons_eq]
      cases single : next.atom? with
      | some atom =>
          have ungrouped : next.token ≠ .leftParen := by
            intro opens
            simp [Lexeme.atom?, opens] at single
          have unspawned : next.token ≠ .kwSpawn := by
            intro spawns
            simp [Lexeme.atom?, spawns] at single
          have unnamed (word : String) : next.token ≠ .name word := by
            intro named
            simp [Lexeme.atom?, named] at single
          simp [ungrouped, unspawned, unnamed, Remaining.taking]
      | none =>
          dsimp only
          split
          next opens =>
            refine (reads_bind (P := fun inner middle => inner = whole ∧
              ∃ closing, middle = closing :: rest ∧ closing.token = .rightParen) ?_).trans ?_
            · intro inner middle within
              rw [reads_bind_pure (fun _ => inner) fun _ _ _ => ⟨rfl, rfl⟩]
              simp [reads_requireToken]
              grind
            · grind
          next spawns => simp [spawns]
          next word named => simp [named]
          next ungrouped unspawned unnamed =>
            simp only [reads_malformed, false_iff]
            rintro (⟨atom, _⟩ | ⟨opens, _⟩ | ⟨spawns, _⟩ | ⟨word, named, _⟩)
            · cases atom
            · exact ungrouped opens
            · exact unspawned spawns
            · exact unnamed word named

theorem reads_readSpawn {opener : Span} {whole : Expr} :
    Reads (readSpawn finish opener lexemes) whole rest ↔
      ∃ opening middle, Reads (requireToken finish .leftParen lexemes) opening middle ∧
        ∃ name behind, Reads (requireName finish middle) name behind ∧
          ∃ next more, behind = next :: more ∧
            ((next.token = .rightParen ∧ .spawn name.1 [] (opener.union next.span) = whole ∧
              more = rest) ∨
            (next.token = .comma ∧ ∃ arguments,
              Reads (readArguments finish more) arguments rest ∧
                .spawn name.1 arguments.1 (opener.union arguments.2) = whole)) := by
  rw [readSpawn]
  refine reads_bind fun opening middle _ => reads_bind fun name behind within => ?_
  dsimp only
  by_cases next : nextToken behind = .comma
  · obtain ⟨separator, more, rfl, separated, _⟩ := cons_of_nextToken next (by simp)
    obtain ⟨_, followed⟩ := Remaining.filter_next?_eq_some
      (Remaining.behind _ (Remaining.relax ⟨name, separator :: more, within⟩))
      rfl separated
    rw [followed, exists_cons_eq]
    dsimp only
    rw [reads_bind_pure (fun arguments =>
      .spawn name.1 arguments.1 (opener.union arguments.2)) fun _ _ _ => ⟨rfl, rfl⟩]
    simp [separated]
  · rw [Remaining.filter_next?_eq_none
      (Remaining.behind _ (Remaining.relax ⟨name, behind, within⟩)) next]
    dsimp only
    rw [reads_bind_pure (fun closing => .spawn name.1 [] (opener.union closing))
      fun _ _ _ => ⟨rfl, rfl⟩]
    simp only [reads_requireToken]
    cases behind with
    | nil => simp
    | cons following more =>
        have separated : following.token ≠ .comma := next
        rw [exists_cons_eq]
        grind

/-- Behind a double colon the name of a member follows, which is called if a parenthesis
follows it. -/
theorem reads_readNamed_of_doubleColon {next : Lexeme} {word : String} {position : Span}
    {whole : Expr} (qualifies : next.token = .doubleColon) :
    Reads (readNamed finish word position (next :: lexemes)) whole rest ↔
      ∃ name middle, Reads (requireName finish lexemes) name middle ∧
        ((nextToken middle ≠ .leftParen ∧
          .member word name.1 none (position.union name.2) = whole ∧ middle = rest) ∨
        ∃ opening more, middle = opening :: more ∧ opening.token = .leftParen ∧
          ∃ arguments, Reads (readArguments finish more) arguments rest ∧
            .member word name.1 (some arguments.1) (position.union arguments.2) = whole) := by
  rw [readNamed]
  simp only [qualifies]
  refine reads_bind fun name middle within => ?_
  by_cases next : nextToken middle = .leftParen
  · obtain ⟨opening, more, rfl, opens, _⟩ := cons_of_nextToken next (by simp)
    obtain ⟨_, followed⟩ := Remaining.filter_next?_eq_some
      ⟨name, opening :: more, within⟩ rfl opens
    rw [followed, exists_cons_eq]
    dsimp only
    rw [reads_bind_pure (fun arguments =>
      .member word name.1 (some arguments.1) (position.union arguments.2))
      fun _ _ _ => ⟨rfl, rfl⟩]
    simp only [nextToken_cons, opens, ne_eq, not_true_eq_false, false_and, false_or, true_and]
  · rw [Remaining.filter_next?_eq_none _ next]
    simp only [reads_pure, ne_eq, next, not_false_eq_true, true_and]
    refine (or_iff_left ?_).symm
    rintro ⟨opening, more, rfl, opens, _⟩
    exact next opens

theorem reads_readNamed_of_leftParen {opening : Lexeme} {word : String} {position : Span}
    {whole : Expr} (opens : opening.token = .leftParen) :
    Reads (readNamed finish word position (opening :: lexemes)) whole rest ↔
      ∃ arguments, Reads (readArguments finish lexemes) arguments rest ∧
        .call word arguments.1 (position.union arguments.2) = whole := by
  rw [readNamed]
  simp only [opens]
  rw [reads_bind_pure (fun arguments =>
    .call word arguments.1 (position.union arguments.2)) fun _ _ _ => ⟨rfl, rfl⟩]

theorem reads_readNamed_of_other {word : String} {position : Span} {whole : Expr}
    (alone : nextToken lexemes ≠ .doubleColon) (uncalled : nextToken lexemes ≠ .leftParen) :
    Reads (readNamed finish word position lexemes) whole rest ↔
      .ident word position = whole ∧ lexemes = rest := by
  cases lexemes with
  | nil => rw [readNamed, reads_ok]; rfl
  | cons next more =>
      rw [nextToken_cons] at alone uncalled
      rw [readNamed]
      split
      · contradiction
      · contradiction
      · rw [reads_ok]
        rfl

theorem reads_readDefinition {opener : Span} {stmt : Stmt} :
    Reads (readDefinition finish opener lexemes) stmt rest ↔
      ∃ name behind, Reads (requireName finish lexemes) name behind ∧
        ∃ sign middle, Reads (requireToken finish .assign behind) sign middle ∧
          ∃ value, Reads (readTier finish tierCount middle) value rest ∧
            .define name.1 value (opener.union value.span) = stmt := by
  rw [readDefinition]
  refine reads_bind fun name behind _ => reads_bind fun sign middle _ => ?_
  rw [reads_bind_pure (fun value =>
    .define name.1 value (opener.union value.span)) fun _ _ _ => ⟨rfl, rfl⟩]
  rfl

theorem reads_readAction {stmt : Stmt} :
    Reads (readAction finish lexemes) stmt rest ↔
      ∃ target middle, Reads (readTier finish tierCount lexemes) target middle ∧
        (((nextToken middle).assignOp? = none ∧ .expr target = stmt ∧ middle = rest) ∨
        ∃ sign more op, middle = sign :: more ∧ sign.token.assignOp? = some op ∧
          ∃ place, target.place? = .ok place ∧
            ∃ value, Reads (readTier finish tierCount more) value rest ∧
              .assign place op value (target.span.union value.span) = stmt) := by
  rw [readAction]
  refine reads_bind fun target middle within => ?_
  cases middle with
  | nil =>
      simp [Remaining.relax, Remaining.next?, Remaining.map, nextToken, Token.assignOp?]
  | cons next more =>
      simp only [Remaining.relax, Remaining.next?, nextToken_cons]
      cases assigns : next.token.assignOp? with
      | none => simp [Remaining.map, assigns]
      | some op =>
          have several : some op ≠ none := by simp
          simp only [several, false_and, false_or]
          rw [reads_bind_value (P := fun place =>
            ∃ value, Reads (readTier finish tierCount more) value rest ∧
              .assign place op value (target.span.union value.span) = stmt)]
          · grind
          · intro place
            exact reads_bind_pure (fun value =>
              Stmt.assign place op value (target.span.union value.span)) fun _ _ _ => ⟨rfl, rfl⟩

theorem reads_readStmt_of_definition {opener : Lexeme} {stmt : Stmt}
    (defines : opener.token = .kwLet ∨ opener.token = .kwConst) :
    Reads (readStmt finish (opener :: lexemes)) stmt rest ↔
      Reads (readDefinition finish opener.span lexemes) stmt rest := by
  rw [readStmt, if_pos defines,
    reads_bind_pure id fun _ _ _ => ⟨rfl, rfl⟩]
  simp only [id, exists_eq_right]

theorem reads_readStmt_of_action {stmt : Stmt} (undefined : nextToken lexemes ≠ .kwLet)
    (inconstant : nextToken lexemes ≠ .kwConst) :
    Reads (readStmt finish lexemes) stmt rest ↔
      Reads (readAction finish lexemes) stmt rest := by
  cases lexemes with
  | nil => rw [readStmt]
  | cons next more =>
      rw [nextToken_cons] at undefined inconstant
      rw [readStmt, if_neg (not_or.mpr ⟨undefined, inconstant⟩)]

theorem requireDone_eq_ok : requireDone finish lexemes = .ok () ↔ nextToken lexemes = .eof := by
  cases lexemes with
  | nil => exact iff_of_true rfl rfl
  | cons next more =>
      simp only [requireDone, nextToken_cons]
      split
      · simp [*]
      · simp [*, malformed]

theorem read_done_eq_ok {α : Type} {bound : Nat}
    {reading : Reading (Remaining Lexeme bound α)} {value : α} :
    (do let remaining ← reading
        requireDone finish remaining.rest
        pure remaining.value) = .ok value ↔
      ∃ rest, Reads reading value rest ∧ nextToken rest = .eof := by
  cases reading with
  | error problem => simp [bind, Except.bind]
  | ok remaining =>
      have done := @requireDone_eq_ok finish remaining.rest
      cases ended : requireDone finish remaining.rest with
      | error problem => simp [bind, Except.bind, ended]; grind
      | ok _ => simp [bind, Except.bind, ended, pure, Except.pure]; grind

theorem exprOfLexemes_eq_ok {payload : Span} {expr : Expr} :
    Expr.ofLexemes payload lexemes = .ok expr ↔
      ∃ rest, Reads (readTier (endOf payload) tierCount lexemes) expr rest ∧
        nextToken rest = .eof :=
  read_done_eq_ok

theorem stmtOfLexemes_eq_ok {payload : Span} {stmt : Stmt} :
    Stmt.ofLexemes payload lexemes = .ok stmt ↔
      ∃ rest, Reads (readStmt (endOf payload) lexemes) stmt rest ∧ nextToken rest = .eof :=
  read_done_eq_ok

end EntityScript
