import EntityScript.Proofs.Printing
import EntityScript.Proofs.UnitRefilling

/-!
Where payloads end.  The readers of blocks cut payloads at words and signs, without reading them;
the readers of expressions and statements know nothing of blocks.  They agree all the same: what is
an expression or a statement by itself is the payload of whatever place it is put into.  Only where
a loop starts counting the word `to` ends the payload, though it might be the name of a variable.
-/

namespace EntityScript

open Source (Span)

/-- The tokens do not end a payload, wherever in it they are, and leave its parentheses as they
are. -/
structure SelfContained (tokens : List Token) : Prop where
  inside : ∀ token ∈ tokens, token.inStatement = true
  depth : ∀ depth, depthBehind depth tokens = depth

/-- Whether the token can be one of a statement and is not a parenthesis. -/
def Token.isPlain (token : Token) : Bool :=
  token.inStatement && !(token = .leftParen || token = .rightParen)

namespace SelfContained

variable {tokens others : List Token}

theorem nil : SelfContained [] := ⟨nofun, fun _ => rfl⟩

theorem append (contained : SelfContained tokens) (contained' : SelfContained others) :
    SelfContained (tokens ++ others) := by
  refine ⟨List.forall_mem_append.mpr ⟨contained.inside, contained'.inside⟩, fun depth => ?_⟩
  rw [depthBehind, List.foldl_append]
  exact (congrArg (depthBehind · others) (contained.depth depth)).trans (contained'.depth depth)

theorem cons {token : Token} (plain : token.isPlain = true) (contained : SelfContained tokens) :
    SelfContained (token :: tokens) := by
  rw [Token.isPlain, Bool.and_eq_true] at plain
  refine ⟨List.forall_mem_cons.mpr ⟨plain.1, contained.inside⟩, fun depth => ?_⟩
  have level : token.depthAfter depth = depth := by
    cases token <;> first | rfl | cases plain.2
  rw [depthBehind, List.foldl_cons, level]
  exact contained.depth depth

theorem grouped (contained : SelfContained tokens) : SelfContained (grouped tokens) := by
  refine ⟨?_, fun depth => ?_⟩
  · simp only [EntityScript.grouped, List.cons_append, List.forall_mem_cons,
      List.forall_mem_append]
    exact ⟨rfl, contained.inside, rfl, nofun⟩
  · have inner := contained.depth (depth + 1)
    rw [depthBehind] at inner
    rw [depthBehind, EntityScript.grouped, List.cons_append, List.foldl_cons, List.foldl_append,
      Token.depthAfter, inner]
    rfl

theorem staysClear (contained : SelfContained tokens) {depth : Nat} :
    staysClear statementStops depth tokens = true := by
  have inside := contained.inside
  clear contained
  induction tokens generalizing depth with
  | nil => rfl
  | cons token rest inductionHypothesis =>
      obtain ⟨here, others⟩ := List.forall_mem_cons.mp inside
      rw [Token.inStatement, Bool.not_eq_true', Bool.or_eq_false_iff, decide_eq_false_iff_not]
        at here
      exact staysClear_cons.mpr ⟨⟨here.1, fun _ => here.2⟩, inductionHypothesis others⟩

end SelfContained

theorem BinaryOp.isPlain_token (op : BinaryOp) : op.token.isPlain = true := by cases op <;> rfl

theorem UnaryOp.isPlain_token (op : UnaryOp) : op.token.isPlain = true := by cases op <;> rfl

theorem AssignOp.isPlain_token (op : AssignOp) : op.token.isPlain = true := by cases op <;> rfl

theorem Expr.isPlain_of_token? {expr : Expr} {token : Token} (single : expr.token? = some token) :
    token.isPlain = true := by
  unfold token? at single
  split at single <;> cases single <;> rfl

theorem Phrase.Spelled.selfContained {phrase : Phrase} {tokens : List Token}
    (spelled : phrase.Spelled tokens) : SelfContained tokens := by
  induction spelled with
  | single single => exact .cons (Expr.isPlain_of_token? single) .nil
  | group _ inner => exact inner.grouped
  | @unary _ op _ _ _ _ _ operand => exact operand.cons op.isPlain_token
  | @binary _ op _ _ _ _ _ _ _ _ left right => exact left.append (right.cons op.isPlain_token)
  | field _ object => exact object.append (.cons rfl (.cons rfl .nil))
  | method _ _ object arguments => exact object.append (.cons rfl (.cons rfl arguments.grouped))
  | spawn => exact .cons rfl (SelfContained.nil.cons rfl).grouped
  | spawnWith _ arguments => exact .cons rfl ((arguments.cons rfl).cons rfl).grouped
  | call _ arguments => exact arguments.grouped.cons rfl
  | member => exact .cons rfl (.cons rfl (.cons rfl .nil))
  | memberCall _ arguments => exact ((arguments.grouped.cons rfl).cons rfl).cons rfl
  | noArguments => exact .nil
  | lastArgument _ last => exact last
  | moreArguments _ _ first more => exact first.append (more.cons rfl)

theorem Stmt.Spelled.selfContained {stmt : Stmt} {tokens : List Token}
    (spelled : stmt.Spelled tokens) : SelfContained tokens := by
  cases spelled with
  | @define keyword name _ _ _ defines value =>
      have plain : keyword.isPlain = true := by rcases defines with rfl | rfl <;> rfl
      exact .cons plain (.cons rfl (.cons rfl value.selfContained))
  | @assign _ op _ _ _ _ target value =>
      exact target.selfContained.append (value.selfContained.cons op.isPlain_token)
  | expr value => exact value.selfContained

/-- The lexemes are those of an expression, or of a statement that fits on a line. -/
def Legible (lexemes : List Lexeme) : Prop :=
  (∃ payload expr, Expr.ofLexemes payload lexemes = .ok expr) ∨
    ∃ payload stmt, Stmt.ofLexemes payload lexemes = .ok stmt

theorem Legible.selfContained {lexemes : List Lexeme} (legible : Legible lexemes)
    (unended : ∀ lexeme ∈ lexemes, lexeme.token ≠ .eof) :
    SelfContained (lexemes.map (·.token)) := by
  -- Nothing but the end of the text could be left over.
  have done {tokens : List Token} {rest : List Lexeme} (taken : Takes lexemes tokens rest)
      (ends : nextToken rest = .eof) : lexemes.map (·.token) = tokens := by
    cases rest with
    | nil => simpa [Takes] using taken
    | cons next more =>
        have among : Token.eof ∈ lexemes.map (·.token) := by
          have ends : next.token = .eof := ends
          rw [taken, List.map_cons, ends]
          simp
        obtain ⟨lexeme, one, found⟩ := List.mem_map.mp among
        exact absurd found (unended lexeme one)
  rcases legible with ⟨payload, expr, accepted⟩ | ⟨payload, stmt, accepted⟩
  · obtain ⟨rest, reads, ends⟩ := exprOfLexemes_eq_ok.mp accepted
    obtain ⟨tokens, taken, spelled⟩ := spelled_of_readTier reads
    rw [done taken ends]
    exact spelled.selfContained
  · obtain ⟨rest, reads, ends⟩ := stmtOfLexemes_eq_ok.mp accepted
    obtain ⟨tokens, taken, spelled⟩ := Stmt.spelled_of_readStmt reads
    rw [done taken ends]
    exact spelled.selfContained

theorem staysClear_cons_stops {stop : Token} {stops : List Token} {depth : Nat}
    {tokens : List Token} :
    staysClear (stop :: stops) depth tokens = true ↔
      staysClear [stop] depth tokens = true ∧ staysClear stops depth tokens = true := by
  induction tokens generalizing depth with
  | nil => simp [staysClear]
  | cons token rest inductionHypothesis =>
      rw [staysClear_cons, staysClear_cons, staysClear_cons, inductionHypothesis, List.mem_cons,
        List.mem_singleton, not_or]
      grind

/-- What is an expression or a statement by itself may be put where any payload stands, unless it
has a bare `to` in front of a `to`. -/
theorem Legible.replaces {first : Lexeme} {more : List Lexeme} (legible : Legible (first :: more))
    (unended : ∀ lexeme ∈ first :: more, lexeme.token ≠ .eof) (old : Payload) {slots : List Slot}
    (bounded : slots.head? = some (.word (.name "to")) →
      staysClear [.name "to"] 0 ((first :: more).map (·.token)) = true) :
    (Payload.of first more).Replaces (stopsBefore slots) old := by
  have contained := legible.selfContained unended
  have clear : staysClear (stopsBefore slots) 0 ((first :: more).map (·.token)) = true := by
    cases slots with
    | nil => exact contained.staysClear
    | cons slot slots =>
        rw [stopsBefore]
        split
        next found => exact staysClear_cons_stops.mpr ⟨bounded (by rw [found]; rfl),
          contained.staysClear⟩
        next => exact contained.staysClear
  exact ⟨⟨first, more, rfl⟩, fun fewer within _ => staysClear_mono within clear,
    fun _ => contained.depth 0⟩

/-- In whatever place of a unit a payload stands, an expression or a statement put there instead is
delivered as the payload, and all else stays as it is: a condition, the start or the bound of a
loop, an initializer or a statement.  The start of a loop may have no `to` outside parentheses. -/
theorem Declaration.payload_delivered {lexemes : List Lexeme} {final : Lexeme}
    {declarations : List Declaration} (ends : final.token = .eof)
    (only : ∀ lexeme ∈ lexemes, lexeme.token ≠ .eof)
    (accepted : Declaration.ofLexemes (lexemes ++ [final]) = .ok declarations) :
    ∃ account : Account, account.Explains lexemes final declarations ∧
      ∀ (before after : Account) (old : Payload) (part : List Lexeme) (first : Lexeme)
        (more : List Lexeme), account = before ++ (.payload old, part) :: after →
        Legible (first :: more) → (∀ lexeme ∈ first :: more, lexeme.token ≠ .eof) →
        (after.slots.head? = some (.word (.name "to")) →
          staysClear [.name "to"] 0 ((first :: more).map (·.token)) = true) →
        ∃ items : List Item,
          linesOf (items.map Item.slots) =
            before.slots ++ .payload (Payload.of first more) :: after.slots ∧
          Declaration.ofLexemes
              (before.lexemes ++ (first :: more) ++ after.lexemes ++ [final]) =
            .ok (items.map Item.declaration) := by
  have : Std.Refl fun _ _ : Payload => True := ⟨fun _ => trivial⟩
  obtain ⟨account, items, explains, _, _, again⟩ :=
    exists_refillable (R := fun _ _ => True) ends only accepted
  refine ⟨account, explains, ?_⟩
  rintro before after old part first more rfl legible unended bounded
  have refills : Refills (fun _ _ => True) (before ++ (.payload old, part) :: after)
      (before ++ (.payload (Payload.of first more), first :: more) :: after) :=
    .prepend before (.payload trivial (legible.replaces unended old bounded) (.refl after))
  obtain ⟨items', _, slots, reads⟩ := again _ refills
  refine ⟨items', by simpa [Account.slots] using slots.symm, ?_⟩
  simpa [Account.lexemes] using reads [final] ends

/-- `main -> loop i from … to n -> end end`, with its positions. -/
def loopFrom (start : List Lexeme) : List Lexeme :=
  [⟨.name "main", ⟨0, 4, 1⟩⟩, ⟨.arrow, ⟨5, 7, 1⟩⟩, ⟨.kwLoop, ⟨8, 12, 1⟩⟩, ⟨.name "i", ⟨13, 14, 1⟩⟩,
    ⟨.name "from", ⟨15, 19, 1⟩⟩] ++ start ++
  [⟨.name "to", ⟨26, 28, 1⟩⟩, ⟨.name "n", ⟨29, 30, 1⟩⟩, ⟨.arrow, ⟨31, 33, 1⟩⟩,
    ⟨.kwEnd, ⟨34, 37, 1⟩⟩, ⟨.kwEnd, ⟨38, 41, 1⟩⟩]

/-- A `to` inside parentheses does not end the start of a loop. -/
theorem callInLoop_delivered :
    let call : List Lexeme := [⟨.leftParen, ⟨21, 22, 1⟩⟩, ⟨.name "to", ⟨22, 24, 1⟩⟩,
      ⟨.rightParen, ⟨24, 25, 1⟩⟩]
    ∃ declarations, Declaration.ofLexemes
        (loopFrom [⟨.name "a", ⟨20, 21, 1⟩⟩] ++ [⟨.eof, ⟨41, 41, 1⟩⟩]) = .ok declarations ∧
      ∃ (before after : Account) (part : List Lexeme),
        Account.Explains
          (before ++ (.payload (Payload.of ⟨.name "a", ⟨20, 21, 1⟩⟩ []), part) :: after)
          (loopFrom [⟨.name "a", ⟨20, 21, 1⟩⟩]) ⟨.eof, ⟨41, 41, 1⟩⟩ declarations ∧
        ∃ items : List Item,
          linesOf (items.map Item.slots) = before.slots ++
            .payload (Payload.of ⟨.name "f", ⟨20, 21, 1⟩⟩ call) :: after.slots ∧
          Declaration.ofLexemes (before.lexemes ++ (⟨.name "f", ⟨20, 21, 1⟩⟩ :: call) ++
            after.lexemes ++ [⟨.eof, ⟨41, 41, 1⟩⟩]) = .ok (items.map Item.declaration) := by
  intro call
  have laid : (Declaration.ofLexemes (loopFrom [⟨.name "a", ⟨20, 21, 1⟩⟩] ++
        [⟨.eof, ⟨41, 41, 1⟩⟩])).toOption.map slotsInOrder =
      some [[.opening (.name "main"), .word .arrow, .terminators, .opening .kwLoop,
        .word (.name "i"), .word (.name "from"), .payload (Payload.of ⟨.name "a", ⟨20, 21, 1⟩⟩ []),
        .word (.name "to"), .payload (Payload.of ⟨.name "n", ⟨29, 30, 1⟩⟩ []), .word .arrow,
        .terminators, .closing ⟨8, 37, 1⟩, .terminators, .closing ⟨0, 41, 1⟩]] := by
    decide +kernel
  cases accepted : Declaration.ofLexemes
      (loopFrom [⟨.name "a", ⟨20, 21, 1⟩⟩] ++ [⟨.eof, ⟨41, 41, 1⟩⟩]) with
  | error problem =>
      rw [accepted] at laid
      cases laid
  | ok declarations =>
      rw [accepted] at laid
      obtain ⟨account, explains, delivered⟩ :=
        Declaration.payload_delivered rfl (by decide) accepted
      have split : account.slots = [Slot.terminators, .opening (.name "main"), .word .arrow,
          .terminators, .opening .kwLoop, .word (.name "i"), .word (.name "from")] ++
          .payload (Payload.of ⟨.name "a", ⟨20, 21, 1⟩⟩ []) :: [Slot.word (.name "to"),
          .payload (Payload.of ⟨.name "n", ⟨29, 30, 1⟩⟩ []), .word .arrow, .terminators,
          .closing ⟨8, 37, 1⟩, .terminators, .closing ⟨0, 41, 1⟩, .terminators] := by
        rw [explains.slots_of_increasing (by decide)]
        exact congrArg linesOf (Option.some.inj laid)
      obtain ⟨before, _, rfl, _, behind⟩ := List.map_eq_append_iff.mp split
      obtain ⟨⟨_, part⟩, after, rfl, rfl, _⟩ := List.map_eq_cons_iff.mp behind
      have legible : Legible (⟨.name "f", ⟨20, 21, 1⟩⟩ :: call) :=
        .inl ⟨.none, .call "f" [.ident "to" ⟨22, 24, 1⟩] ⟨20, 25, 1⟩, by cbv⟩
      exact ⟨declarations, rfl, before, after, part, explains,
        delivered before after _ part _ _ rfl legible (by decide) fun _ => by decide⟩

/-- A bare `to` in front of it ends the start of a loop at once, though `to` alone is an expression
and the loop may start from any other variable. -/
theorem bareTo_undelivered :
    Legible [⟨.name "to", ⟨20, 22, 1⟩⟩] ∧
    (Declaration.ofLexemes
      (loopFrom [⟨.name "a", ⟨20, 21, 1⟩⟩] ++ [⟨.eof, ⟨41, 41, 1⟩⟩])).toOption.isSome = true ∧
    Declaration.ofLexemes (loopFrom [⟨.name "to", ⟨20, 22, 1⟩⟩] ++ [⟨.eof, ⟨41, 41, 1⟩⟩]) =
      .error ⟨.structural (.missingPayload .loopStart), ⟨20, 22, 1⟩⟩ :=
  ⟨.inl ⟨.none, .ident "to" ⟨20, 22, 1⟩, by cbv⟩, by decide +kernel, by cbv⟩

end EntityScript
