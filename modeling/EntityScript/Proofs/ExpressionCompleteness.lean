import EntityScript.Proofs.ExpressionSoundness

/-!
Whatever is spelled is read.  How far the reader of an expression goes depends on what follows:
that must not join what binds more tightly than the place of the expression permits.
-/

namespace EntityScript

open Source (Span)
open Phrase (Spelled)

/-- Whether a token may carry on what is read where nothing binds more loosely than a limit. -/
def Token.joins (limit : Nat) (token : Token) : Bool :=
  match token with
  | .leftParen | .doubleColon => true
  | .dot => 1 ≤ limit
  | _ => token.binaryOp?.any (·.tier + 2 < limit)

namespace Token

variable {limit : Nat} {token : Token}

theorem joins_mono {more : Nat} (within : limit ≤ more) (stops : token.joins more = false) :
    token.joins limit = false := by
  unfold joins at stops ⊢
  split at stops
  · cases stops
  · cases stops
  · simp only [decide_eq_false_iff_not] at stops ⊢
    omega
  · cases joined : token.binaryOp? with
    | none => rfl
    | some op =>
        simp only [joined, Option.any_some, decide_eq_false_iff_not] at stops ⊢
        omega

theorem ne_leftParen_of_joins (stops : token.joins limit = false) : token ≠ .leftParen := by
  rintro rfl
  cases stops

theorem ne_doubleColon_of_joins (stops : token.joins limit = false) : token ≠ .doubleColon := by
  rintro rfl
  cases stops

theorem ne_dot_of_joins (stops : token.joins (limit + 1) = false) : token ≠ .dot := by
  rintro rfl
  simp [joins] at stops

theorem operatorOf?_of_joins {tier : Nat} (stops : token.joins (tier + 3) = false) :
    token.operatorOf? tier = none := by
  cases joined : token.operatorOf? tier with
  | none => rfl
  | some op =>
      obtain ⟨rfl, rfl⟩ := operatorOf?_eq_some.mp joined
      cases op <;> cases stops

theorem joins_operator (op : BinaryOp) : op.token.joins (op.tier + 2) = false := by
  cases op <;> rfl

theorem joins_assignment (op : AssignOp) : op.token.joins limit = false := by
  cases op <;> rfl

end Token

section Read

variable {finish : Span} {expr : Expr} {part rest : List Lexeme}

/-- Behind the lexemes of an expression its reader goes on with whatever follows that does
not join what binds more tightly than the limit. -/
def GoesOn (finish : Span) (limit : Nat) (expr : Expr) (part : List Lexeme) : Prop :=
  match limit with
  | 0 => ∀ rest whole last, (nextToken rest).joins 0 = false →
      Reads (readAccesses finish expr rest) whole last →
      Reads (readPostfix finish (part ++ rest)) whole last
  | 1 => ∀ rest, (nextToken rest).joins 1 = false →
      Reads (readUnary finish (part ++ rest)) expr rest
  | tier + 2 => ∀ rest whole last, (nextToken rest).joins (tier + 2) = false →
      Reads (readOperands finish tier expr rest) whole last →
      Reads (readTier finish (tier + 1) (part ++ rest)) whole last

namespace GoesOn

/-- Where the reader goes on with nothing, it has read the expression. -/
theorem reads {tier : Nat} (goes : GoesOn finish (tier + 1) expr part)
    (stops : (nextToken rest).joins (tier + 2) = false) :
    Reads (readTier finish tier (part ++ rest)) expr rest := by
  cases tier with
  | zero =>
      rw [readTier]
      exact goes rest (Token.joins_mono (by decide) stops)
  | succ tier =>
      apply goes rest expr rest (Token.joins_mono (Nat.le_succ _) stops)
      exact (reads_readOperands_of_none (Token.operatorOf?_of_joins stops)).mpr ⟨rfl, rfl⟩

theorem succ {limit : Nat} (goes : GoesOn finish (limit + 1) expr part) :
    GoesOn finish (limit + 2) expr part := by
  intro rest whole last stops further
  exact reads_readTier_succ.mpr ⟨expr, rest, goes.reads stops, further⟩

theorem mono {limit more : Nat} (within : limit ≤ more)
    (goes : GoesOn finish (limit + 1) expr part) : GoesOn finish (more + 1) expr part := by
  induction within with
  | refl => exact goes
  | step _ inductionHypothesis => exact inductionHypothesis.succ

/-- What starts with neither a sign nor a negation goes on in any place. -/
theorem of_tight {limit : Nat} {whole : Expr} {tokens : List Token}
    (spelled : Spelled (.one 0 whole) tokens) (lexed : part.map (·.token) = tokens)
    (goes : GoesOn finish 0 expr part) : GoesOn finish limit expr part := by
  cases limit with
  | zero => exact goes
  | succ limit =>
      refine GoesOn.mono (Nat.zero_le limit) ?_
      intro rest stops
      obtain ⟨_, _, started, _, plain⟩ := spelled.starts
      obtain ⟨first, more, rfl, rfl, _⟩ := List.map_eq_cons_iff.mp (lexed.trans started)
      have unsigned : (nextToken (first :: (more ++ rest))).unaryOp? = none := plain rfl
      apply (reads_readUnary_of_none unsigned).mpr
      apply goes rest expr rest (Token.joins_mono (Nat.zero_le 1) stops)
      exact (reads_readAccesses_of_other (Token.ne_dot_of_joins stops)).mpr ⟨rfl, rfl⟩

end GoesOn

/-- The lexemes are read as the phrase. -/
def Phrase.ReadFrom (finish : Span) (part : List Lexeme) : Phrase → Prop
  | .one limit expr => ∃ read, read.bare = expr.bare ∧ GoesOn finish limit read part
  | .several arguments => ∃ read, bareAll read = bareAll arguments ∧
      ∀ closing rest, closing.token = .rightParen →
        Reads (readArguments finish (part ++ closing :: rest)) (read, closing.span) rest ∧
        (arguments ≠ [] →
          Reads (readArgumentList finish (part ++ closing :: rest)) (read, closing.span) rest)

theorem goesOn_of_primary (primary : ∀ rest, (nextToken rest).joins 0 = false →
    Reads (readPrimary finish (part ++ rest)) expr rest) : GoesOn finish 0 expr part := by
  intro rest whole last stops further
  exact reads_readPostfix.mpr ⟨expr, rest, primary rest stops, further⟩

theorem Lexeme.atom?_of_token? {lexeme : Lexeme} (single : expr.token? = some lexeme.token)
    (unnamed : ¬∃ name, lexeme.token = .name name) :
    ∃ read, lexeme.atom? = some read ∧ read.bare = expr.bare := by
  obtain ⟨token, span⟩ := lexeme
  unfold Expr.token? at single
  split at single <;> cases single
  all_goals first
    | exact ⟨_, rfl, rfl⟩
    | exact absurd ⟨_, rfl⟩ unnamed

theorem Expr.read_of_token? {lexeme : Lexeme} (single : expr.token? = some lexeme.token) :
    ∃ read, read.bare = expr.bare ∧ ∀ rest, (nextToken rest).joins 0 = false →
      Reads (readPrimary finish (lexeme :: rest)) read rest := by
  by_cases named : ∃ name, lexeme.token = .name name
  · obtain ⟨name, named⟩ := named
    refine ⟨.ident name lexeme.span, ?_, ?_⟩
    · unfold token? at single
      rw [named] at single
      split at single <;> cases single
      rfl
    · intro rest stops
      refine reads_readPrimary.mpr ⟨lexeme, rest, rfl, .inr (.inr (.inr ⟨name, named, ?_⟩))⟩
      exact (reads_readNamed_of_other (Token.ne_doubleColon_of_joins stops)
        (Token.ne_leftParen_of_joins stops)).mpr ⟨rfl, rfl⟩
  · obtain ⟨read, atom, bare⟩ := Lexeme.atom?_of_token? single named
    exact ⟨read, bare, fun rest _ =>
      reads_readPrimary.mpr ⟨lexeme, rest, rfl, .inl ⟨atom, rfl⟩⟩⟩

theorem grouped_lexed {tokens : List Token} (lexed : part.map (·.token) = grouped tokens) :
    ∃ opening between closing, part = opening :: (between ++ [closing]) ∧
      opening.token = .leftParen ∧ between.map (·.token) = tokens ∧
        closing.token = .rightParen := by
  obtain ⟨opening, within, rfl, opens, more⟩ := List.map_eq_cons_iff.mp lexed
  obtain ⟨between, closed, rfl, listed, closed⟩ := List.map_eq_append_iff.mp more
  obtain ⟨closing, rfl, closes⟩ := List.map_eq_singleton_iff.mp closed
  exact ⟨opening, between, closing, rfl, opens, listed, closes⟩

theorem Phrase.Spelled.starts_lexed {limit : Nat} {tokens : List Token}
    (spelled : Spelled (.one limit expr) tokens) (lexed : part.map (·.token) = tokens) :
    nextToken (part ++ rest) ≠ .rightParen := by
  obtain ⟨first, more, started, opens, _⟩ := spelled.starts
  obtain ⟨lexeme, more, rfl, rfl, _⟩ := List.map_eq_cons_iff.mp (lexed.trans started)
  intro closes
  rw [List.cons_append, nextToken_cons] at closes
  rw [closes] at opens
  cases opens

/-! ### The forms of an expression -/

namespace GoesOn

section Operators

variable {left right : Expr} {before behind : List Lexeme} {sign : Lexeme}

theorem unary {op : UnaryOp} (signs : sign.token = op.token) (goes : GoesOn finish 1 right behind) :
    GoesOn finish 1 (.unary op right (sign.span.union right.span)) (sign :: behind) := by
  intro rest stops
  have found : sign.token.unaryOp? = some op := signs ▸ op.unaryOp?_token
  exact (reads_readUnary_of_some found).mpr ⟨right, goes rest stops, rfl⟩

/-- The right operand is read a tier below, where the operator of the tier does not go on. -/
theorem binary {op : BinaryOp} (joins : sign.token = op.token)
    (goes : GoesOn finish (op.tier + 2) left before)
    (goesRight : GoesOn finish (op.tier + 1) right behind) :
    GoesOn finish (op.tier + 2) (.binary op left right (left.span.union right.span))
      (before ++ sign :: behind) := by
  intro rest whole last stops further
  rw [List.append_assoc]
  apply goes
  · rw [List.cons_append, nextToken_cons, joins]
    exact Token.joins_operator op
  · have found : sign.token.operatorOf? op.tier = some op :=
      Token.operatorOf?_eq_some.mpr ⟨joins, rfl⟩
    exact (reads_readOperands_of_some found).mpr ⟨right, rest, goesRight.reads stops, further⟩

end Operators

section Accesses

variable {object : Expr} {arguments : List Expr} {before between : List Lexeme}
  {dot word opening closing : Lexeme} {name : String}

theorem field (accesses : dot.token = .dot) (found : word.token = .name name)
    (goes : GoesOn finish 0 object before) :
    GoesOn finish 0 (.field object name (object.span.union word.span)) (before ++ [dot, word]) := by
  intro rest whole last stops further
  rw [List.append_assoc]
  apply goes
  · rw [List.cons_append, nextToken_cons, accesses]
    rfl
  · exact (reads_readAccesses_of_dot accesses).mpr ⟨(name, word.span), rest,
      reads_requireName.mpr ⟨word, rfl, found, rfl⟩,
      .inl ⟨Token.ne_leftParen_of_joins stops, further⟩⟩

theorem method (accesses : dot.token = .dot) (found : word.token = .name name)
    (opens : opening.token = .leftParen) (goes : GoesOn finish 0 object before)
    (ends : ∀ rest, Reads (readArguments finish (between ++ closing :: rest))
      (arguments, closing.span) rest) :
    GoesOn finish 0 (.method object name arguments (object.span.union word.span))
      (before ++ dot :: word :: opening :: (between ++ [closing])) := by
  intro rest whole last _ further
  rw [List.append_assoc]
  apply goes
  · rw [List.cons_append, nextToken_cons, accesses]
    rfl
  · rw [List.cons_append, List.cons_append, List.cons_append, List.append_assoc]
    exact (reads_readAccesses_of_dot accesses).mpr ⟨(name, word.span), _,
      reads_requireName.mpr ⟨word, rfl, found, rfl⟩,
      .inr ⟨opening, _, rfl, opens, (arguments, closing.span), rest, ends rest, further⟩⟩

end Accesses

section Operands

variable {arguments : List Expr} {between : List Lexeme} {name : String}
  {word opening closing comma colons inner : Lexeme}

theorem group (opens : opening.token = .leftParen) (closes : closing.token = .rightParen)
    (goes : GoesOn finish loosest expr between) :
    GoesOn finish 0 expr (opening :: (between ++ [closing])) := by
  refine goesOn_of_primary fun rest _ => ?_
  rw [List.cons_append, List.append_assoc]
  refine reads_readPrimary.mpr ⟨opening, _, rfl, .inr (.inl ⟨opens, closing, ?_, closes⟩)⟩
  apply goes.reads
  rw [List.singleton_append, nextToken_cons, closes]
  rfl

theorem spawn {type : String} {spawner : Lexeme} (spawns : spawner.token = .kwSpawn)
    (opens : opening.token = .leftParen) (found : word.token = .name type)
    (closes : closing.token = .rightParen) :
    GoesOn finish 0 (.spawn type [] (spawner.span.union closing.span))
      [spawner, opening, word, closing] := by
  refine goesOn_of_primary fun rest _ => ?_
  refine reads_readPrimary.mpr ⟨spawner, _, rfl, .inr (.inr (.inl ⟨spawns, ?_⟩))⟩
  exact reads_readSpawn.mpr ⟨opening.span, _,
    reads_requireToken.mpr ⟨opening, rfl, opens, rfl⟩, (type, word.span), _,
    reads_requireName.mpr ⟨word, rfl, found, rfl⟩, closing, _, rfl,
    .inl ⟨closes, rfl, rfl⟩⟩

theorem spawnWith {type : String} {spawner : Lexeme} (spawns : spawner.token = .kwSpawn)
    (opens : opening.token = .leftParen) (found : word.token = .name type)
    (separates : comma.token = .comma)
    (ends : ∀ rest, Reads (readArguments finish (between ++ closing :: rest))
      (arguments, closing.span) rest) :
    GoesOn finish 0 (.spawn type arguments (spawner.span.union closing.span))
      (spawner :: opening :: (word :: comma :: between ++ [closing])) := by
  refine goesOn_of_primary fun rest _ => ?_
  rw [List.cons_append, List.cons_append, List.append_assoc]
  refine reads_readPrimary.mpr ⟨spawner, _, rfl, .inr (.inr (.inl ⟨spawns, ?_⟩))⟩
  exact reads_readSpawn.mpr ⟨opening.span, _,
    reads_requireToken.mpr ⟨opening, rfl, opens, rfl⟩, (type, word.span), _,
    reads_requireName.mpr ⟨word, rfl, found, rfl⟩, comma, _, rfl,
    .inr ⟨separates, (arguments, closing.span), ends rest, rfl⟩⟩

theorem call (found : word.token = .name name) (opens : opening.token = .leftParen)
    (ends : ∀ rest, Reads (readArguments finish (between ++ closing :: rest))
      (arguments, closing.span) rest) :
    GoesOn finish 0 (.call name arguments (word.span.union closing.span))
      (word :: opening :: (between ++ [closing])) := by
  refine goesOn_of_primary fun rest _ => ?_
  rw [List.cons_append, List.cons_append, List.append_assoc]
  refine reads_readPrimary.mpr ⟨word, _, rfl, .inr (.inr (.inr ⟨name, found, ?_⟩))⟩
  exact (reads_readNamed_of_leftParen opens).mpr ⟨(arguments, closing.span), ends rest, rfl⟩

theorem member {library : String} (found : word.token = .name library)
    (qualifies : colons.token = .doubleColon) (foundInner : inner.token = .name name) :
    GoesOn finish 0 (.member library name none (word.span.union inner.span))
      [word, colons, inner] := by
  refine goesOn_of_primary fun rest stops => ?_
  refine reads_readPrimary.mpr ⟨word, _, rfl, .inr (.inr (.inr ⟨library, found, ?_⟩))⟩
  exact (reads_readNamed_of_doubleColon qualifies).mpr ⟨(name, inner.span), rest,
    reads_requireName.mpr ⟨inner, rfl, foundInner, rfl⟩,
    .inl ⟨Token.ne_leftParen_of_joins stops, rfl, rfl⟩⟩

theorem memberCall {library : String} (found : word.token = .name library)
    (qualifies : colons.token = .doubleColon) (foundInner : inner.token = .name name)
    (opens : opening.token = .leftParen)
    (ends : ∀ rest, Reads (readArguments finish (between ++ closing :: rest))
      (arguments, closing.span) rest) :
    GoesOn finish 0 (.member library name (some arguments) (word.span.union closing.span))
      (word :: colons :: inner :: opening :: (between ++ [closing])) := by
  refine goesOn_of_primary fun rest _ => ?_
  rw [List.cons_append, List.cons_append, List.cons_append, List.cons_append, List.append_assoc]
  refine reads_readPrimary.mpr ⟨word, _, rfl, .inr (.inr (.inr ⟨library, found, ?_⟩))⟩
  exact (reads_readNamed_of_doubleColon qualifies).mpr ⟨(name, inner.span), _,
    reads_requireName.mpr ⟨inner, rfl, foundInner, rfl⟩,
    .inr ⟨opening, _, rfl, opens, (arguments, closing.span), ends rest, rfl⟩⟩

end Operands

end GoesOn

section Arguments

variable {arguments : List Expr} {closing comma : Lexeme}

/-- The last argument is read up to the parenthesis behind it. -/
theorem reads_lastArgument (goes : GoesOn finish loosest expr part)
    (closes : closing.token = .rightParen) (rest : List Lexeme) :
    Reads (readArgumentList finish (part ++ closing :: rest)) ([expr], closing.span) rest := by
  refine reads_readArgumentList.mpr ⟨expr, _, goes.reads ?_, closing, rest, rfl,
    .inl ⟨closes, rfl, rfl⟩⟩
  rw [nextToken_cons, closes]
  rfl

/-- An argument is read up to the comma behind it. -/
theorem reads_moreArguments {behind : List Lexeme} (goes : GoesOn finish loosest expr part)
    (separates : comma.token = .comma)
    (further : Reads (readArgumentList finish behind) (arguments, closing.span) rest) :
    Reads (readArgumentList finish (part ++ comma :: behind))
      (expr :: arguments, closing.span) rest := by
  refine reads_readArgumentList.mpr ⟨expr, _, goes.reads ?_, comma, _, rfl,
    .inr ⟨separates, _, further, rfl⟩⟩
  rw [nextToken_cons, separates]
  rfl

end Arguments

/-- Whatever is spelled is read, wherever it stands. -/
theorem readFrom_of_spelled {phrase : Phrase} {tokens : List Token}
    (spelled : phrase.Spelled tokens) {part : List Lexeme}
    (lexed : part.map (·.token) = tokens) : phrase.ReadFrom finish part := by
  induction spelled generalizing part with
  | single single =>
      obtain ⟨lexeme, rfl, rfl⟩ := List.map_eq_singleton_iff.mp lexed
      obtain ⟨read, bare, reads⟩ := Expr.read_of_token? single
      exact ⟨read, bare, GoesOn.of_tight (.single single) lexed (goesOn_of_primary reads)⟩
  | group spelled inner =>
      obtain ⟨opening, between, closing, rfl, opens, enclosed, closes⟩ := grouped_lexed lexed
      obtain ⟨read, bare, goes⟩ := inner enclosed
      exact ⟨read, bare, GoesOn.of_tight (.group spelled) lexed (.group opens closes goes)⟩
  | unary signed spelled inner =>
      obtain ⟨sign, part, rfl, found, lexed⟩ := List.map_eq_cons_iff.mp lexed
      obtain ⟨read, bare, goes⟩ := inner lexed
      obtain ⟨limit, rfl⟩ := Nat.exists_eq_add_of_le' signed
      exact ⟨_, by simp [Expr.bare, bare], .mono (Nat.zero_le limit) (.unary found goes)⟩
  | @binary limit op left right span before behind joined spelled spelled' first second =>
      obtain ⟨part, more, rfl, lexed', signed⟩ := List.map_eq_append_iff.mp lexed
      obtain ⟨sign, part', rfl, found, lexed''⟩ := List.map_eq_cons_iff.mp signed
      obtain ⟨left, bare, goes⟩ := first lexed'
      obtain ⟨right, bare', goes'⟩ := second lexed''
      obtain ⟨limit, rfl⟩ := Nat.exists_eq_add_of_le' joined
      exact ⟨_, by simp [Expr.bare, bare, bare'],
        .mono (Nat.le_add_left (op.tier + 1) limit) (.binary found goes goes')⟩
  | @field limit object name span tokens spelled inner =>
      obtain ⟨part, more, rfl, lexed', accessed⟩ := List.map_eq_append_iff.mp lexed
      obtain ⟨dot, more, rfl, accesses, accessed⟩ := List.map_eq_cons_iff.mp accessed
      obtain ⟨word, rfl, found⟩ := List.map_eq_singleton_iff.mp accessed
      obtain ⟨read, bare, goes⟩ := inner lexed'
      exact ⟨_, by simp [Expr.bare, bare],
        GoesOn.of_tight (@Spelled.field 0 _ _ span _ spelled) lexed (.field accesses found goes)⟩
  | @method limit object name arguments span tokens between spelled listed inner inner' =>
      obtain ⟨part, more, rfl, lexed', accessed⟩ := List.map_eq_append_iff.mp lexed
      obtain ⟨dot, more, rfl, accesses, accessed⟩ := List.map_eq_cons_iff.mp accessed
      obtain ⟨word, more, rfl, found, called⟩ := List.map_eq_cons_iff.mp accessed
      obtain ⟨opening, between, closing, rfl, opens, enclosed, closes⟩ := grouped_lexed called
      obtain ⟨read, bare, goes⟩ := inner lexed'
      obtain ⟨readAll, bareAll, ends⟩ := inner' enclosed
      exact ⟨_, by simp [Expr.bare, bare, bareAll],
        GoesOn.of_tight (@Spelled.method 0 _ _ _ span _ _ spelled listed) lexed
          (.method accesses found opens goes fun rest => (ends closing rest closes).1)⟩
  | @spawn limit type span =>
      obtain ⟨spawner, more, rfl, spawns, lexed'⟩ := List.map_eq_cons_iff.mp lexed
      obtain ⟨opening, within, closing, rfl, opens, enclosed, closes⟩ := grouped_lexed lexed'
      obtain ⟨word, rfl, found⟩ := List.map_eq_singleton_iff.mp enclosed
      exact ⟨.spawn type [] (spawner.span.union closing.span), rfl,
        GoesOn.of_tight (@Spelled.spawn 0 _ span) lexed (.spawn spawns opens found closes)⟩
  | @spawnWith limit type arguments span between listed inner =>
      obtain ⟨spawner, more, rfl, spawns, lexed'⟩ := List.map_eq_cons_iff.mp lexed
      obtain ⟨opening, within, closing, rfl, opens, enclosed, closes⟩ := grouped_lexed lexed'
      obtain ⟨word, more, rfl, found, separated⟩ := List.map_eq_cons_iff.mp enclosed
      obtain ⟨comma, between, rfl, separates, lexed''⟩ := List.map_eq_cons_iff.mp separated
      obtain ⟨read, bare, ends⟩ := inner lexed''
      exact ⟨_, by simp [Expr.bare, bare],
        GoesOn.of_tight (@Spelled.spawnWith 0 _ _ span _ listed) lexed
          (.spawnWith spawns opens found separates fun rest => (ends closing rest closes).1)⟩
  | @call limit name arguments span between listed inner =>
      obtain ⟨word, more, rfl, found, lexed'⟩ := List.map_eq_cons_iff.mp lexed
      obtain ⟨opening, between, closing, rfl, opens, enclosed, closes⟩ := grouped_lexed lexed'
      obtain ⟨read, bare, ends⟩ := inner enclosed
      exact ⟨_, by simp [Expr.bare, bare],
        GoesOn.of_tight (@Spelled.call 0 _ _ span _ listed) lexed
          (.call found opens fun rest => (ends closing rest closes).1)⟩
  | @member limit library name span =>
      obtain ⟨word, more, rfl, found, lexed'⟩ := List.map_eq_cons_iff.mp lexed
      obtain ⟨colons, more, rfl, qualifies, lexed''⟩ := List.map_eq_cons_iff.mp lexed'
      obtain ⟨inner, rfl, found'⟩ := List.map_eq_singleton_iff.mp lexed''
      exact ⟨.member library name none (word.span.union inner.span), rfl,
        GoesOn.of_tight (@Spelled.member 0 _ _ span) lexed (.member found qualifies found')⟩
  | @memberCall limit library name arguments span between listed inner =>
      obtain ⟨word, more, rfl, found, lexed'⟩ := List.map_eq_cons_iff.mp lexed
      obtain ⟨colons, more, rfl, qualifies, lexed''⟩ := List.map_eq_cons_iff.mp lexed'
      obtain ⟨member, more, rfl, found', called⟩ := List.map_eq_cons_iff.mp lexed''
      obtain ⟨opening, between, closing, rfl, opens, enclosed, closes⟩ := grouped_lexed called
      obtain ⟨read, bare, ends⟩ := inner enclosed
      exact ⟨_, by simp [Expr.bare, bare],
        GoesOn.of_tight (@Spelled.memberCall 0 _ _ _ span _ listed) lexed
          (.memberCall found qualifies found' opens fun rest => (ends closing rest closes).1)⟩
  | noArguments =>
      obtain rfl := List.map_eq_nil_iff.mp lexed
      refine ⟨[], rfl, fun closing rest closes => ⟨?_, fun several => absurd rfl several⟩⟩
      exact (reads_readArguments_of_closing closes).mpr ⟨rfl, rfl⟩
  | lastArgument spelled inner =>
      obtain ⟨read, bare, goes⟩ := inner lexed
      refine ⟨[read], by simp [bareAll, bare], fun closing rest closes => ?_⟩
      have listed := reads_lastArgument goes closes rest
      exact ⟨(reads_readArguments_of_other (spelled.starts_lexed lexed)).mpr listed,
        fun _ => listed⟩
  | moreArguments spelled _ first more =>
      obtain ⟨part, others, rfl, lexed', separated⟩ := List.map_eq_append_iff.mp lexed
      obtain ⟨comma, part', rfl, separates, lexed''⟩ := List.map_eq_cons_iff.mp separated
      obtain ⟨read, bare, goes⟩ := first lexed'
      obtain ⟨readAll, bare', ends⟩ := more lexed''
      refine ⟨read :: readAll, by simp [bareAll, bare, bare'], fun closing rest closes => ?_⟩
      rw [List.append_assoc]
      have listed := reads_moreArguments goes separates
        ((ends closing rest closes).2 (List.cons_ne_nil _ _))
      exact ⟨(reads_readArguments_of_other (spelled.starts_lexed lexed')).mpr listed,
        fun _ => listed⟩

end Read

end EntityScript
