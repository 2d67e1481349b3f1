import EntityScript.Expr.Printer

/-!
The spellings of an expression: its printing, and whatever comes about when any of its parts
are put in parentheses that are not needed.
-/

namespace EntityScript

/-- The one token that an expression without parts stands for. -/
def Expr.token? : Expr → Option Token
  | .number value _ => some (.number value)
  | .text content _ => some (.text content)
  | .bool true _ => some .kwTrue
  | .bool false _ => some .kwFalse
  | .unset _ => some .kwUnset
  | .this _ => some .kwThis
  | .ident name _ => some (.name name)
  | _ => none

/-- What tokens may spell: an expression, in a place where nothing may bind more loosely than
a limit, or what stands between the parentheses of a call. -/
inductive Phrase where
  | one (limit : Nat) (expr : Expr)
  | several (arguments : List Expr)

namespace Phrase

/-- The tokens are the phrase, in parentheses wherever these are needed and anywhere else they
happen to be.  A list of arguments that is empty may still have its comma behind what is
spawned. -/
inductive Spelled : Phrase → List Token → Prop where
  | single {limit expr token} : expr.token? = some token → Spelled (.one limit expr) [token]
  | group {limit expr tokens} : Spelled (.one loosest expr) tokens →
      Spelled (.one limit expr) (grouped tokens)
  | unary {limit op operand span tokens} : 1 ≤ limit → Spelled (.one 1 operand) tokens →
      Spelled (.one limit (.unary op operand span)) (op.token :: tokens)
  | binary {limit op left right span before behind} : op.tier + 2 ≤ limit →
      Spelled (.one (op.tier + 2) left) before → Spelled (.one (op.tier + 1) right) behind →
      Spelled (.one limit (.binary op left right span)) (before ++ op.token :: behind)
  | field {limit object name span tokens} : Spelled (.one 0 object) tokens →
      Spelled (.one limit (.field object name span)) (tokens ++ [.dot, .name name])
  | method {limit object name arguments span tokens between} :
      Spelled (.one 0 object) tokens → Spelled (.several arguments) between →
      Spelled (.one limit (.method object name arguments span))
        (tokens ++ .dot :: .name name :: grouped between)
  | spawn {limit type span} :
      Spelled (.one limit (.spawn type [] span)) (.kwSpawn :: grouped [.name type])
  | spawnWith {limit type arguments span between} : Spelled (.several arguments) between →
      Spelled (.one limit (.spawn type arguments span))
        (.kwSpawn :: grouped (.name type :: .comma :: between))
  | call {limit name arguments span between} : Spelled (.several arguments) between →
      Spelled (.one limit (.call name arguments span)) (.name name :: grouped between)
  | member {limit library name span} :
      Spelled (.one limit (.member library name none span))
        [.name library, .doubleColon, .name name]
  | memberCall {limit library name arguments span between} :
      Spelled (.several arguments) between →
      Spelled (.one limit (.member library name (some arguments) span))
        (.name library :: .doubleColon :: .name name :: grouped between)
  | noArguments : Spelled (.several []) []
  | lastArgument {expr tokens} : Spelled (.one loosest expr) tokens →
      Spelled (.several [expr]) tokens
  | moreArguments {expr next rest tokens behind} : Spelled (.one loosest expr) tokens →
      Spelled (.several (next :: rest)) behind →
      Spelled (.several (expr :: next :: rest)) (tokens ++ .comma :: behind)

variable {limit : Nat} {expr : Expr} {tokens : List Token}

/-- What is an expression in one place is one wherever something may bind more loosely. -/
theorem Spelled.mono {more : Nat} (within : limit ≤ more)
    (spelled : Spelled (.one limit expr) tokens) : Spelled (.one more expr) tokens := by
  cases spelled with
  | single token => exact .single token
  | group inner => exact .group inner
  | unary signed operand => exact .unary (Nat.le_trans signed within) operand
  | binary joined left right => exact .binary (Nat.le_trans joined within) left right
  | field object => exact .field object
  | method object arguments => exact .method object arguments
  | spawn => exact .spawn
  | spawnWith arguments => exact .spawnWith arguments
  | call arguments => exact .call arguments
  | member => exact .member
  | memberCall arguments => exact .memberCall arguments

def unresolved : Phrase → Bool
  | .one _ expr => expr.unresolved
  | .several arguments => allUnresolved arguments

def bare : Phrase → Phrase
  | .one limit expr => .one limit expr.bare
  | .several arguments => .several (bareAll arguments)

/-- Only what is referred to by name has spellings. -/
theorem Spelled.unresolved {phrase : Phrase} (spelled : phrase.Spelled tokens) :
    phrase.unresolved = true := by
  induction spelled with
  | @single limit expr token single =>
      unfold Expr.token? at single
      split at single <;> first | rfl | cases single
  | _ => simp_all [Phrase.unresolved, Expr.unresolved, allUnresolved]

/-- Positions do not matter. -/
theorem Spelled.bare {phrase : Phrase} (spelled : phrase.Spelled tokens) :
    phrase.bare.Spelled tokens := by
  induction spelled with
  | @single limit expr token single =>
      refine .single ?_
      cases expr with
      | bool value span => rcases value with _ | _ <;> exact single
      | number | text | unset | this | ident => exact single
      | _ => cases single
  | group _ inner => exact .group inner
  | unary signed _ operand => exact .unary signed operand
  | binary joined _ _ left right => exact .binary joined left right
  | field _ object => exact .field object
  | method _ _ object arguments => exact .method object arguments
  | spawn => exact .spawn
  | spawnWith _ arguments => exact .spawnWith arguments
  | call _ arguments => exact .call arguments
  | member => exact .member
  | memberCall _ arguments => exact .memberCall arguments
  | noArguments => exact .noArguments
  | lastArgument _ last => exact .lastArgument last
  | moreArguments _ _ first more => exact .moreArguments first more

end Phrase

/-- Whether an expression may start with the token. -/
def Token.opensExpr : Token → Bool
  | .number _ | .text _ | .name _ | .kwTrue | .kwFalse | .kwUnset | .kwThis | .kwSpawn => true
  | .leftParen | .minus | .bang => true
  | _ => false

theorem Expr.opensExpr_of_token? {expr : Expr} {token : Token}
    (single : expr.token? = some token) : token.opensExpr = true ∧ token.unaryOp? = none := by
  unfold Expr.token? at single
  split at single <;> cases single <;> exact ⟨rfl, rfl⟩

namespace Phrase

/-- An expression starts with a sign or a negation only where one may stand. -/
theorem Spelled.starts {limit : Nat} {expr : Expr} {tokens : List Token} :
    Spelled (.one limit expr) tokens →
      ∃ first more, tokens = first :: more ∧ first.opensExpr = true ∧
        (limit = 0 → first.unaryOp? = none)
  | .single token => ⟨_, [], rfl, (Expr.opensExpr_of_token? token).imp_right fun plain _ => plain⟩
  | .group _ => ⟨_, _, rfl, rfl, fun _ => rfl⟩
  | @Spelled.unary _ op _ _ _ signed _ =>
      ⟨_, _, rfl, by cases op <;> rfl, fun tight => absurd (tight ▸ signed) (by decide)⟩
  | .binary joined left _ => by
      obtain ⟨first, more, rfl, opens, _⟩ := left.starts
      exact ⟨first, _, rfl, opens, fun tight => absurd (tight ▸ joined) (Nat.not_succ_le_zero _)⟩
  | .field object => by
      obtain ⟨first, more, rfl, opens, plain⟩ := object.starts
      exact ⟨first, _, rfl, opens, fun _ => plain rfl⟩
  | .method object _ => by
      obtain ⟨first, more, rfl, opens, plain⟩ := object.starts
      exact ⟨first, _, rfl, opens, fun _ => plain rfl⟩
  | .spawn | .spawnWith _ | .call _ | .member | .memberCall _ =>
      ⟨_, _, rfl, rfl, fun _ => rfl⟩

end Phrase

theorem BinaryOp.tier_add_two_le (op : BinaryOp) : op.tier + 2 ≤ loosest := by
  cases op <;> decide

namespace Expr

theorem spelled_groupedIf {limit : Nat} {expr : Expr} {tokens : List Token} {needed : Bool}
    (tight : needed = false → (Phrase.one limit expr).Spelled tokens)
    (loose : needed = true → (Phrase.one loosest expr).Spelled tokens) :
    (Phrase.one limit expr).Spelled (groupedIf needed tokens) := by
  cases needed with
  | false => exact tight rfl
  | true => exact .group (loose rfl)

mutual

/-- Printing is one way to spell. -/
theorem spelled_print (expr : Expr) {limit : Nat} (unresolved : expr.unresolved = true) :
    (Phrase.one limit expr).Spelled (expr.print limit) := by
  cases expr with
  | number | text | unset | this | ident => rw [print]; exact .single rfl
  | bool value span => cases value <;> (rw [print]; exact .single rfl)
  | binary op left right span =>
      rw [Expr.unresolved, Bool.and_eq_true] at unresolved
      rw [print]
      have joined {limit : Nat} (loose : op.tier + 2 ≤ limit) :
          (Phrase.one limit (.binary op left right span)).Spelled
            (left.print (op.tier + 2) ++ op.token :: right.print (op.tier + 1)) :=
        .binary loose (spelled_print left unresolved.1) (spelled_print right unresolved.2)
      apply spelled_groupedIf
      · intro tight
        exact joined (Nat.le_of_not_lt (of_decide_eq_false tight))
      · intro _
        exact joined op.tier_add_two_le
  | unary op operand span =>
      rw [print]
      have signed {limit : Nat} (loose : 1 ≤ limit) :
          (Phrase.one limit (.unary op operand span)).Spelled (op.token :: operand.print 1) :=
        .unary loose (spelled_print operand unresolved)
      apply spelled_groupedIf
      · intro tight
        exact signed (Nat.le_of_not_lt (of_decide_eq_false tight))
      · intro _
        exact signed (Nat.le_add_left 1 tierCount)
  | field object name span => rw [print]; exact .field (spelled_print object unresolved)
  | method object name arguments span =>
      rw [Expr.unresolved, Bool.and_eq_true] at unresolved
      rw [print]
      exact .method (spelled_print object unresolved.1) (spelled_printAll arguments unresolved.2)
  | spawn type arguments span =>
      cases arguments with
      | nil => rw [print]; exact .spawn
      | cons first rest =>
          rw [print]
          exact .spawnWith (spelled_printAll (first :: rest) unresolved)
  | call name arguments span => rw [print]; exact .call (spelled_printAll arguments unresolved)
  | member library name arguments span =>
      cases arguments with
      | none => rw [print]; exact .member
      | some arguments => rw [print]; exact .memberCall (spelled_printAll arguments unresolved)
  | builtin | global => cases unresolved

theorem spelled_printAll (arguments : List Expr)
    (unresolved : allUnresolved arguments = true) :
    (Phrase.several arguments).Spelled (printAll arguments) := by
  match arguments with
  | [] => exact .noArguments
  | [expr] =>
      rw [allUnresolved, Bool.and_eq_true] at unresolved
      rw [printAll]
      exact .lastArgument (spelled_print expr unresolved.1)
  | expr :: next :: rest =>
      rw [allUnresolved, Bool.and_eq_true] at unresolved
      rw [printAll]
      exact .moreArguments (spelled_print expr unresolved.1)
        (spelled_printAll (next :: rest) unresolved.2)

end

theorem sublist_grouped (tokens : List Token) : tokens.Sublist (grouped tokens) :=
  (List.sublist_append_left tokens _).cons _

theorem grouped_sublist_grouped {tokens more : List Token} (within : tokens.Sublist more) :
    (grouped tokens).Sublist (grouped more) :=
  (within.append (List.Sublist.refl _)).cons_cons _

theorem print_of_token? {limit : Nat} {expr : Expr} {token : Token}
    (single : expr.token? = some token) : expr.print limit = [token] := by
  unfold token? at single
  split at single <;> cases single <;> rw [print]

theorem print_sublist_grouped (expr : Expr) (limit : Nat) :
    (expr.print limit).Sublist (grouped (expr.print loosest)) := by
  have groupedIf_sublist (needed : Bool) (tokens : List Token) :
      (groupedIf needed tokens).Sublist (grouped (groupedIf false tokens)) := by
    cases needed with
    | false => exact sublist_grouped tokens
    | true => exact List.Sublist.refl _
  cases expr with
  | binary op left right span =>
      have loose : decide (loosest < op.tier + 2) = false :=
        decide_eq_false (Nat.not_lt_of_le op.tier_add_two_le)
      rw [print, print, loose]
      exact groupedIf_sublist _ _
  | unary op operand span =>
      rw [print, print]
      exact groupedIf_sublist _ _
  | bool value => cases value <;> exact sublist_grouped _
  | spawn type arguments => cases arguments <;> exact sublist_grouped _
  | member library name arguments => cases arguments <;> exact sublist_grouped _
  | _ => exact sublist_grouped _

end Expr

namespace Phrase

def print : Phrase → List Token
  | .one limit expr => expr.print limit
  | .several arguments => Expr.printAll arguments

/-- Printing has only the tokens that every spelling has. -/
theorem Spelled.print_sublist {phrase : Phrase} {tokens : List Token}
    (spelled : phrase.Spelled tokens) : phrase.print.Sublist tokens := by
  induction spelled with
  | @single limit expr token single =>
      have printed : expr.print limit = [token] := Expr.print_of_token? single
      exact printed ▸ List.Sublist.refl _
  | @group limit expr tokens _ inner =>
      exact (Expr.print_sublist_grouped expr limit).trans (Expr.grouped_sublist_grouped inner)
  | @unary limit op operand span tokens signed _ operand' =>
      have tight : decide (limit < 1) = false := decide_eq_false (Nat.not_lt_of_le signed)
      rw [print, Expr.print, tight]
      exact operand'.cons_cons _
  | @binary limit op left right span before behind joined _ _ left' right' =>
      have tight : decide (limit < op.tier + 2) = false := decide_eq_false (Nat.not_lt_of_le joined)
      rw [print, Expr.print, tight]
      exact left'.append (right'.cons_cons _)
  | field _ object =>
      rw [print, Expr.print]
      exact object.append (List.Sublist.refl _)
  | method _ _ object arguments =>
      rw [print, Expr.print]
      exact object.append (((Expr.grouped_sublist_grouped arguments).cons_cons _).cons_cons _)
  | spawn => simp only [print, Expr.print, List.Sublist.refl]
  | @spawnWith limit type arguments span between _ inner =>
      rw [print]
      cases arguments with
      | nil =>
          rw [Expr.print]
          have inner : [.name type].Sublist (.name type :: .comma :: between) :=
            (List.nil_sublist _).cons_cons _
          exact (Expr.grouped_sublist_grouped inner).cons_cons _
      | cons =>
          rw [Expr.print]
          exact (Expr.grouped_sublist_grouped ((inner.cons_cons _).cons_cons _)).cons_cons _
  | call _ arguments =>
      rw [print, Expr.print]
      exact (Expr.grouped_sublist_grouped arguments).cons_cons _
  | member => simp only [print, Expr.print, List.Sublist.refl]
  | memberCall _ arguments =>
      rw [print, Expr.print]
      exact (((Expr.grouped_sublist_grouped arguments).cons_cons _).cons_cons _).cons_cons _
  | noArguments => exact .slnil
  | lastArgument _ last => exact last
  | moreArguments _ _ first more => exact first.append (more.cons_cons _)

end Phrase

end EntityScript
