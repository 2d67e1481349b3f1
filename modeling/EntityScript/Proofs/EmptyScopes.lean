import EntityScript.Proofs.Expressions

/-!
Empty scopes.  A scope without names, anywhere around the innermost one, makes no difference: no
expression has another value because of it, and no statement puts a name into it, as those define
names in the innermost scope and assign to names that there are.
-/

namespace EntityScript

open Script

/-- The padded scopes, from the inside out, are the scopes with an empty one more, inside of which
there are so many. -/
inductive PaddedScopes : Nat → List (Bindings Value) → List (Bindings Value) → Prop
  | here {scope outer} : PaddedScopes 0 (scope :: outer) (.empty :: scope :: outer)
  | inside {depth scope scopes padded} : PaddedScopes depth scopes padded →
      PaddedScopes (depth + 1) (scope :: scopes) (scope :: padded)

/-- The padded frame is the frame with an empty scope more, inside of which there are so many. -/
structure Frame.Padded (depth : Nat) (frame padded : Frame) : Prop where
  receiver : padded.receiver = frame.receiver
  scopes : PaddedScopes depth frame.scopes padded.scopes

namespace PaddedScopes

variable {depth : Nat} {scopes padded : List (Bindings Value)}

theorem lookupIn (pads : PaddedScopes depth scopes padded) (name : String) :
    Frame.lookupIn name padded = Frame.lookupIn name scopes := by
  induction pads with
  | here => rfl
  | inside _ inductionHypothesis =>
      rw [Frame.lookupIn, Frame.lookupIn, inductionHypothesis]

theorem assignIn (pads : PaddedScopes depth scopes padded) (name : String) (value : Value) :
    PaddedScopes depth (Frame.assignIn name value scopes) (Frame.assignIn name value padded) := by
  induction pads with
  | @here scope outer =>
      -- The empty scope has no name to be assigned to.
      change PaddedScopes 0 _ (.empty :: Frame.assignIn name value (scope :: outer))
      rw [Frame.assignIn]
      split <;> exact .here
  | @inside _ scope _ _ pads inductionHypothesis =>
      rw [Frame.assignIn, Frame.assignIn]
      by_cases bound : scope.contains name = true
      · rw [if_pos bound, if_pos bound]
        exact .inside pads
      · rw [if_neg bound, if_neg bound]
        exact .inside inductionHypothesis

end PaddedScopes

namespace Frame.Padded

variable {depth : Nat} {frame padded : Frame}

theorem lookup? (pads : frame.Padded depth padded) (name : String) :
    padded.lookup? name = frame.lookup? name :=
  pads.scopes.lookupIn name

theorem lookup (pads : frame.Padded depth padded) (name : String) :
    padded.lookup name = frame.lookup name := by
  rw [Frame.lookup, Frame.lookup, pads.lookup?]

theorem this (pads : frame.Padded depth padded) : padded.this = frame.this := by
  rw [Frame.this, Frame.this, pads.receiver]

theorem root (pads : frame.Padded depth padded) (start : PlaceRoot) :
    padded.root start = frame.root start := by
  cases start with
  | ident name => exact pads.lookup name
  | this => exact pads.this

theorem assign (pads : frame.Padded depth padded) (name : String) (value : Value) :
    (frame.assign name value).Padded depth (padded.assign name value) where
  receiver := by rw [receiver_assign, receiver_assign, pads.receiver]
  scopes := by
    rw [scopes_assign, scopes_assign]
    exact pads.scopes.assignIn name value

/-- A name is defined in the innermost scope, which is not the empty one if there is a scope
inside of that. -/
theorem define (pads : frame.Padded (depth + 1) padded) (name : String) (value : Value) :
    (frame.define name value).Padded (depth + 1) (padded.define name value) := by
  obtain ⟨receiver, innermost, outer⟩ := frame
  obtain ⟨receiver', innermost', outer'⟩ := padded
  obtain ⟨received, pads⟩ := pads
  cases pads with
  | inside pads => exact ⟨received, .inside pads⟩

theorem push (pads : frame.Padded depth padded) : frame.push.Padded (depth + 1) padded.push where
  receiver := pads.receiver
  scopes := .inside pads.scopes

theorem pop (pads : frame.Padded (depth + 1) padded) : frame.pop.Padded depth padded.pop := by
  obtain ⟨receiver, innermost, outer⟩ := frame
  obtain ⟨receiver', innermost', outer'⟩ := padded
  obtain ⟨received, pads⟩ := pads
  cases pads with
  | inside pads =>
      cases pads with
      | here => exact ⟨received, .here⟩
      | inside pads => exact ⟨received, .inside pads⟩

/-- A new scope is an empty one. -/
theorem pushed (frame : Frame) : frame.Padded 0 frame.push := ⟨rfl, .here⟩

/-- Without the empty scope the padded frame is the frame. -/
theorem pop_eq (pads : frame.Padded 0 padded) : padded.pop = frame := by
  obtain ⟨receiver, innermost, outer⟩ := frame
  obtain ⟨receiver', innermost', outer'⟩ := padded
  obtain ⟨received, pads⟩ := pads
  change PaddedScopes 0 (innermost :: outer) (innermost' :: outer') at pads
  cases pads
  cases received
  rfl

end Frame.Padded

/-- Both are in the same world, and the second one in the padded frame. -/
structure Activation.Padded (depth : Nat) (activation padded : Activation) : Prop where
  world : padded.world = activation.world
  frame : activation.frame.Padded depth padded.frame

/-- Two computations have come to the same end, in states that are related. -/
inductive Outcome.Alike {σ α : Type} (related : σ → σ → Prop) : Outcome σ α → Outcome σ α → Prop
  | returned {value state other} :
      related state other → Alike related (.returned value state) (.returned value other)
  | raised {error state other} :
      related state other → Alike related (.raised error state) (.raised error other)
  | endless : Alike related .endless .endless

namespace Script

variable {α β : Type} {depth : Nat}

/-- From padded activations the computation goes as from those without the empty scope, and leaves
this scope as it is. -/
def Overlooks (depth : Nat) (script : Script Activation α) : Prop :=
  ∀ activation padded, Activation.Padded depth activation padded →
    (script activation).Alike (Activation.Padded depth) (script padded)

theorem overlooks_pure (value : α) : Overlooks depth (pure value : Script Activation α) :=
  fun _ _ pads => .returned pads

theorem overlooks_raise (error : ScriptError) :
    Overlooks depth (raise error : Script Activation α) :=
  fun _ _ pads => .raised pads

theorem overlooks_endless : Overlooks depth (endless : Script Activation α) :=
  fun _ _ _ => .endless

theorem overlooks_ofAttempt (attempt : Attempt α) :
    Overlooks depth (ofAttempt attempt : Script Activation α) := by
  cases attempt with
  | ok value => exact overlooks_pure value
  | error error => exact overlooks_raise error

theorem overlooks_bind {script : Script Activation α} {next : α → Script Activation β}
    (first : Overlooks depth script) (rest : ∀ value, Overlooks depth (next value)) :
    Overlooks depth (script >>= next) := by
  intro activation padded pads
  have alike := first activation padded pads
  rw [bind_eq, bind_eq]
  revert alike
  generalize script activation = outcome
  generalize script padded = other
  intro alike
  cases alike with
  | returned pads => exact rest _ _ _ pads
  | raised pads => exact .raised pads
  | endless => exact .endless

theorem overlooks_changeFrame {change : Frame → Frame}
    (kept : ∀ {frame padded : Frame}, frame.Padded depth padded →
      (change frame).Padded depth (change padded)) :
    Overlooks depth (changeFrame change) :=
  fun _ _ pads => .returned ⟨pads.world, kept pads.frame⟩

/-- What reads the frame only by what it looks up goes alike. -/
theorem overlooks_onWorld {script : Frame → Script World α}
    (same : ∀ {frame padded : Frame}, frame.Padded depth padded → script padded = script frame) :
    Overlooks depth (onWorld script) := by
  intro activation padded pads
  unfold onWorld
  dsimp only
  rw [pads.world, same pads.frame]
  cases script activation.frame activation.world with
  | returned value after => exact .returned ⟨rfl, pads.frame⟩
  | raised error after => exact .raised ⟨rfl, pads.frame⟩
  | endless => exact .endless

theorem withScope_eq (script : Script Activation α) (activation : Activation) :
    withScope script activation =
      andThen script (fun _ activation => { activation with frame := activation.frame.pop })
        { activation with frame := activation.frame.push } :=
  rfl

/-- In a new scope the empty one is one scope further out. -/
theorem overlooks_withScope {script : Script Activation α}
    (inside : Overlooks (depth + 1) script) : Overlooks depth (withScope script) := by
  intro activation padded pads
  have alike := inside { activation with frame := activation.frame.push }
    { padded with frame := padded.frame.push } ⟨pads.world, pads.frame.push⟩
  rw [withScope_eq, withScope_eq]
  unfold andThen
  revert alike
  generalize script { activation with frame := activation.frame.push } = outcome
  generalize script { padded with frame := padded.frame.push } = other
  intro alike
  cases alike with
  | returned pads => exact .returned ⟨pads.world, pads.frame.pop⟩
  | raised pads => exact .raised ⟨pads.world, pads.frame.pop⟩
  | endless => exact .endless

theorem overlooks_readPlace (place : Place) : Overlooks depth (readPlace place) := by
  apply overlooks_onWorld
  intro frame padded pads
  rw [pads.root]

theorem overlooks_writePlace (place : Place) (value : Value) :
    Overlooks depth (writePlace place value) := by
  obtain ⟨start, fields⟩ := place
  cases start with
  | this =>
      cases fields with
      | nil => exact overlooks_raise _
      | cons field rest =>
          apply overlooks_bind
          · apply overlooks_onWorld
            intro frame padded pads
            rw [pads.root]
          · intro updated
            exact overlooks_pure _
  | ident name =>
      cases fields with
      | nil =>
          apply overlooks_bind
          · apply overlooks_onWorld
            intro frame padded pads
            rw [pads.lookup]
          · intro old
            exact overlooks_changeFrame fun pads => pads.assign name value
      | cons field rest =>
          apply overlooks_bind
          · apply overlooks_onWorld
            intro frame padded pads
            rw [pads.root]
          · intro updated
            exact overlooks_changeFrame fun pads => pads.assign name updated

theorem overlooks_countRounds {body : Float → Script Activation Unit} (bound : Float)
    (round : ∀ count, Overlooks depth (body count)) :
    ∀ rounds counter, Overlooks depth (countRounds body bound rounds counter)
  | 0, _ => overlooks_endless
  | rounds + 1, counter => by
      by_cases below : counter < bound
      · rw [countRounds, if_pos below]
        apply overlooks_bind (round counter)
        intro _
        exact overlooks_countRounds bound round rounds (counter + 1)
      · rw [countRounds, if_neg below]
        exact overlooks_pure _

end Script

section Evaluation

variable (calls : Calls) {depth : Nat} {frame padded : Frame}

mutual

/-- The value of an expression depends on the frame by the receiver and the names it looks up. -/
theorem eval_padded (pads : frame.Padded depth padded) :
    ∀ expr, eval calls padded expr = eval calls frame expr
  | .number _ _ | .text _ _ | .bool _ _ | .unset _ | .call _ _ _ | .member _ _ _ _ => by
      simp only [eval]
  | .this _ => by
      rw [eval, eval, pads.this]
  | .ident name _ => by
      rw [eval, eval, pads.lookup]
  | .binary op left right _ => by
      cases op <;> simp only [eval, eval_padded pads left, eval_padded pads right]
  | .unary op operand _ => by
      rw [eval, eval, eval_padded pads operand]
  | .field object name _ => by
      rw [eval, eval, eval_padded pads object]
  | .method object name arguments _ => by
      rw [eval, eval, eval_padded pads object, evalAll_padded pads arguments]
  | .spawn type arguments _ => by
      rw [eval, eval, evalAll_padded pads arguments]
  | .builtin member arguments _ => by
      rw [eval, eval, evalAll_padded pads arguments]
  | .global function arguments _ => by
      rw [eval, eval, evalAll_padded pads arguments]

theorem evalAll_padded (pads : frame.Padded depth padded) :
    ∀ exprs, evalAll calls padded exprs = evalAll calls frame exprs
  | [] => by
      rw [evalAll, evalAll]
  | expr :: rest => by
      rw [evalAll, evalAll, eval_padded pads expr, evalAll_padded pads rest]

end

theorem overlooks_evaluate (expr : Expr) : Overlooks depth (evaluate calls expr) := by
  rw [evaluate_eq]
  exact overlooks_onWorld fun pads => eval_padded calls pads expr

/-- What a choice does when no condition holds. -/
def execElse : Option (List Stmt) → Script Activation Unit
  | none => pure ()
  | some block => execBlock calls block

theorem exec_choice (branches : List (Expr × List Stmt)) (otherwise : Option (List Stmt))
    (span : Source.Span) :
    exec calls (.choice branches otherwise span) = (do
      let taken ← execBranches calls branches
      if taken then pure () else execElse calls otherwise) := by
  cases otherwise with
  | none => simp only [exec, execElse, ite_self]
  | some block => rw [exec, execElse, execBlock]

variable {calls} in
theorem overlooks_choice_of_parts {branches : List (Expr × List Stmt)}
    {otherwise : Option (List Stmt)} (first : Overlooks depth (execBranches calls branches))
    (last : Overlooks depth (execElse calls otherwise)) (span : Source.Span) :
    Overlooks depth (exec calls (.choice branches otherwise span)) := by
  rw [exec_choice]
  apply overlooks_bind first
  intro taken
  cases taken with
  | true => exact overlooks_pure ()
  | false => exact last

mutual

/-- A statement may define a name, so that the empty scope must not be the innermost one. -/
theorem overlooks_exec : ∀ depth stmt, Overlooks (depth + 1) (exec calls stmt)
  | depth, .define name value _ => by
      rw [exec]
      apply overlooks_bind (overlooks_evaluate calls value)
      intro value
      exact overlooks_changeFrame fun pads => pads.define name value
  | depth, .assign target op value _ => by
      rw [exec]
      apply overlooks_bind (overlooks_evaluate calls value)
      intro value
      split
      · exact overlooks_writePlace target value
      · apply overlooks_bind (overlooks_readPlace target)
        intro current
        apply overlooks_bind (overlooks_ofAttempt _)
        intro combined
        exact overlooks_writePlace target combined
  | depth, .expr value => by
      rw [exec]
      apply overlooks_bind (overlooks_evaluate calls value)
      intro _
      exact overlooks_pure _
  | depth, .choice branches none _ => by
      apply overlooks_choice_of_parts (overlooks_execBranches (depth + 1) branches)
      exact overlooks_pure ()
  | depth, .choice branches (some otherwise) _ => by
      apply overlooks_choice_of_parts (overlooks_execBranches (depth + 1) branches)
      exact overlooks_withScope (overlooks_execAll (depth + 1) otherwise)
  | depth, .loop counter start bound body _ => by
      rw [exec]
      apply overlooks_bind (overlooks_evaluate calls start)
      intro start
      apply overlooks_bind (overlooks_ofAttempt _)
      intro first
      apply overlooks_bind (overlooks_evaluate calls bound)
      intro bound
      apply overlooks_bind (overlooks_ofAttempt _)
      intro last
      apply overlooks_countRounds
      intro count
      apply overlooks_withScope
      apply overlooks_bind (overlooks_changeFrame fun pads => pads.define counter _)
      intro _
      exact overlooks_withScope (overlooks_execAll (depth + 2) body)

theorem overlooks_execAll : ∀ depth stmts, Overlooks (depth + 1) (execAll calls stmts)
  | depth, [] => by
      rw [execAll]
      exact overlooks_pure _
  | depth, stmt :: rest => by
      rw [execAll]
      apply overlooks_bind (overlooks_exec depth stmt)
      intro _
      exact overlooks_execAll depth rest

/-- Bodies of branches run in scopes of their own, so that nothing here depends on where the empty
scope is. -/
theorem overlooks_execBranches : ∀ depth branches, Overlooks depth (execBranches calls branches)
  | depth, [] => by
      rw [execBranches]
      exact overlooks_pure _
  | depth, (condition, body) :: rest => by
      rw [execBranches]
      apply overlooks_bind (overlooks_evaluate calls condition)
      intro condition
      by_cases holds : condition.holds = true
      · rw [if_pos holds]
        apply overlooks_bind (overlooks_withScope (overlooks_execAll depth body))
        intro _
        exact overlooks_pure _
      · rw [if_neg holds]
        exact overlooks_execBranches depth rest

end

end Evaluation

/-- What overlooks an empty scope can as well run in a new one. -/
theorem withScope_of_overlooks {α : Type} {script : Script Activation α}
    (overlooks : Overlooks 0 script) : withScope script = script := by
  funext activation
  have alike := overlooks activation { activation with frame := activation.frame.push }
    ⟨rfl, .pushed activation.frame⟩
  rw [withScope_eq]
  unfold andThen
  revert alike
  generalize script { activation with frame := activation.frame.push } = padded
  generalize script activation = outcome
  intro alike
  -- The scope is gone afterwards, and it was all that made a difference.
  cases alike with
  | @returned value state other pads | @raised error state other pads =>
      obtain ⟨frame, world⟩ := state
      obtain ⟨paddedFrame, _⟩ := other
      obtain ⟨rfl, pads⟩ := pads
      dsimp only
      rw [pads.pop_eq]
  | endless => rfl

end EntityScript
