import EntityScript.Proofs.EmptyScopes

/-!
Choices.  A choice goes through its conditions in order until one holds, and then executes what
that condition guards.  The branches behind the first one might as well be a choice of their own in
the else part of the first one: the scope of this part is an empty one around them.
-/

namespace EntityScript

open Script

/-- How a choice comes out.  Each condition is evaluated in the world that the ones before it left,
and none of them behind the first that holds, fails or never ends.  Only the body that this one
guards is executed, or what is left for the case that none holds. -/
inductive Chooses (calls : Calls) (frame : Frame) (otherwise : Option (List Stmt)) :
    List (Expr × List Stmt) → World → Outcome Activation Unit → Prop
  | taken {condition body rest world value middle} :
      eval calls frame condition world = .returned value middle → value.holds = true →
      Chooses calls frame otherwise ((condition, body) :: rest) world
        (execBlock calls body ⟨frame, middle⟩)
  | passed {condition body rest world value middle outcome} :
      eval calls frame condition world = .returned value middle → value.holds = false →
      Chooses calls frame otherwise rest middle outcome →
      Chooses calls frame otherwise ((condition, body) :: rest) world outcome
  | fails {condition body rest world error middle} :
      eval calls frame condition world = .raised error middle →
      Chooses calls frame otherwise ((condition, body) :: rest) world
        (.raised error ⟨frame, middle⟩)
  | endless {condition body rest world} :
      eval calls frame condition world = .endless →
      Chooses calls frame otherwise ((condition, body) :: rest) world .endless
  | otherwise {block world} : otherwise = some block →
      Chooses calls frame otherwise [] world (execBlock calls block ⟨frame, world⟩)
  | nothing {world} : otherwise = none →
      Chooses calls frame otherwise [] world (.returned () ⟨frame, world⟩)

variable {calls : Calls}

/-- The first branch is taken, or the choice is that between the other ones. -/
theorem exec_choice_cons (condition : Expr) (body : List Stmt) (rest : List (Expr × List Stmt))
    (otherwise : Option (List Stmt)) (span inner : Source.Span) :
    exec calls (.choice ((condition, body) :: rest) otherwise span) = (do
      let value ← evaluate calls condition
      if value.holds then execBlock calls body else
        exec calls (.choice rest otherwise inner)) := by
  rw [exec_choice, execBranches, Script.bind_assoc]
  congr 1
  funext value
  by_cases holds : value.holds = true
  · rw [if_pos holds, if_pos holds, Script.bind_assoc]
    change (execBlock calls body >>= fun _ => pure ()) = _
    exact bind_pure_unit
  · rw [if_neg holds, if_neg holds, exec_choice]

theorem exec_choice_nil (otherwise : Option (List Stmt)) (span : Source.Span) :
    exec calls (.choice [] otherwise span) = execElse calls otherwise := by
  rw [exec_choice, execBranches]
  rfl

theorem overlooks_execElse {depth : Nat} :
    ∀ otherwise, Overlooks depth (execElse calls otherwise)
  | none => overlooks_pure ()
  | some block => overlooks_withScope (overlooks_execAll calls depth block)

/-- A choice defines no name itself, so that it does not matter which scope is the innermost. -/
theorem overlooks_choice {depth : Nat} (branches : List (Expr × List Stmt))
    (otherwise : Option (List Stmt)) (span : Source.Span) :
    Overlooks depth (exec calls (.choice branches otherwise span)) :=
  overlooks_choice_of_parts (overlooks_execBranches calls depth branches)
    (overlooks_execElse otherwise) span

theorem execBlock_choice (branches : List (Expr × List Stmt)) (otherwise : Option (List Stmt))
    (span : Source.Span) :
    execBlock calls [.choice branches otherwise span] =
      exec calls (.choice branches otherwise span) := by
  have alone : execAll calls [.choice branches otherwise span] =
      exec calls (.choice branches otherwise span) := by
    rw [execAll, execAll]
    exact bind_pure_unit
  rw [execBlock, alone]
  exact withScope_of_overlooks (overlooks_choice branches otherwise span)

theorem chooses_exec (otherwise : Option (List Stmt)) (span : Source.Span) (frame : Frame) :
    ∀ branches world, Chooses calls frame otherwise branches world
      (exec calls (.choice branches otherwise span) ⟨frame, world⟩)
  | [], world => by
      rw [exec_choice_nil]
      cases otherwise with
      | none => exact .nothing rfl
      | some block => exact .otherwise rfl
  | (condition, body) :: rest, world => by
      rw [exec_choice_cons condition body rest otherwise span span, bind_eq, evaluate_eq, onWorld]
      cases evaluated : eval calls frame condition world with
      | returned value middle =>
          dsimp only
          by_cases holds : value.holds = true
          · rw [if_pos holds]
            exact .taken evaluated holds
          · rw [if_neg holds]
            exact .passed evaluated (Bool.eq_false_iff.mpr holds)
              (chooses_exec otherwise span frame rest middle)
      | raised error middle => exact .fails evaluated
      | endless => exact .endless evaluated

theorem Chooses.exec_eq {otherwise : Option (List Stmt)} {frame : Frame}
    {branches : List (Expr × List Stmt)} {world : World} {outcome : Outcome Activation Unit}
    (chosen : Chooses calls frame otherwise branches world outcome) (span : Source.Span) :
    exec calls (.choice branches otherwise span) ⟨frame, world⟩ = outcome := by
  induction chosen with
  | taken evaluated holds =>
      rw [exec_choice_cons _ _ _ _ span span, bind_eq, evaluate_eq, onWorld, evaluated]
      dsimp only
      rw [if_pos holds]
  | passed evaluated holds _ inductionHypothesis =>
      rw [exec_choice_cons _ _ _ _ span span, bind_eq, evaluate_eq, onWorld, evaluated]
      dsimp only
      rw [if_neg (Bool.eq_false_iff.mp holds)]
      exact inductionHypothesis
  | fails evaluated | endless evaluated =>
      rw [exec_choice_cons _ _ _ _ span span, bind_eq, evaluate_eq, onWorld, evaluated]
  | otherwise found =>
      rw [exec_choice_nil, found, execElse]
  | nothing absent =>
      rw [exec_choice_nil, absent, execElse]
      rfl

/-- A choice with further branches does what a choice with the first one does whose else part is
the choice between the others: both come to the same end, in the same world and frame.  Whatever
the branches are, conditions are evaluated in order up to the first that holds, and only the body
guarded by that one is executed, or the else part, or nothing. -/
theorem choice_nests (calls : Calls) :
    (∀ condition body rest otherwise span outer inner,
      exec calls (.choice ((condition, body) :: rest) otherwise span) =
        exec calls (.choice [(condition, body)] (some [.choice rest otherwise inner]) outer)) ∧
    ∀ branches otherwise span frame world outcome,
      exec calls (.choice branches otherwise span) ⟨frame, world⟩ = outcome ↔
        Chooses calls frame otherwise branches world outcome := by
  constructor
  · intro condition body rest otherwise span outer inner
    rw [exec_choice_cons condition body rest otherwise span inner,
      exec_choice_cons condition body [] _ outer outer, exec_choice_nil, execElse,
      execBlock_choice]
  · intro branches otherwise span frame world outcome
    constructor
    · rintro rfl
      exact chooses_exec otherwise span frame branches world
    · intro chosen
      exact chosen.exec_eq span

end EntityScript
