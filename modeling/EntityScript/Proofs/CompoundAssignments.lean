import EntityScript.Proofs.Assignments
import EntityScript.Proofs.Expressions
import EntityScript.Proofs.Fields
import EntityScript.Proofs.References
import EntityScript.Stmt.Reader

/-!
Compound assignments.  An assignment with an operator evaluates the right side first and reads the
place it assigns to after that; with the operation written out it is the other way around.  Which
comes first makes no difference unless the right side starts other code, as only this could write
what the place is read from.
-/

namespace EntityScript

open Script

/-- Whether the expression, taken without its parts, starts no other code. -/
def Expr.startsNothing : Expr → Bool
  | .spawn .. | .global .emit .. => false
  | _ => true

section Evaluation

variable (calls : Calls) (frame : Frame)

mutual

theorem unwriting_eval : ∀ expr : Expr, expr.everyNode Expr.startsNothing = true →
    Follows id Unwriting (eval calls frame expr)
  | .number _ _, _ | .text _ _, _ | .bool _ _, _ | .unset _, _ => by
      rw [eval]
      exact follows_pure Unwriting.composes _
  | .this _, _ | .ident _ _, _ => by
      rw [eval]
      exact unwriting_ofAttempt _
  | .call _ _ _, _ | .member _ _ _ _, _ => by
      rw [eval]
      exact follows_raise Unwriting.composes _
  | .binary op left right _, quiet => by
      simp only [Expr.everyNode, Bool.and_eq_true] at quiet
      have composes := Unwriting.composes
      have first := unwriting_eval left quiet.2.1
      have second := unwriting_eval right quiet.2.2
      cases op
      case and =>
        rw [eval]
        apply follows_bind composes first
        intro value
        split
        · exact second
        · exact follows_pure composes _
      case or =>
        rw [eval]
        apply follows_bind composes first
        intro value
        split
        · exact follows_pure composes _
        · exact second
      all_goals
        simp only [eval]
        exact follows_bind composes first fun _ => follows_bind composes second fun _ =>
          unwriting_ofAttempt _
  | .unary op operand _, quiet => by
      simp only [Expr.everyNode, Bool.and_eq_true] at quiet
      rw [eval]
      exact follows_bind Unwriting.composes (unwriting_eval operand quiet.2) fun _ =>
        unwriting_ofAttempt _
  | .field object name _, quiet => by
      simp only [Expr.everyNode, Bool.and_eq_true] at quiet
      rw [eval]
      exact follows_bind Unwriting.composes (unwriting_eval object quiet.2) fun object =>
        unwriting_readField object name
  | .method object name arguments _, quiet => by
      simp only [Expr.everyNode, Bool.and_eq_true] at quiet
      rw [eval]
      apply follows_bind Unwriting.composes (unwriting_eval object quiet.2.1)
      intro object
      exact follows_bind Unwriting.composes (unwriting_evalAll arguments quiet.2.2) fun _ =>
        unwriting_callMethod object name _
  | .spawn _ _ _, quiet => by
      simp [Expr.everyNode, Expr.startsNothing] at quiet
  | .builtin member arguments _, quiet => by
      simp only [Expr.everyNode, Bool.and_eq_true] at quiet
      rw [eval]
      exact follows_bind Unwriting.composes (unwriting_evalAll arguments quiet.2) fun _ =>
        unwriting_callBuiltin member _
  | .global function arguments _, quiet => by
      simp only [Expr.everyNode, Bool.and_eq_true] at quiet
      have silent : function ≠ .emit := by
        rintro rfl
        simp [Expr.startsNothing] at quiet
      rw [eval]
      exact follows_bind Unwriting.composes (unwriting_evalAll arguments quiet.2) fun _ =>
        unwriting_callGlobal calls silent _

theorem unwriting_evalAll : ∀ exprs : List Expr,
    Expr.everyNodeIn Expr.startsNothing exprs = true →
    Follows id Unwriting (evalAll calls frame exprs)
  | [], _ => by
      rw [evalAll]
      exact follows_pure Unwriting.composes _
  | expr :: rest, quiet => by
      simp only [Expr.everyNodeIn, Bool.and_eq_true] at quiet
      rw [evalAll]
      apply follows_bind Unwriting.composes (unwriting_eval expr quiet.1)
      intro value
      exact follows_bind Unwriting.composes (unwriting_evalAll rest quiet.2) fun _ =>
        follows_pure Unwriting.composes _

end

end Evaluation

/-- What is found at a place. -/
def World.valueAt (world : World) (frame : Frame) (place : Place) : Attempt Value := do
  world.readPath (← frame.root place.root) place.fields

theorem World.valueAt_congr {world after : World} (same : after.fields = world.fields)
    (frame : Frame) (place : Place) : after.valueAt frame place = world.valueAt frame place := by
  unfold valueAt
  congr 1
  funext start
  exact readPath_congr same start place.fields

theorem World.readPath_append (world : World) (target : Value) (path : List String)
    (name : String) :
    world.readPath target (path ++ [name]) =
      (world.readPath target path >>= fun inner => world.readField inner name) := by
  induction path generalizing target with
  | nil => exact bind_pure (world.readField target name)
  | cons first rest inductionHypothesis =>
      simp only [List.cons_append, readPath, inductionHypothesis, LawfulMonad.bind_assoc]

theorem readPlace_eq (place : Place) (frame : Frame) (world : World) :
    readPlace place ⟨frame, world⟩ = ofAttempt (world.valueAt frame place) ⟨frame, world⟩ := by
  have ran : (do
        let root ← ofAttempt (frame.root place.root)
        let world ← get
        ofAttempt (world.readPath root place.fields) : Script World Value) world =
      ofAttempt (world.valueAt frame place) world := by
    unfold World.valueAt
    cases frame.root place.root <;> rfl
  unfold readPlace onWorld
  dsimp only
  rw [ran]
  cases world.valueAt frame place <;> rfl

/-- Evaluation of an expression that is a path goes through its fields. -/
theorem eval_path (calls : Calls) (frame : Frame) (world : World) :
    ∀ (path : Expr) {root : PlaceRoot} {fields : List String},
      path.path? = .ok (root, fields) →
      eval calls frame path world = ofAttempt (world.valueAt frame ⟨root, fields.reverse⟩) world
  | .ident name _, _, _, found => by
      cases found
      rw [eval]
      change _ = ofAttempt (frame.lookup name >>= pure) world
      rw [bind_pure]
  | .this _, _, _, found => by
      cases found
      rw [eval]
      change _ = ofAttempt (frame.this >>= pure) world
      rw [bind_pure]
  | .field object name _, root, fields, found => by
      rw [Expr.path?] at found
      cases inner : object.path? with
      | error error =>
          rw [inner] at found
          cases found
      | ok path =>
          obtain ⟨start, names⟩ := path
          rw [inner] at found
          cases found
          rw [eval, bind_eq, eval_path calls frame world object inner, List.reverse_cons]
          have split : world.valueAt frame ⟨root, names.reverse ++ [name]⟩ =
              (world.valueAt frame ⟨root, names.reverse⟩ >>= fun value =>
                world.readField value name) := by
            simp only [World.valueAt, World.readPath_append, LawfulMonad.bind_assoc]
          rw [split]
          cases world.valueAt frame ⟨root, names.reverse⟩ <;> rfl
  | .number _ _, _, _, found | .text _ _, _, _, found | .bool _ _, _, _, found
  | .unset _, _, _, found | .binary _ _ _ _, _, _, found | .unary _ _ _, _, _, found
  | .method _ _ _ _, _, _, found | .spawn _ _ _, _, _, found | .call _ _ _, _, _, found
  | .member _ _ _ _, _, _, found | .builtin _ _ _, _, _, found | .global _ _ _, _, _, found =>
      nomatch found

theorem eval_place {path : Expr} {place : Place} (assignable : path.place? = .ok place)
    (calls : Calls) (frame : Frame) (world : World) :
    eval calls frame path world = ofAttempt (world.valueAt frame place) world := by
  unfold Expr.place? at assignable
  cases found : path.path? with
  | error other =>
      rw [found] at assignable
      cases assignable
  | ok parts =>
      obtain ⟨root, fields⟩ := parts
      rw [found] at assignable
      cases assignable
      exact eval_path calls frame world path found

section Success

variable {σ α β : Type}

theorem bind_eq_returned {script : Script σ α} {next : α → Script σ β} {state last : σ}
    {result : β} :
    (script >>= next) state = .returned result last ↔
      ∃ value middle, script state = .returned value middle ∧
        next value middle = .returned result last := by
  constructor
  · exact returned_bind
  · rintro ⟨value, middle, ran, rest⟩
    rw [bind_eq, ran]
    exact rest

theorem ofAttempt_eq_returned {attempt : Attempt α} {value : α} {state after : σ} :
    ofAttempt attempt state = .returned value after ↔ attempt = .ok value ∧ after = state := by
  cases attempt with
  | ok found =>
      change Outcome.returned found state = _ ↔ _
      rw [Outcome.returned.injEq, Except.ok.injEq, eq_comm (a := state)]
  | error error => exact iff_of_false nofun nofun

theorem onWorld_eq_returned {script : Frame → Script World α} {frame : Frame} {world : World}
    {value : α} {after : Activation} :
    onWorld script ⟨frame, world⟩ = .returned value after ↔
      ∃ middle, script frame world = .returned value middle ∧ after = ⟨frame, middle⟩ := by
  unfold onWorld
  dsimp only
  cases script frame world with
  | returned found middle => grind
  | raised error middle => exact iff_of_false nofun nofun
  | endless => exact iff_of_false nofun nofun

end Success

section Orders

variable {calls : Calls} {path value : Expr} {place : Place} {op : AssignOp} {operator : BinaryOp}
  {frame : Frame} {world : World} {after : Activation} (compound : op.binary? = some operator)

include compound

/-- With the operator in the assignment the place is read behind the right side. -/
theorem exec_compound (span : Source.Span) :
    exec calls (.assign place op value span) ⟨frame, world⟩ = .returned () after ↔
      ∃ right middle left result, eval calls frame value world = .returned right middle ∧
        middle.valueAt frame place = .ok left ∧ Value.binary operator left right = .ok result ∧
        writePlace place result ⟨frame, middle⟩ = .returned () after := by
  simp only [exec, compound, evaluate_eq, bind_eq_returned, onWorld_eq_returned,
    ofAttempt_eq_returned]
  constructor
  · rintro ⟨right, _, ⟨middle, evaluated, rfl⟩, left, _, read, result, _, ⟨same, rfl⟩, wrote⟩
    rw [readPlace_eq, ofAttempt_eq_returned] at read
    obtain ⟨read, rfl⟩ := read
    exact ⟨right, middle, left, result, evaluated, read, same, wrote⟩
  · rintro ⟨right, middle, left, result, evaluated, read, same, wrote⟩
    refine ⟨right, _, ⟨middle, evaluated, rfl⟩, left, _, ?_, result, _, ⟨same, rfl⟩, wrote⟩
    rw [readPlace_eq, read]
    rfl

/-- With the operation written out the place is read before the right side. -/
theorem exec_expanded (assignable : path.place? = .ok place) (inner outer : Source.Span) :
    exec calls (.assign place .set (.binary operator path value inner) outer) ⟨frame, world⟩ =
        .returned () after ↔
      ∃ right middle left result, eval calls frame value world = .returned right middle ∧
        world.valueAt frame place = .ok left ∧ Value.binary operator left right = .ok result ∧
        writePlace place result ⟨frame, middle⟩ = .returned () after := by
  have operation : eval calls frame (.binary operator path value inner) =
      (do
        let left ← eval calls frame path
        let right ← eval calls frame value
        ofAttempt (Value.binary operator left right)) := by
    cases op <;> cases compound <;> rw [eval] <;> nofun
  simp only [exec, AssignOp.binary?, evaluate_eq, operation, bind_eq_returned, onWorld_eq_returned,
    ofAttempt_eq_returned, eval_place assignable]
  constructor
  · rintro ⟨result, _, ⟨middle, ⟨left, _, ⟨read, rfl⟩, right, _, evaluated, same, rfl⟩, rfl⟩, wrote⟩
    exact ⟨right, middle, left, result, evaluated, read, same, wrote⟩
  · rintro ⟨right, middle, left, result, evaluated, read, same, wrote⟩
    exact ⟨result, _, ⟨_, ⟨left, _, ⟨read, rfl⟩, right, middle, evaluated, same, rfl⟩, rfl⟩, wrote⟩

end Orders

/-- An assignment with an operator does what the assignment of the operation written out does, if
the right side starts no other code: one of them succeeds just if the other does, and then both
leave the same world and the same frame.  What the place is found to hold is what the expression
that it comes from evaluates to, whether or not there is such a value. -/
theorem compound_assignment_expands (calls : Calls) {path value : Expr} {place : Place}
    {op : AssignOp} {operator : BinaryOp} (assignable : path.place? = .ok place)
    (compound : op.binary? = some operator)
    (quiet : value.everyNode Expr.startsNothing = true) (span inner outer : Source.Span) :
    (∀ activation after,
      exec calls (.assign place op value span) activation = .returned () after ↔
        exec calls (.assign place .set (.binary operator path value inner) outer) activation =
          .returned () after) ∧
    readPlace place = evaluate calls path := by
  constructor
  · rintro ⟨frame, world⟩ after
    have same {right : Value} {middle : World}
        (evaluated : eval calls frame value world = .returned right middle) :
        middle.valueAt frame place = world.valueAt frame place := by
      obtain ⟨_, _, unwriting⟩ := unwriting_eval calls frame value quiet world middle
        (by rw [evaluated]; rfl)
      exact World.valueAt_congr unwriting.fields frame place
    rw [exec_compound compound, exec_expanded compound assignable]
    constructor
    · rintro ⟨right, middle, left, result, evaluated, read, rest⟩
      exact ⟨right, middle, left, result, evaluated, same evaluated ▸ read, rest⟩
    · rintro ⟨right, middle, left, result, evaluated, read, rest⟩
      exact ⟨right, middle, left, result, evaluated, (same evaluated).trans read, rest⟩
  · funext ⟨frame, world⟩
    rw [readPlace_eq, evaluate_eq, onWorld, eval_place assignable]
    cases world.valueAt frame place <;> rfl

/-- Half the width of the canvas is added to the first component of a vector in a field. -/
theorem halfWidth_expands :
    let here : Source.Span := ⟨0, 0, 1⟩
    let path : Expr := .field (.field (.ident "it" here) "at" here) "x" here
    let half : Expr := .binary .div (.builtin .width [] here) (.number 2 here) here
    let activation : Activation := ⟨.ofLone, .ofField "at" (.vector ⟨1, 2⟩)⟩
    ∃ after,
      exec (.ofLevels 0)
          (.assign ⟨.ident "it", ["at", "x"]⟩ .set (.binary .add path half here) here)
          activation = .returned () after ∧
      exec (.ofLevels 0) (.assign ⟨.ident "it", ["at", "x"]⟩ .add half here) activation =
        .returned () after := by
  intro here path half activation
  have expands := compound_assignment_expands (.ofLevels 0)
    (show path.place? = .ok ⟨.ident "it", ["at", "x"]⟩ from rfl)
    (show AssignOp.add.binary? = some .add from rfl)
    (show half.everyNode Expr.startsNothing = true from rfl) here here here
  exact ⟨_, rfl, (expands.1 _ _).mpr rfl⟩

end EntityScript
