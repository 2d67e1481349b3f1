import EntityScript.Proofs.BlockPlaces
import EntityScript.Proofs.ExpressionPlaces
import EntityScript.Proofs.Lexing

/-!
Where a rejected unit has its problem.  Every problem starts at a character of the text or at its
end, and it is given the column of that place.  It is given the line of that place as well, unless
it is that an expression breaks off at the end of a payload of several lines: then the line is the
one on which the payload starts.
-/

namespace EntityScript

open Source

variable {text : String}

/-- What is no problem of the structure of a text is not about where its blocks stand. -/
theorem other_of_stage {diagnostic : Diagnostic}
    (stage : diagnostic.stage = .lexical ∨ diagnostic.stage = .expression) :
    diagnostic.problem.misplacesBlock = false := by
  obtain ⟨problem, span⟩ := diagnostic
  cases problem with
  | structural problem => rcases stage with found | found <;> cases found
  | lexical | expression | reference => rfl

theorem meets_lex (text : String) :
    Meets (fun diagnostic => Touches text diagnostic.span.start diagnostic.span.line ∧
      diagnostic.problem.misplacesBlock = false) (Placed text) (lex (stripComments text)) := by
  cases read : lex (stripComments text) with
  | error diagnostic =>
      have explained := explained_scan text
      unfold lex at read
      cases found : scan (stripComments text) with
      | ok scanned =>
          rw [found] at read
          cases read
      | error problem =>
          rw [found] at read explained
          cases read
          obtain ⟨lexical, before, behind, split, start, line⟩ := explained
          exact ⟨⟨before, behind, split, start.symm, line.symm⟩, other_of_stage (.inl lexical)⟩
  | ok lexemes =>
      obtain ⟨scanned, others, tiling, rfl, _, fewer, _⟩ := exists_tiling_of_lex read
      refine ⟨fun lexeme among => ?_, _, List.mem_append_right _ List.mem_cons_self, rfl⟩
      obtain ⟨before, spelling, behind, split, span, _⟩ :=
        tiling.spelled lexeme (fewer.subset among)
      rw [span]
      exact marks_spanBehind split

theorem marked_stripAnnotations {lexemes : List Lexeme} (marked : Marked text lexemes) :
    Marked text (stripAnnotations lexemes) := by
  fun_induction stripAnnotations lexemes with
  | case1 => exact marked
  | case2 rest measure span inductionHypothesis =>
      exact inductionHypothesis (marked_cons.mp marked).2
  | case3 span word span' rest inductionHypothesis =>
      exact inductionHypothesis (marked_cons.mp (marked_cons.mp marked).2).2
  | case4 lexeme rest _ _ inductionHypothesis =>
      obtain ⟨marks, further⟩ := marked_cons.mp marked
      exact marked_cons.mpr ⟨marks, inductionHypothesis further⟩

theorem Payload.Placed.lowers {payload : Payload} (good : payload.Placed text) :
    payload.Lowers (Near text (endOf payload.span)) (placed text) := by
  have marked : Marked text (stripAnnotations payload.lexemes) :=
    marked_stripAnnotations good.marked
  exact ⟨meets_exprOfLexemes marked, meets_stmtOfLexemes marked⟩

theorem Global.meets_resolve {name : String} {count : Nat} {span : Span} (marks : Marks text span) :
    Meets (Fault text) (fun _ => True) (Global.resolve name count span) := by
  unfold resolve
  split
  next => exact ⟨marks, rfl⟩
  next =>
    dsimp only
    split
    · exact ⟨marks, rfl⟩
    · trivial

theorem Builtin.meets_resolve {library name : String} {count : Option Nat} {span : Span}
    (marks : Marks text span) :
    Meets (Fault text) (fun _ => True) (Builtin.resolve library name count span) := by
  unfold resolve
  dsimp only
  split
  next => exact ⟨marks, rfl⟩
  next =>
    split
    · trivial
    · exact ⟨marks, rfl⟩
    · exact ⟨marks, rfl⟩
    · split
      · exact ⟨marks, rfl⟩
      · trivial

mutual

/-- A reference that cannot be resolved is in the text. -/
theorem Expr.meets_resolve (expr : Expr) (good : expr.Placed text) :
    Meets (Fault text) (fun _ => True) expr.resolve := by
  cases expr with
  | number | text | bool | unset | this | ident =>
      rw [resolve]
      trivial
  | binary op left right span =>
      rw [resolve]
      exact (left.meets_resolve good.2.1).bind fun _ _ =>
        (right.meets_resolve good.2.2).bind fun _ _ => trivial
  | unary op operand span =>
      rw [resolve]
      exact (operand.meets_resolve good.2).bind fun _ _ => trivial
  | field object name span =>
      rw [resolve]
      exact (object.meets_resolve good.2).bind fun _ _ => trivial
  | method object name arguments span =>
      rw [resolve]
      exact (object.meets_resolve good.2.1).bind fun _ _ =>
        (meets_resolveAll arguments good.2.2).bind fun _ _ => trivial
  | spawn type arguments span | builtin found arguments span | global function arguments span =>
      rw [resolve]
      exact (meets_resolveAll arguments good.2).bind fun _ _ => trivial
  | call name arguments span =>
      rw [resolve]
      exact (Global.meets_resolve good.1).bind fun _ _ =>
        (meets_resolveAll arguments good.2).bind fun _ _ => trivial
  | member library name arguments span =>
      cases arguments with
      | none =>
          rw [resolve]
          exact (Builtin.meets_resolve good).bind fun _ _ => trivial
      | some arguments =>
          rw [resolve]
          exact (Builtin.meets_resolve good.1).bind fun _ _ =>
            (meets_resolveAll arguments good.2).bind fun _ _ => trivial

theorem Expr.meets_resolveAll (exprs : List Expr) (good : AllPlaced text exprs) :
    Meets (Fault text) (fun _ => True) (Expr.resolveAll exprs) := by
  cases exprs with
  | nil => trivial
  | cons expr rest =>
      rw [resolveAll]
      exact (expr.meets_resolve good.1).bind fun _ _ =>
        (meets_resolveAll rest good.2).bind fun _ _ => trivial

end

/-- The problem is in the text, or it is that an expression breaks off at the end of one of the
payloads; it is not that a block stands where it may not. -/
structure Within (text : String) (slots : List Slot) (diagnostic : Diagnostic) : Prop where
  place : Touches text diagnostic.span.start diagnostic.span.line ∨
    diagnostic.stage = .expression ∧ ∃ payload, .payload payload ∈ slots ∧
      payload.Placed text ∧ diagnostic.span = endOf payload.span
  other : diagnostic.problem.misplacesBlock = false

theorem Fault.within {slots : List Slot} {diagnostic : Diagnostic}
    (fault : Fault text diagnostic) : Within text slots diagnostic :=
  ⟨.inl fault.marks.starts, fault.other⟩

theorem Near.within {slots : List Slot} {payload : Payload} {diagnostic : Diagnostic}
    (near : Near text (endOf payload.span) diagnostic) (among : .payload payload ∈ slots)
    (good : payload.Placed text) : Within text slots diagnostic := by
  obtain ⟨expression, place⟩ := near
  constructor
  · rcases place with marks | span
    · exact .inl marks.starts
    · exact .inr ⟨expression, payload, among, good, span⟩
  · exact other_of_stage (.inr expression)

theorem meets_declarations (text : String) :
    Meets (fun diagnostic => Touches text diagnostic.span.start diagnostic.span.line ∧
      diagnostic.problem.misplacesBlock = false)
      (∀ declaration ∈ ·, declaration.Placed text) (Declaration.ofText text) :=
  (meets_lex text).bind fun _ found =>
    (meets_readDeclarations found).mono (fun _ fault => ⟨fault.marks.starts, fault.other⟩)
      fun _ => id

theorem Declaration.Placed.lowers {declaration : Declaration} {slots : List Slot}
    (good : declaration.Placed text) (settled : declaration.Settled)
    (among : declaration.slots ⊆ slots) :
    declaration.Lowers (Within text slots) (placed text) := by
  refine Declaration.lowers_of_slots (slotsHold_iff.mpr fun payload one => ?_)
    settled.inner.tolerates (fun body span same => ?_) fun outside => ?_
  · have stretch := slotsHold_iff.mp good.slots payload one
    have near (diagnostic : Diagnostic) (near : Near text (endOf payload.span) diagnostic) :
        Within text slots diagnostic := near.within (among one) stretch
    exact ⟨stretch.lowers.expr.mono near fun _ => id, stretch.lowers.stmt.mono near fun _ => id⟩
  · exact ⟨.inl (good.marks body span same).starts, rfl⟩
  · rw [settled.top] at outside
    cases outside

theorem meets_ofDeclarations {name : String} {declarations : List Declaration}
    (good : ∀ declaration ∈ declarations, declaration.Placed text)
    (settled : ∀ declaration ∈ declarations, declaration.Settled) :
    Meets (Within text (declarations.flatMap Declaration.slots)) (fun _ => True) (do
      let program ← Program.ofDeclarations name declarations
      program.resolve) := by
  have lower : ∀ declaration ∈ declarations, declaration.Lowers
      (Within text (declarations.flatMap Declaration.slots)) (placed text) :=
    fun declaration among => (good declaration among).lowers (settled declaration among)
      fun slot one => List.mem_flatMap.mpr ⟨declaration, among, one⟩
  have exprs : ResolvesTo (Within text (declarations.flatMap Declaration.slots)) (placed text)
      fun _ => true := fun expr good =>
    (expr.meets_resolve (placed_iff.mp good)).mono (fun _ => Fault.within) fun _ _ => rfl
  exact (Program.meets_extend declarations lower rfl).bind fun program lowered =>
    (Program.meets_resolve exprs program lowered).mono (fun _ => id) fun _ _ => trivial

/-- The problem of a rejected text is in its blocks, or else the blocks are read and the problem
is in what they say. -/
theorem Program.problem_found {name text : String} {diagnostic : Diagnostic}
    (rejected : Program.ofText name text = .error diagnostic) :
    (Touches text diagnostic.span.start diagnostic.span.line ∧
      diagnostic.problem.misplacesBlock = false) ∨
    ∃ declarations, Declaration.ofText text = .ok declarations ∧
      Within text (declarations.flatMap Declaration.slots) diagnostic := by
  have found := meets_declarations text
  rw [Program.ofText] at rejected
  cases read : Declaration.ofText text with
  | error problem =>
      rw [read] at rejected
      cases rejected
      exact .inl (found.of_error read)
  | ok declarations =>
      rw [read] at rejected
      have settled : ∀ declaration ∈ declarations, declaration.Settled := by
        obtain ⟨lexemes, _, further⟩ := bind_eq_ok.mp read
        exact settled_readDeclarations further
      exact .inr ⟨declarations, rfl,
        (meets_ofDeclarations (found.of_ok read) settled).of_error rejected⟩

/-- No text is rejected because a block stands where it may not: before such a block there is
another problem. -/
theorem Program.misplacesBlock_eq_false {name text : String} {diagnostic : Diagnostic}
    (rejected : Program.ofText name text = .error diagnostic) :
    diagnostic.problem.misplacesBlock = false := by
  rcases Program.problem_found rejected with ⟨_, other⟩ | ⟨_, _, within⟩
  · exact other
  · exact within.other

/-- The problem of a rejected unit starts at one place of its text, in the column that is
reported.  The line that is reported is that of the place, unless an expression breaks off at the
end of a payload that starts on an earlier line: then it is this earlier line. -/
theorem Program.problem_located {name text : String} {diagnostic : Diagnostic}
    (rejected : Program.ofText name text = .error diagnostic) :
    ∃ line, IsAt text diagnostic.span.start line (diagnostic.column text) ∧
      (∀ offset, IsAt text offset line (diagnostic.column text) → offset = diagnostic.span.start) ∧
      (diagnostic.span.line = line ∨
        diagnostic.stage = .expression ∧ ∃ declarations payload,
          Declaration.ofText text = .ok declarations ∧
          .payload payload ∈ declarations.flatMap Declaration.slots ∧
          diagnostic.span = endOf payload.span ∧
          Touches text payload.span.start payload.span.line ∧ payload.span.line < line) := by
  rcases Program.problem_found rejected with ⟨touches, _⟩ |
    ⟨declarations, read, touches | ⟨expression, payload, among, good, span⟩, _⟩
  · exact ⟨_, touches.isAt, fun _ other => other.offset_unique touches.isAt, .inl rfl⟩
  · exact ⟨_, touches.isAt, fun _ other => other.offset_unique touches.isAt, .inl rfl⟩
  · obtain ⟨line, touches⟩ := good.marks.stops
    have place : IsAt text diagnostic.span.start line (diagnostic.column text) := by
      rw [Diagnostic.column, span]
      exact touches.isAt
    refine ⟨line, place, fun _ other => other.offset_unique place, ?_⟩
    have later := good.marks.starts.line_le touches good.marks.ordered
    rcases Nat.lt_or_eq_of_le later with earlier | same
    · exact .inr ⟨expression, declarations, payload, read, among, span, good.marks.starts,
        earlier⟩
    · exact .inl (by rw [span, ← same]; rfl)

/-- A statement that breaks off at the end of its second line. -/
def brokenOff : String := "main ->\n x = a +\n b +\nend"

theorem span_of_brokenOff :
    ∃ diagnostic, Program.ofText "u" brokenOff = .error diagnostic ∧
      diagnostic.span = ⟨21, 21, 2⟩ := by
  have found : (match Program.ofText "u" brokenOff with
      | .ok _ => none
      | .error diagnostic => some diagnostic.span) = some ⟨21, 21, 2⟩ := by
    decide +kernel
  cases rejected : Program.ofText "u" brokenOff with
  | ok program =>
      rw [rejected] at found
      cases found
  | error diagnostic =>
      rw [rejected] at found
      exact ⟨diagnostic, rfl, Option.some.inj found⟩

theorem touches_brokenOff : Touches brokenOff 21 3 :=
  ⟨"main ->\n x = a +\n b +".toList, "\nend".toList, by decide, by decide, by decide⟩

theorem brokenOff_located :
    ∃ diagnostic, Program.ofText "u" brokenOff = .error diagnostic ∧
      diagnostic.span = ⟨21, 21, 2⟩ ∧ IsAt brokenOff 21 3 (diagnostic.column brokenOff) := by
  obtain ⟨diagnostic, rejected, span⟩ := span_of_brokenOff
  obtain ⟨line, place, _⟩ := Program.problem_located rejected
  rw [span] at place
  have third := place.touches.line_unique touches_brokenOff
  exact ⟨diagnostic, rejected, span, third ▸ place⟩

/-- The line that is reported is not always that of the reported place. -/
theorem brokenOff_misplaced :
    ¬∀ name text diagnostic, Program.ofText name text = .error diagnostic →
      IsAt text diagnostic.span.start diagnostic.span.line (diagnostic.column text) := by
  intro always
  obtain ⟨diagnostic, rejected, span⟩ := span_of_brokenOff
  have place := always "u" brokenOff diagnostic rejected
  rw [span] at place
  have second := place.touches.line_unique touches_brokenOff
  cases second

end EntityScript
