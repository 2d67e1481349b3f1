import EntityScript.Proofs.Relowering

/-!
Annotations mean nothing.  Units of measure, and colons with the name of a type behind them, may
be put behind the names of properties and parameters and anywhere into payloads: the text is still
accepted, and its program stays the same.
-/

namespace EntityScript

open Source (Span)

/-- The text is the lexemes with annotations among them.  A type named `to` is none, since the word
would end the start of a loop. -/
inductive Interspersed : List Lexeme → List Lexeme → Prop
  | nil : Interspersed [] []
  | keep (lexeme : Lexeme) {lexemes text} (further : Interspersed lexemes text) :
      Interspersed (lexeme :: lexemes) (lexeme :: text)
  | unit {mark measure lexemes text} (measures : mark.token = .unit measure)
      (further : Interspersed lexemes text) : Interspersed lexemes (mark :: text)
  | type {colon name word lexemes text} (opens : colon.token = .colon)
      (names : name.token = .name word) (other : word ≠ "to")
      (further : Interspersed lexemes text) :
      Interspersed lexemes (colon :: name :: text)

section Interspersed

variable {lexemes text marks : List Lexeme} {lexeme : Lexeme}

theorem stripAnnotations_cons (plain : lexeme.token.opensAnnotations = false) :
    stripAnnotations (lexeme :: lexemes) = lexeme :: stripAnnotations lexemes := by
  obtain ⟨token, span⟩ := lexeme
  rw [stripAnnotations]
  · rintro measure _ ⟨⟩
    cases plain
  · rintro _ _ _ _ ⟨⟩
    cases plain

theorem stripAnnotations_unit {measure : String} (measures : lexeme.token = .unit measure) :
    stripAnnotations (lexeme :: lexemes) = stripAnnotations lexemes := by
  obtain ⟨_, span⟩ := lexeme
  cases measures
  rw [stripAnnotations]

theorem stripAnnotations_type {name : Lexeme} {word : String} (opens : lexeme.token = .colon)
    (names : name.token = .name word) :
    stripAnnotations (lexeme :: name :: lexemes) = stripAnnotations lexemes := by
  obtain ⟨_, span⟩ := lexeme
  obtain ⟨_, span'⟩ := name
  cases opens
  cases names
  rw [stripAnnotations]

/-- Without its annotations the text is what it was. -/
theorem Interspersed.stripAnnotations (interspersed : Interspersed lexemes text)
    (plain : ∀ lexeme ∈ lexemes, lexeme.token.opensAnnotations = false) :
    stripAnnotations text = lexemes := by
  induction interspersed with
  | nil => rfl
  | keep lexeme _ inductionHypothesis =>
      obtain ⟨here, others⟩ := List.forall_mem_cons.mp plain
      rw [stripAnnotations_cons here, inductionHypothesis others]
  | unit measures _ inductionHypothesis =>
      rw [stripAnnotations_unit measures, inductionHypothesis plain]
  | type opens names _ _ inductionHypothesis =>
      rw [stripAnnotations_type opens names, inductionHypothesis plain]

theorem Interspersed.refl (lexemes : List Lexeme) : Interspersed lexemes lexemes := by
  induction lexemes with
  | nil => exact .nil
  | cons lexeme rest inductionHypothesis => exact .keep lexeme inductionHypothesis

theorem Interspersed.exists_cons (interspersed : Interspersed (lexeme :: lexemes) text) :
    ∃ first more, text = first :: more := by
  cases interspersed <;> exact ⟨_, _, rfl⟩

/-- Annotations leave parentheses as they are. -/
theorem Interspersed.depthBehind_eq (interspersed : Interspersed lexemes text) (depth : Nat) :
    depthBehind depth (text.map (·.token)) = depthBehind depth (lexemes.map (·.token)) := by
  induction interspersed generalizing depth with
  | nil => rfl
  | keep lexeme _ inductionHypothesis => exact inductionHypothesis _
  | unit measures _ inductionHypothesis =>
      rw [List.map_cons, measures]
      exact inductionHypothesis depth
  | type opens names _ _ inductionHypothesis =>
      rw [List.map_cons, List.map_cons, opens, names]
      exact inductionHypothesis depth

/-- No payload ends at an annotation. -/
theorem Interspersed.staysClear {stops : List Token} (interspersed : Interspersed lexemes text)
    (known : stops ⊆ .name "to" :: statementStops) {depth : Nat}
    (clear : staysClear stops depth (lexemes.map (·.token)) = true) :
    staysClear stops depth (text.map (·.token)) = true := by
  have unmarked {token : Token} (other : token ∉ .name "to" :: statementStops) : token ∉ stops :=
    fun among => other (known among)
  induction interspersed generalizing depth with
  | nil => rfl
  | keep lexeme _ inductionHypothesis =>
      obtain ⟨here, further⟩ := staysClear_cons.mp clear
      exact staysClear_cons.mpr ⟨here, inductionHypothesis further⟩
  | unit measures _ inductionHypothesis =>
      rw [List.map_cons, measures]
      refine staysClear_cons.mpr ⟨⟨rfl, fun _ => unmarked ?_⟩, inductionHypothesis clear⟩
      simp [statementStops]
  | type opens names other _ inductionHypothesis =>
      rw [List.map_cons, List.map_cons, opens, names]
      refine staysClear_cons.mpr ⟨⟨rfl, fun _ => unmarked ?_⟩,
        staysClear_cons.mpr ⟨⟨rfl, fun _ => unmarked ?_⟩, inductionHypothesis clear⟩⟩
      · simp [statementStops]
      · simpa [statementStops] using other

theorem Interspersed.annotates_append {part : List Lexeme} (interspersed : Interspersed [] marks)
    (annotated : annotates (part.map (·.token)) = true) :
    annotates ((marks ++ part).map (·.token)) = true := by
  generalize none : [] = lexemes at interspersed
  induction interspersed with
  | nil => exact annotated
  | keep => cases none
  | unit measures _ inductionHypothesis =>
      rw [List.cons_append, List.map_cons, measures]
      exact inductionHypothesis none
  | type opens names _ _ inductionHypothesis =>
      rw [List.cons_append, List.cons_append, List.map_cons, List.map_cons, opens, names]
      exact inductionHypothesis none

theorem stopsBefore_subset (slots : List Slot) :
    stopsBefore slots ⊆ .name "to" :: statementStops := by
  unfold stopsBefore
  split
  · exact List.subset_cons_self _ _
  · split
    · exact List.Subset.refl _
    · exact List.subset_cons_self _ _

/-- A payload with annotations may stand where it stood without, and says the same. -/
theorem Interspersed.exists_payload {payload : Payload}
    (interspersed : Interspersed payload.lexemes text)
    (made : payload.Made)
    (plain : ∀ lexeme ∈ payload.lexemes, lexeme.token.opensAnnotations = false)
    (slots : List Slot) :
    ∃ new : Payload, new.lexemes = text ∧ payload.Restates new ∧
      new.Replaces (stopsBefore slots) payload := by
  obtain ⟨first, more, rfl⟩ := made
  obtain ⟨first', more', rfl⟩ := interspersed.exists_cons
  refine ⟨Payload.of first' more', rfl, ?_, ⟨first', more', rfl⟩, ?_, ?_⟩
  · apply Payload.restates_of_stripAnnotations
    exact (interspersed.stripAnnotations plain).trans
      ((Interspersed.refl (first :: more)).stripAnnotations plain).symm
  · intro fewer within clear
    exact interspersed.staysClear (List.Subset.trans within (stopsBefore_subset slots)) clear
  · intro closed
    exact (interspersed.depthBehind_eq 0).trans closed

end Interspersed

/-- The text is that of the account, with annotations among the lexemes of payloads and directly
behind the names of properties and parameters. -/
inductive Account.Annotated : Account → List Lexeme → Prop
  | nil : Account.Annotated [] []
  | keep (slot : Slot) (part : List Lexeme) {account text}
      (further : Account.Annotated account text) :
      Account.Annotated ((slot, part) :: account) (part ++ text)
  | payload {payload : Payload} {part part' account text} (interspersed : Interspersed part part')
      (further : Account.Annotated account text) :
      Account.Annotated ((.payload payload, part) :: account) (part' ++ text)
  | behindName {part marks account text} (interspersed : Interspersed [] marks)
      (further : Account.Annotated account text) :
      Account.Annotated ((.annotations, part) :: account) (marks ++ part ++ text)
  | behindDelta {delta opening name part marks account text} (names : name.token = .name delta)
      (interspersed : Interspersed [] marks) (further : Account.Annotated account text) :
      Account.Annotated ((.delta delta, opening :: name :: part) :: account)
        (opening :: name :: (marks ++ part) ++ text)

theorem Account.Annotated.refl (account : Account) : account.Annotated account.lexemes := by
  induction account with
  | nil => exact .nil
  | cons entry rest inductionHypothesis => exact .keep entry.1 entry.2 inductionHypothesis

theorem Account.Annotated.prepend (before : Account) {account : Account} {text : List Lexeme}
    (annotated : account.Annotated text) :
    Account.Annotated (before ++ account) (before.lexemes ++ text) := by
  induction before with
  | nil => exact annotated
  | cons entry rest inductionHypothesis =>
      rw [lexemes, List.flatMap_cons, List.append_assoc]
      exact .keep entry.1 entry.2 inductionHypothesis

theorem Slot.Fits.delta_append {delta : String} {opening name : Lexeme} {part marks : List Lexeme}
    (fits : (Slot.delta delta).Fits (opening :: name :: part)) (names : name.token = .name delta)
    (interspersed : Interspersed [] marks) :
    (Slot.delta delta).Fits (opening :: name :: (marks ++ part)) := by
  rcases fits with ⟨_, empty | same⟩ | ⟨inner, annotated, same⟩
  · cases empty
  · simp [names] at same
  · obtain ⟨opens, named⟩ : opening.token = .leftParen ∧ _ := List.cons.inj same
    obtain ⟨_, closed⟩ := List.cons.inj named
    obtain ⟨part, closing, rfl, rfl, closes⟩ := List.map_eq_append_iff.mp closed
    refine .inr ⟨(marks ++ part).map (·.token), interspersed.annotates_append annotated, ?_⟩
    rw [List.map_cons, List.map_cons, opens, names, ← List.append_assoc, List.map_append, closes]
    rfl

theorem Account.Annotated.exists_refills {account : Account} {text : List Lexeme}
    (annotated : account.Annotated text) (fits : account.Fits)
    (made : SlotsHold Payload.Made account.slots)
    (plain : ∀ lexeme ∈ account.lexemes, lexeme.token.opensAnnotations = false) :
    ∃ other, Refills Payload.Restates account other ∧ other.lexemes = text := by
  induction annotated with
  | nil => exact ⟨[], .nil, rfl⟩
  | keep slot part _ inductionHypothesis =>
      obtain ⟨_, fits⟩ := List.forall_mem_cons.mp fits
      obtain ⟨_, plain⟩ := List.forall_mem_append.mp plain
      obtain ⟨other, refills, rfl⟩ := inductionHypothesis fits (slotsHold_cons.mp made).2 plain
      exact ⟨(slot, part) :: other, .keep refills, rfl⟩
  | @payload payload part _ account _ interspersed _ inductionHypothesis =>
      obtain ⟨⟨rfl, _⟩, others⟩ := List.forall_mem_cons.mp fits
      obtain ⟨inside, plain⟩ := List.forall_mem_append.mp plain
      obtain ⟨first, made⟩ := slotsHold_cons.mp made
      obtain ⟨other, refills, rfl⟩ := inductionHypothesis others made plain
      obtain ⟨new, rfl, restates, replaces⟩ :=
        interspersed.exists_payload first inside account.slots
      exact ⟨_, .payload restates replaces refills, rfl⟩
  | behindName interspersed _ inductionHypothesis =>
      obtain ⟨here, fits⟩ := List.forall_mem_cons.mp fits
      obtain ⟨_, plain⟩ := List.forall_mem_append.mp plain
      obtain ⟨other, refills, rfl⟩ := inductionHypothesis fits (slotsHold_cons.mp made).2 plain
      exact ⟨_, .marks rfl (interspersed.annotates_append here) refills, rfl⟩
  | behindDelta names interspersed _ inductionHypothesis =>
      obtain ⟨here, fits⟩ := List.forall_mem_cons.mp fits
      obtain ⟨_, plain⟩ := List.forall_mem_append.mp plain
      obtain ⟨other, refills, rfl⟩ := inductionHypothesis fits (slotsHold_cons.mp made).2 plain
      exact ⟨_, .marks rfl (Slot.Fits.delta_append here names interspersed) refills, rfl⟩

/-- A unit without annotations that is a program has an account such that, with annotations put
anywhere into its payloads and behind the names of its properties and parameters, it is the same
program. -/
theorem Declaration.annotations_ignored {name : String} {lexemes rest : List Lexeme}
    {declarations : List Declaration} {program : Program} (ended : nextToken rest = .eof)
    (only : ∀ lexeme ∈ lexemes, lexeme.token ≠ .eof)
    (plain : ∀ lexeme ∈ lexemes, lexeme.token.opensAnnotations = false)
    (accepted : Declaration.ofLexemes (lexemes ++ rest) = .ok declarations)
    (lowered : Program.ofDeclarations name declarations = .ok program) :
    ∃ account : Account, account.Explains lexemes ⟨.eof, nextSpan rest⟩ declarations ∧
      ∀ text, account.Annotated text →
        ∃ declarations', Declaration.ofLexemes (text ++ rest) = .ok declarations' ∧
          Program.ofDeclarations name declarations' = .ok program := by
  have cut : Declaration.ofLexemes (lexemes ++ [⟨.eof, nextSpan rest⟩]) = .ok declarations :=
    ofLexemes_behind only ended rfl accepted
  obtain ⟨account, items, explains, rfl, made, again⟩ :=
    exists_refillable (R := Payload.Restates) rfl only cut
  refine ⟨account, explains, fun text annotated => ?_⟩
  obtain ⟨other, refills, rfl⟩ :=
    annotated.exists_refills explains.fits made (explains.lexemes_eq ▸ plain)
  obtain ⟨items', alike, _, reads⟩ := again other refills
  exact ⟨_, reads rest ended, Program.carries_extend alike _ program lowered⟩

/-- `main -> … end`, with its positions. -/
def mainOf (statement : List Lexeme) : List Lexeme :=
  ⟨.name "main", ⟨0, 4, 1⟩⟩ :: ⟨.arrow, ⟨5, 7, 1⟩⟩ :: (statement ++ [⟨.kwEnd, ⟨40, 43, 1⟩⟩])

/-- `x : number = y <px>` means what `x = y` does. -/
theorem annotatedAssignment_ignored :
    let plain : List Lexeme := [⟨.name "x", ⟨8, 9, 1⟩⟩, ⟨.assign, ⟨20, 21, 1⟩⟩,
      ⟨.name "y", ⟨22, 23, 1⟩⟩]
    let annotated : List Lexeme := [⟨.name "x", ⟨8, 9, 1⟩⟩, ⟨.colon, ⟨10, 11, 1⟩⟩,
      ⟨.name "number", ⟨12, 18, 1⟩⟩, ⟨.assign, ⟨20, 21, 1⟩⟩, ⟨.name "y", ⟨22, 23, 1⟩⟩,
      ⟨.unit "px", ⟨24, 28, 1⟩⟩]
    ∃ declarations declarations' program,
      Declaration.ofLexemes (mainOf plain ++ [⟨.eof, ⟨43, 43, 1⟩⟩]) = .ok declarations ∧
      Program.ofDeclarations "unit" declarations = .ok program ∧
      Declaration.ofLexemes (mainOf annotated ++ [⟨.eof, ⟨43, 43, 1⟩⟩]) = .ok declarations' ∧
      Program.ofDeclarations "unit" declarations' = .ok program := by
  intro plain annotated
  have laid : (Declaration.ofLexemes (mainOf plain ++ [⟨.eof, ⟨43, 43, 1⟩⟩])).toOption.map
        slotsInOrder =
      some [[.opening (.name "main"), .word .arrow, .terminators,
        .payload (Payload.of ⟨.name "x", ⟨8, 9, 1⟩⟩ plain.tail), .terminators,
        .closing ⟨0, 43, 1⟩]] := by
    decide +kernel
  have lowers : ((Declaration.ofLexemes (mainOf plain ++ [⟨.eof, ⟨43, 43, 1⟩⟩])).toOption.bind
      (Program.ofDeclarations "unit" · |>.toOption)).isSome = true := by
    decide +kernel
  cases accepted : Declaration.ofLexemes (mainOf plain ++ [⟨.eof, ⟨43, 43, 1⟩⟩]) with
  | error problem =>
      rw [accepted] at laid
      cases laid
  | ok declarations =>
      rw [accepted] at laid lowers
      cases lowered : Program.ofDeclarations "unit" declarations with
      | error problem => simp [Except.toOption, lowered] at lowers
      | ok program =>
          obtain ⟨account, explains, ignored⟩ :=
            Declaration.annotations_ignored rfl (by decide) (by decide) accepted lowered
          have split : account.slots = [Slot.terminators, .opening (.name "main"), .word .arrow,
              .terminators] ++ .payload (Payload.of ⟨.name "x", ⟨8, 9, 1⟩⟩ plain.tail) ::
              [Slot.terminators, .closing ⟨0, 43, 1⟩, .terminators] := by
            rw [explains.slots_of_increasing (by decide)]
            exact congrArg linesOf (Option.some.inj laid)
          obtain ⟨before, _, rfl, _, behind⟩ := List.map_eq_append_iff.mp split
          obtain ⟨⟨_, part⟩, after, rfl, rfl, _⟩ := List.map_eq_cons_iff.mp behind
          obtain ⟨rfl, _⟩ := explains.fits _ (List.mem_append_right before List.mem_cons_self)
          have slice := explains.slice before after _ _ rfl
          rw [List.append_assoc] at slice
          have whole : [⟨.name "main", ⟨0, 4, 1⟩⟩, ⟨.arrow, ⟨5, 7, 1⟩⟩] ++
              ⟨.name "x", ⟨8, 9, 1⟩⟩ :: (plain.tail ++ [⟨.kwEnd, ⟨40, 43, 1⟩⟩]) =
              Account.lexemes before ++
                ⟨.name "x", ⟨8, 9, 1⟩⟩ :: (plain.tail ++ Account.lexemes after) := slice
          -- The first lexeme of the statement stands nowhere else.
          obtain ⟨front, _, behind⟩ :=
            (List.append_cons_inj_of_notMem (by decide) (by decide)).mp whole
          have interspersed : Interspersed plain annotated :=
            .keep _ (.type rfl rfl (by decide) (.keep _ (.keep _ (.unit rfl .nil))))
          obtain ⟨declarations', reads, lowered'⟩ :=
            ignored _ (.prepend before (.payload interspersed (.refl after)))
          refine ⟨declarations, declarations', program, rfl, lowered, ?_, lowered'⟩
          rw [← front, ← List.append_cancel_left behind] at reads
          exact reads

end EntityScript
