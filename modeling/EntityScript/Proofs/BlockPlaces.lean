import EntityScript.Proofs.Accounts
import EntityScript.Proofs.BlockTrees
import EntityScript.Proofs.Places

/-!
Where the problems are that the readers of blocks find, and the payloads that they take: each has
a span of the text that the lexemes are from.
-/

namespace EntityScript

open Source

/-- The lexemes are from the text, and the end of the text is among them. -/
structure Placed (text : String) (lexemes : List Lexeme) : Prop where
  marked : ∀ lexeme ∈ lexemes, Marks text lexeme.span
  ends : ∃ lexeme ∈ lexemes, lexeme.token = .eof

/-- A problem in the text, which is not that a block stands where it may not. -/
structure Fault (text : String) (diagnostic : Diagnostic) : Prop where
  marks : Marks text diagnostic.span
  other : diagnostic.problem.misplacesBlock = false

/-- A problem is in the text; otherwise what was read is as it should be, and the rest is from the
text. -/
abbrev Sound {α : Type} {bound : Nat} (text : String) (good : α → Prop) :
    Reading (Remaining Lexeme bound α) → Prop :=
  Meets (Fault text) fun remaining => good remaining.value ∧ Placed text remaining.rest

variable {α : Type} {bound : Nat} {text : String} {good : α → Prop} {lexeme : Lexeme}
  {lexemes rest : List Lexeme}

namespace Placed

theorem ne_nil : ¬Placed text [] := by
  rintro ⟨_, lexeme, among, _⟩
  cases among

theorem head (placed : Placed text (lexeme :: rest)) : Marks text lexeme.span :=
  placed.marked lexeme List.mem_cons_self

/-- The end of the text is still to come. -/
theorem tail (placed : Placed text (lexeme :: rest)) (inside : lexeme.token ≠ .eof) :
    Placed text rest := by
  obtain ⟨marked, ends, among, atEnd⟩ := placed
  refine ⟨(List.forall_mem_cons.mp marked).2, ends, ?_, atEnd⟩
  rcases List.mem_cons.mp among with rfl | later
  · exact absurd atEnd inside
  · exact later

theorem nextSpan (placed : Placed text lexemes) : Marks text (nextSpan lexemes) := by
  cases lexemes with
  | nil => exact absurd placed ne_nil
  | cons lexeme rest => exact placed.head

end Placed

/-! ### Single tokens -/

theorem sound_expect {wanted : Token} (placed : Placed text lexemes) (inside : wanted ≠ .eof) :
    Sound text (Marks text) (expect wanted lexemes) := by
  cases lexemes with
  | nil => exact absurd placed Placed.ne_nil
  | cons lexeme rest =>
      rw [expect]
      split
      next found => exact ⟨placed.head, placed.tail (found ▸ inside)⟩
      next => exact ⟨placed.nextSpan, rfl⟩

theorem sound_expectWord {word : String} (placed : Placed text lexemes) :
    Sound text (Marks text) (expectWord word lexemes) := by
  cases lexemes with
  | nil => exact absurd placed Placed.ne_nil
  | cons lexeme rest =>
      rw [expectWord]
      split
      next found => exact ⟨placed.head, placed.tail (by simp [found])⟩
      next => exact ⟨placed.nextSpan, rfl⟩

theorem sound_expectName (placed : Placed text lexemes) :
    Sound text (Marks text ·.2) (expectName lexemes) := by
  cases lexemes with
  | nil => exact absurd placed Placed.ne_nil
  | cons lexeme rest =>
      rw [expectName]
      split
      next found => exact ⟨placed.head, placed.tail (by simp [found])⟩
      next => exact ⟨placed.nextSpan, rfl⟩

theorem sound_expectEnd {kind : BlockKind} {opener : Span} (placed : Placed text lexemes) :
    Sound text (Marks text) (expectEnd kind opener lexemes) := by
  cases lexemes with
  | nil => exact absurd placed Placed.ne_nil
  | cons lexeme rest =>
      rw [expectEnd]
      split
      next found => exact ⟨placed.head, placed.tail (by simp [found])⟩
      next => exact ⟨placed.nextSpan, rfl⟩
      next => exact ⟨placed.nextSpan, rfl⟩

theorem Placed.skipTerminators (placed : Placed text lexemes) :
    Placed text (skipTerminators lexemes) := by
  induction lexemes with
  | nil => exact placed
  | cons lexeme rest inductionHypothesis =>
      rw [EntityScript.skipTerminators]
      split
      next terminates =>
        refine inductionHypothesis (placed.tail ?_)
        rcases terminates with found | found <;> simp [found]
      next => exact placed

theorem sound_skipAnnotations {lexemes : List Lexeme} (placed : Placed text lexemes) :
    Sound text (fun _ => True) (skipAnnotations lexemes) := by
  cases lexemes with
  | nil => exact absurd placed Placed.ne_nil
  | cons lexeme rest =>
      rw [skipAnnotations]
      split
      next found =>
        have further := placed.tail (by simp [found])
        exact (sound_skipAnnotations further).bind fun _ skipped => skipped
      next found =>
        have further := placed.tail (by simp [found])
        refine (sound_expectName further).bind fun name named => ?_
        have shorter := name.within
        exact (sound_skipAnnotations named.2).bind fun _ skipped => skipped
      next => exact ⟨trivial, placed⟩
termination_by lexemes.length
decreasing_by all_goals grind

/-! ### Payloads -/

/-- The payload is a stretch of the text. -/
structure Payload.Placed (text : String) (payload : Payload) : Prop where
  marks : Marks text payload.span
  marked : ∀ lexeme ∈ payload.lexemes, Marks text lexeme.span

theorem Payload.placed_of {first : Lexeme} {more : List Lexeme}
    (marked : ∀ lexeme ∈ first :: more, Marks text lexeme.span) :
    (Payload.of first more).Placed text := by
  refine ⟨(marked first List.mem_cons_self).union (marked (more.getLastD first) ?_), marked⟩
  rw [List.getLastD_eq_getLast?]
  cases last : more.getLast? with
  | none => exact List.mem_cons_self
  | some lexeme => exact List.mem_cons_of_mem _ (List.mem_of_getLast? last)

/-- What is split off ends before the end of the text. -/
theorem placed_splitPayload {ends : Nat → Token → Bool} (stops : ∀ depth, ends depth .eof = true)
    (placed : Placed text lexemes) (depth : Nat) :
    (∀ lexeme ∈ (splitPayload ends depth lexemes).1, Marks text lexeme.span) ∧
      Placed text (splitPayload ends depth lexemes).2 := by
  induction lexemes generalizing depth with
  | nil => exact absurd placed Placed.ne_nil
  | cons lexeme rest inductionHypothesis =>
      rw [splitPayload]
      split
      next => exact ⟨List.forall_mem_nil _, placed⟩
      next goes =>
        have inside : lexeme.token ≠ .eof := fun found => goes (found ▸ stops depth)
        obtain ⟨marked, further⟩ := inductionHypothesis (placed.tail inside)
          (lexeme.token.depthAfter depth)
        exact ⟨List.forall_mem_cons.mpr ⟨placed.head, marked⟩, further⟩

theorem placed_takePayload {ends : Nat → Token → Bool} (stops : ∀ depth, ends depth .eof = true)
    (placed : Placed text lexemes) {payload : Strict lexemes Payload}
    (taken : takePayload ends lexemes = some payload) :
    payload.value.Placed text ∧ Placed text payload.rest := by
  have parts := placed_splitPayload stops placed 0
  unfold takePayload at taken
  split at taken
  next => cases taken
  next split =>
    cases taken
    rw [split] at parts
    exact ⟨Payload.placed_of parts.1, parts.2⟩

theorem sound_payloadUntil {stop : Token} {kind : PayloadKind} (placed : Placed text lexemes)
    (inside : stop ≠ .eof) :
    Sound text (Payload.Placed text) (payloadUntil stop kind lexemes) := by
  unfold payloadUntil
  dsimp only
  split
  next =>
    split
    · exact ⟨placed.nextSpan, rfl⟩
    · exact ⟨placed.nextSpan, rfl⟩
  next payload taken =>
    obtain ⟨good, further⟩ :=
      placed_takePayload (fun _ => by simp [Token.endsStatement]) placed taken
    obtain ⟨value, rest, within⟩ := payload
    dsimp only at good further ⊢
    cases rest with
    | nil => exact absurd further Placed.ne_nil
    | cons next rest =>
        simp only [Remaining.relax, Remaining.next?]
        split
        next found => exact ⟨good, further.tail (found ▸ inside)⟩
        next => exact ⟨further.nextSpan, rfl⟩

theorem sound_readStatement (placed : Placed text lexemes) :
    Sound text (Payload.Placed text) (readStatement lexemes) := by
  rw [readStatement]
  split
  next =>
    split
    · exact ⟨placed.nextSpan, rfl⟩
    · exact ⟨placed.nextSpan, rfl⟩
  next payload taken =>
    obtain ⟨good, further⟩ := placed_takePayload (fun _ => rfl) placed taken
    split
    · exact ⟨further.nextSpan, rfl⟩
    · exact ⟨good, further⟩

/-! ### Bodies -/

section Bodies

mutual

theorem sound_readBody {kind : BlockKind} {opener : Span} {lexemes : List Lexeme}
    (placed : Placed text lexemes) :
    Sound text (SlotsHold (Payload.Placed text) <| bodySlots ·) (readBody kind opener lexemes) := by
  rw [readBody]
  have further := placed.skipTerminators
  cases skipped : skipTerminators lexemes with
  | nil => exact absurd (skipped ▸ further) Placed.ne_nil
  | cons next more =>
      obtain ⟨within, followed⟩ := next?_afterTerminators_eq_some skipped
      rw [followed]
      dsimp only
      split
      next => exact ⟨slotsHold_cons.mpr ⟨trivial, slotsHold_nil⟩, further⟩
      next => exact ⟨slotsHold_cons.mpr ⟨trivial, slotsHold_nil⟩, further⟩
      next => exact ⟨further.nextSpan, rfl⟩
      next unended unalternative unfinished =>
        rw [skipped] at further
        refine (sound_readBlock further unfinished).bind fun block first => ?_
        have shorter := block.within
        refine (sound_readBody first.2).bind fun others last => ⟨?_, last.2⟩
        exact slotsHold_cons.mpr ⟨trivial, slotsHold_append.mpr ⟨first.1, last.1⟩⟩
termination_by 2 * lexemes.length + 0
decreasing_by all_goals omega

theorem sound_readBlock {next : Lexeme} {lexemes : List Lexeme}
    (placed : Placed text (next :: lexemes)) (inside : next.token ≠ .eof) :
    Sound text (SlotsHold (Payload.Placed text) ·.slots) (readBlock next lexemes) := by
  have further := placed.tail inside
  rw [readBlock]
  split
  next => exact sound_readChoice further
  next => exact sound_readLoop further
  next => exact ⟨placed.nextSpan, rfl⟩
  next =>
    split
    next => exact ⟨placed.nextSpan, rfl⟩
    next =>
      exact (sound_readStatement placed).bind fun payload statement =>
        ⟨slotsHold_cons.mpr ⟨statement.1, slotsHold_nil⟩, statement.2⟩
termination_by 2 * lexemes.length + 1
decreasing_by all_goals omega

theorem sound_readChoice {opener : Span} {lexemes : List Lexeme} (placed : Placed text lexemes) :
    Sound text (SlotsHold (Payload.Placed text) ·.slots) (readChoice opener lexemes) := by
  have lead : SlotsHold (Payload.Placed text) [.opening .kwIf] :=
    slotsHold_of_isPayload (by simp [Slot.isPayload])
  rw [readChoice]
  refine (sound_payloadUntil placed (by simp)).bind fun condition guarded => ?_
  have shorter := condition.within
  refine (sound_readBody guarded.2).bind fun body first => ?_
  have shorter' := body.within
  refine (sound_readAlternatives first.2).bind fun further others => ?_
  refine (sound_expectEnd others.2).bind fun last ended => ⟨?_, ended.2⟩
  have branches := slotsHold_branch.mpr ⟨lead, guarded.1, first.1, others.1.1⟩
  change SlotsHold (Payload.Placed text) (Block.choice _ _ _).slots
  rw [Block.slots, slotsHold_append, slotsHold_append, slotsHold_cons]
  exact ⟨⟨branches, others.1.2⟩, trivial, slotsHold_nil⟩
termination_by 2 * lexemes.length + 0
decreasing_by all_goals omega

theorem sound_readAlternatives {opener : Span} {lexemes : List Lexeme}
    (placed : Placed text lexemes) :
    Sound text (fun further =>
      SlotsHold (Payload.Placed text) (branchSlots [.word .kwElse, .word .kwIf] further.1) ∧
        SlotsHold (Payload.Placed text) (otherwiseSlots further.2))
      (readAlternatives opener lexemes) := by
  cases lexemes with
  | nil => exact absurd placed Placed.ne_nil
  | cons next rest =>
      rw [readAlternatives.eq_def]
      dsimp only
      split
      next found =>
        have further := placed.tail (by simp [found])
        cases rest with
        | nil => exact absurd further Placed.ne_nil
        | cons inner behind =>
            dsimp only
            split
            next found' =>
              refine (sound_payloadUntil (further.tail (by simp [found']))
                (by simp)).bind fun condition guarded => ?_
              have shorter := condition.within
              refine (sound_readBody guarded.2).bind fun body first => ?_
              have shorter' := body.within
              refine (sound_readAlternatives first.2).bind fun more others => ⟨?_, others.2⟩
              have lead : SlotsHold (Payload.Placed text) [.word .kwElse, .word .kwIf] :=
                slotsHold_of_isPayload (by simp [Slot.isPayload])
              exact ⟨slotsHold_branch.mpr ⟨lead, guarded.1, first.1, others.1.1⟩, others.1.2⟩
            next =>
              refine (sound_readBody further).bind fun body inner => ?_
              split
              next => exact ⟨inner.2.nextSpan, rfl⟩
              next =>
                exact ⟨⟨slotsHold_nil, slotsHold_cons.mpr ⟨trivial, inner.1⟩⟩, inner.2⟩
      next => exact ⟨⟨slotsHold_nil, slotsHold_nil⟩, placed⟩
termination_by 2 * lexemes.length + 0
decreasing_by all_goals grind

theorem sound_readLoop {opener : Span} {lexemes : List Lexeme} (placed : Placed text lexemes) :
    Sound text (SlotsHold (Payload.Placed text) ·.slots) (readLoop opener lexemes) := by
  rw [readLoop]
  refine (sound_expectName placed).bind fun counter counted => ?_
  have shorter := counter.within
  refine (sound_expectWord counted.2).bind fun origin from_ => ?_
  have shorter' := origin.within
  refine (sound_payloadUntil from_.2 (by simp)).bind fun start lower => ?_
  have shorter'' := start.within
  refine (sound_payloadUntil lower.2 (by simp)).bind fun bound upper => ?_
  have shorter''' := bound.within
  refine (sound_readBody upper.2).bind fun body inner => ?_
  refine (sound_expectEnd inner.2).bind fun last ended => ⟨?_, ended.2⟩
  change SlotsHold (Payload.Placed text) (Block.loop _ _ _ _ _).slots
  simp only [Block.slots, slotsHold_append, slotsHold_cons]
  exact ⟨⟨trivial, trivial, trivial, lower.1, trivial, upper.1, trivial, inner.1⟩, trivial,
    slotsHold_nil⟩
termination_by 2 * lexemes.length + 0
decreasing_by all_goals omega

end

end Bodies

/-! ### Members -/

section Members

theorem sound_readParameterNames {seen : List String} {lexemes : List Lexeme}
    (placed : Placed text lexemes) :
    Sound text (fun _ => True) (readParameterNames seen lexemes) := by
  rw [readParameterNames]
  refine (sound_expectName placed).bind fun name named => ?_
  have shorter := name.within
  dsimp only
  split
  next => exact ⟨named.1, rfl⟩
  next =>
    refine (sound_skipAnnotations named.2).bind fun annotations skipped => ?_
    have shorter' := annotations.within
    obtain ⟨⟨⟩, rest, within⟩ := annotations
    have further : Placed text rest := skipped.2
    cases rest with
    | nil => exact absurd further Placed.ne_nil
    | cons next more =>
        simp only [Remaining.relax, Remaining.behind, Remaining.next?]
        split
        next found =>
          refine (sound_readParameterNames (further.tail (by simp [found]))).bind ?_
          exact fun others last => ⟨trivial, last.2⟩
        next found => exact ⟨trivial, further.tail (by simp [found])⟩
        next => exact ⟨further.nextSpan, rfl⟩
termination_by lexemes.length
decreasing_by simp only [List.length_cons] at *; omega

theorem sound_readParameters (placed : Placed text lexemes) :
    Sound text (fun _ => True) (readParameters lexemes) := by
  rw [readParameters]
  refine (sound_expect placed (by simp)).bind fun opening opens => ?_
  obtain ⟨value, rest, within⟩ := opening
  have further : Placed text rest := opens.2
  cases rest with
  | nil => exact absurd further Placed.ne_nil
  | cons next more =>
      simp only [Remaining.relax, Remaining.next?]
      split
      next found => exact ⟨trivial, further.tail (by simp [found])⟩
      next => exact (sound_readParameterNames further).bind fun names listed => ⟨trivial, listed.2⟩

theorem sound_readOptionalParameters (placed : Placed text lexemes) :
    Sound text (fun _ => True) (readOptionalParameters lexemes) := by
  rw [readOptionalParameters]
  split
  next => exact (sound_readParameters placed).bind fun parameters listed => ⟨trivial, listed.2⟩
  next => exact ⟨trivial, placed⟩

/-- The procedure and what is in it are stretches of the text. -/
structure Procedure.Placed (text : String) (procedure : Procedure) : Prop where
  marks : Marks text procedure.span
  body : SlotsHold (Payload.Placed text) (bodySlots procedure.body)

theorem sound_readProcedure {kind : BlockKind} {opener : Span} {parameters : List String}
    (marks : Marks text opener) (placed : Placed text lexemes) :
    Sound text (Procedure.Placed text) (readProcedure kind opener parameters lexemes) := by
  rw [readProcedure]
  refine (sound_expect placed (by simp)).bind fun arrow points => ?_
  refine (sound_readBody points.2).bind fun body inner => ?_
  refine (sound_expectEnd inner.2).bind fun last ended => ?_
  exact ⟨⟨marks.union ended.1, inner.1⟩, ended.2⟩

/-- The member and what is in it are stretches of the text. -/
structure Member.Placed (text : String) (member : Member) : Prop where
  marks : Marks text member.span
  payloads : member.Holds (Payload.Placed text)

theorem sound_readInitializer {property : String} (placed : Placed text lexemes) :
    Sound text (fun initializer => ∀ payload ∈ initializer, payload.Placed text)
      (readInitializer property lexemes) := by
  cases lexemes with
  | nil => exact absurd placed Placed.ne_nil
  | cons next rest =>
      rw [readInitializer]
      split
      next found =>
        have further := placed.tail (by simp [found])
        split
        next => exact ⟨placed.head, rfl⟩
        next payload taken =>
          obtain ⟨good, last⟩ := placed_takePayload (fun _ => rfl) further taken
          refine ⟨?_, last⟩
          rintro _ ⟨⟩
          exact good
      next => exact ⟨by simp [Remaining.staying], placed⟩

theorem sound_readProperty {kind : PropertyKind} {opener : Span} (marks : Marks text opener)
    (placed : Placed text lexemes) :
    Sound text (fun property => Member.Placed text (.property property))
      (readProperty kind opener lexemes) := by
  rw [readProperty]
  refine (sound_expectName placed).bind fun name named => ?_
  refine (sound_skipAnnotations named.2).bind fun annotations skipped => ?_
  refine (sound_readInitializer skipped.2).bind fun initializer initialized => ?_
  obtain ⟨payload, rest, within⟩ := initializer
  dsimp only
  split
  next =>
    refine ⟨?_, initialized.2⟩
    cases payload with
    | none => exact ⟨marks.union named.1, initialized.1⟩
    | some payload => exact ⟨marks.union (initialized.1 payload rfl).marks, initialized.1⟩
  next => exact ⟨initialized.2.nextSpan, rfl⟩

theorem sound_readTick {opener : Span} (marks : Marks text opener)
    (placed : Placed text lexemes) :
    Sound text (Procedure.Placed text) (readTick opener lexemes) := by
  rw [readTick]
  refine (sound_readOptionalParameters placed).bind fun parameters listed => ?_
  dsimp only
  split
  next => exact (sound_readProcedure marks listed.2).bind fun procedure inner => inner
  next => exact (sound_readProcedure marks listed.2).bind fun procedure inner => inner
  next => exact ⟨marks, rfl⟩

theorem sound_readRender {opener : Span} (marks : Marks text opener)
    (placed : Placed text lexemes) :
    Sound text (Procedure.Placed text) (readRender opener lexemes) := by
  rw [readRender]
  refine (sound_readOptionalParameters placed).bind fun parameters listed => ?_
  split
  next => exact (sound_readProcedure marks listed.2).bind fun procedure inner => inner
  next => exact ⟨marks, rfl⟩

theorem sound_readHandler {opener : Span} (marks : Marks text opener)
    (placed : Placed text lexemes) :
    Sound text (fun handler => Member.Placed text (.handler handler))
      (readHandler opener lexemes) := by
  unfold readHandler
  split
  next event span rest =>
    have further := placed.tail (by simp)
    refine (sound_readOptionalParameters further).bind fun parameters listed => ?_
    exact (sound_readProcedure marks listed.2).bind fun procedure inner =>
      ⟨⟨inner.1.marks, inner.1.body⟩, inner.2⟩
  next => exact ⟨placed.nextSpan, rfl⟩

theorem sound_readMember {entity : String} {next : Lexeme} (marks : Marks text next.span)
    (placed : Placed text lexemes) :
    Sound text (Member.Placed text) (readMember entity next lexemes) := by
  unfold readMember
  split
  next =>
    split
    next => exact (sound_readProperty marks placed).bind fun property inner => inner
    next => exact (sound_readProperty marks placed).bind fun property inner => inner
    next =>
      refine (sound_readParameters placed).bind fun parameters listed => ?_
      exact (sound_readProcedure marks listed.2).bind fun procedure inner =>
        ⟨⟨inner.1.marks, inner.1.body⟩, inner.2⟩
    next =>
      exact (sound_readTick marks placed).bind fun procedure inner =>
        ⟨⟨inner.1.marks, inner.1.body⟩, inner.2⟩
    next =>
      exact (sound_readRender marks placed).bind fun procedure inner =>
        ⟨⟨inner.1.marks, inner.1.body⟩, inner.2⟩
    next => exact (sound_readHandler marks placed).bind fun handler inner => inner
    next => exact ⟨marks, rfl⟩
  next => exact ⟨marks, rfl⟩

end Members

/-! ### Declarations -/

section Declarations

/-- The entity and its members are stretches of the text. -/
structure EntityBlock.Placed (text : String) (entity : EntityBlock) : Prop where
  marks : Marks text entity.span
  members : ∀ member ∈ entity.members, member.Holds (Payload.Placed text)

theorem EntityBlock.Placed.put {entity : EntityBlock} (good : entity.Placed text) {member : Member}
    (added : member.Placed text) : (entity.put member).Placed text := by
  refine ⟨?_, fun other among => ?_⟩
  · cases member <;> exact good.marks
  · rcases EntityBlock.mem_of_mem_members_put among with among | rfl
    · exact good.members other among
    · exact added.payloads

theorem sound_readMembers {entity : EntityBlock} {opener : Span} {lexemes : List Lexeme}
    (marks : Marks text opener) (good : entity.Placed text) (placed : Placed text lexemes) :
    Sound text (EntityBlock.Placed text) (readMembers entity opener lexemes) := by
  rw [readMembers]
  have further := placed.skipTerminators
  cases skipped : skipTerminators lexemes with
  | nil => exact absurd (skipped ▸ further) Placed.ne_nil
  | cons next more =>
      obtain ⟨within, followed⟩ := next?_afterTerminators_eq_some skipped
      rw [followed]
      dsimp only
      split
      next found =>
        rw [skipped] at further
        exact ⟨⟨marks.union further.head, good.members⟩, further.tail (by simp [found])⟩
      next => exact ⟨further.nextSpan, rfl⟩
      next unended unfinished =>
        rw [skipped] at further
        refine (sound_readMember further.head (further.tail unfinished)).bind fun member inner => ?_
        have shorter := member.within
        have added : Meets (Fault text) (EntityBlock.Placed text)
            (entity.add member.value) := by
          unfold EntityBlock.add
          split
          next => exact ⟨inner.1.marks, rfl⟩
          next => exact good.put inner.1
        refine added.bind fun extended extends_ => ?_
        exact (sound_readMembers marks extends_ inner.2).bind fun finished last => last
termination_by lexemes.length
decreasing_by omega

theorem sound_readEntity {opener : Span} (marks : Marks text opener)
    (placed : Placed text lexemes) :
    Sound text (EntityBlock.Placed text) (readEntity opener lexemes) := by
  rw [readEntity]
  refine (sound_expectName placed).bind fun name named => ?_
  have good : (EntityBlock.empty name.value.1 opener).Placed text :=
    ⟨marks, by simp [EntityBlock.members, EntityBlock.empty]⟩
  exact (sound_readMembers marks good named.2).bind fun entity inner => inner

/-- The declaration and what is in it are stretches of the text. -/
structure Declaration.Placed (text : String) (declaration : Declaration) : Prop where
  marks : ∀ body span, declaration = .main body span → Marks text span
  slots : SlotsHold (Payload.Placed text) declaration.slots

theorem Declaration.placed_entity {entity : EntityBlock} (good : entity.Placed text) :
    Declaration.Placed text (.entity entity) := by
  refine ⟨by simp, ?_⟩
  simp only [Declaration.slots, Item.slots, slotsHold_append, slotsHold_cons]
  exact ⟨⟨trivial, trivial, slotsHold_linesOf.mpr (List.forall_mem_map.mpr fun member among =>
    slotsHold_member.mpr (good.members member among))⟩, trivial, slotsHold_nil⟩

theorem Declaration.placed_main {procedure : Procedure} (good : procedure.Placed text) :
    Declaration.Placed text (.main procedure.body procedure.span) := by
  refine ⟨?_, slotsHold_cons.mpr ⟨trivial, slotsHold_procedureSlots.mpr good.body⟩⟩
  rintro _ _ ⟨⟩
  exact good.marks

/-- Every problem that is found among the blocks is in the text; otherwise the declarations are
from the text. -/
theorem meets_readDeclarations {seen : List String} {lexemes : List Lexeme}
    (placed : Placed text lexemes) :
    Meets (Fault text) (∀ declaration ∈ ·, declaration.Placed text)
      (readDeclarations seen lexemes) := by
  rw [readDeclarations]
  have further := placed.skipTerminators
  cases skipped : skipTerminators lexemes with
  | nil => exact absurd (skipped ▸ further) Placed.ne_nil
  | cons next more =>
      obtain ⟨within, followed⟩ := next?_afterTerminators_eq_some skipped
      rw [followed]
      dsimp only
      split
      next => exact List.forall_mem_nil _
      next found =>
        rw [skipped] at further
        have opened := further.tail (by simp [found])
        refine (sound_readEntity further.head opened).bind fun entity inner => ?_
        have shorter := entity.within
        split
        next => exact ⟨inner.1.marks, rfl⟩
        next =>
          refine (meets_readDeclarations inner.2).bind fun others last => ?_
          exact List.forall_mem_cons.mpr ⟨Declaration.placed_entity inner.1, last⟩
      next found =>
        rw [skipped] at further
        have opened := further.tail (by simp [found])
        refine (sound_readProcedure further.head opened).bind fun procedure inner => ?_
        have shorter := procedure.within
        refine (meets_readDeclarations inner.2).bind fun others last => ?_
        exact List.forall_mem_cons.mpr ⟨Declaration.placed_main inner.1, last⟩
      next => exact ⟨further.nextSpan, rfl⟩
termination_by lexemes.length
decreasing_by all_goals omega

end Declarations

end EntityScript
