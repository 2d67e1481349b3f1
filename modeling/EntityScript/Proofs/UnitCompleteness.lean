import EntityScript.Proofs.BlockCompleteness

/-!
A unit that is printed is read back: its declarations are what was printed, apart from
positions.
-/

namespace EntityScript

open Source (Span)

/-! ### Parameters -/

section Parameters

variable {part rest : List Lexeme} {slots : List Slot}

theorem exists_readParameterNames (seen : List String) {name : String} {names : List String}
    (fresh : ∀ other ∈ name :: names, other ∉ seen) (apart : (name :: names).Nodup)
    {part : List Lexeme}
    (printed : Prints (nameSlots (name :: names) ++ .word .rightParen :: slots) part) :
    ∃ behind, Prints slots behind ∧
      ∀ rest, Reads (readParameterNames seen (part ++ rest)) (name :: names) (behind ++ rest) := by
  induction names generalizing name seen part with
  | nil =>
      obtain ⟨word, _, rfl, named, further⟩ := (prints_single rfl).mp printed
      obtain ⟨closing, behind, rfl, closes, further⟩ :=
        (prints_single rfl).mp ((prints_blank rfl).mp further)
      refine ⟨behind, further, fun rest => reads_readParameterNames.mpr ?_⟩
      refine ⟨(name, word.span), _, reads_expectName.mpr ⟨word, rfl, named, rfl⟩,
        fresh name List.mem_cons_self, _, ?_, closing, _, rfl, .inr ⟨closes, rfl, rfl⟩⟩
      exact (reads_skipAnnotations_of_none (by simp [closes, Token.opensAnnotations])).mpr rfl
  | cons next names inductionHypothesis =>
      obtain ⟨word, _, rfl, named, further⟩ := (prints_single rfl).mp printed
      obtain ⟨comma, _, rfl, separates, further⟩ :=
        (prints_single rfl).mp ((prints_blank rfl).mp further)
      obtain ⟨alone, apart⟩ := List.nodup_cons.mp apart
      obtain ⟨behind, further, reads⟩ := inductionHypothesis (name :: seen)
        (fun other among => by
          have fresh := fresh other (List.mem_cons_of_mem name among)
          have different : other ≠ name := fun same => alone (same ▸ among)
          simp [fresh, different]) apart further
      refine ⟨behind, further, fun rest => reads_readParameterNames.mpr ?_⟩
      refine ⟨(name, word.span), _, reads_expectName.mpr ⟨word, rfl, named, rfl⟩,
        fresh name List.mem_cons_self, _, ?_, comma, _, rfl,
        .inl ⟨separates, _, reads rest, rfl⟩⟩
      exact (reads_skipAnnotations_of_none (by simp [separates, Token.opensAnnotations])).mpr rfl

theorem exists_readParameters {names : List String} (apart : names.Nodup)
    (printed : Prints (parameterSlots names ++ slots) part) :
    ∃ behind, Prints slots behind ∧ ∀ rest, nextToken (part ++ rest) = .leftParen ∧
      Reads (readParameters (part ++ rest)) names (behind ++ rest) := by
  rw [parameterSlots, List.cons_append, List.cons_append, List.append_assoc] at printed
  obtain ⟨opening, part, rfl, opens, further⟩ := (prints_single rfl).mp printed
  cases names with
  | nil =>
      obtain ⟨closing, behind, rfl, closes, further⟩ := (prints_single rfl).mp further
      exact ⟨behind, further, fun rest => ⟨opens, reads_readParameters.mpr
        ⟨opening, _, rfl, opens, .inl ⟨closing, rfl, closes, rfl⟩⟩⟩⟩
  | cons name names =>
      have starts : ∃ others, nameSlots (name :: names) = .word (.name name) :: others := by
        cases names <;> exact ⟨_, rfl⟩
      obtain ⟨others, same⟩ := starts
      obtain ⟨behind, further', reads⟩ :=
        exists_readParameterNames [] (fun _ _ => List.not_mem_nil) apart further
      rw [same] at further
      obtain ⟨word, more, rfl, named, _⟩ := (prints_single rfl).mp further
      exact ⟨behind, further', fun rest => ⟨opens, reads_readParameters.mpr
        ⟨opening, _, rfl, opens, .inr ⟨by simp [named], reads rest⟩⟩⟩⟩

end Parameters

/-! ### Members -/

section Members

variable {part rest : List Lexeme}

theorem exists_readProcedure {body : List Block} {span : Span}
    (printable : printableBody body = true) (printed : Prints (procedureSlots body span) part)
    (kind : BlockKind) (opener : Span) (parameters : List String) (rest : List Lexeme) :
    nextToken (part ++ rest) = .arrow ∧ ∃ read,
      Reads (readProcedure kind opener parameters (part ++ rest)) read rest ∧
      read.bare = ⟨parameters, bareBody body, .none⟩ := by
  obtain ⟨arrow, part, rfl, points, further⟩ := (prints_single rfl).mp printed
  obtain ⟨inside, _, rfl, inner, closing⟩ := prints_append.mp further
  obtain ⟨last, rfl, closes⟩ := (prints_last rfl).mp closing
  have stops : EndsBody (last :: rest) := .inl closes
  obtain ⟨body', inner, bare⟩ := exists_readBody printable inner stops kind opener
  refine ⟨points, ⟨parameters, body', opener.union last.span⟩, reads_readProcedure.mpr ?_, ?_⟩
  · rw [List.cons_append, List.append_assoc]
    exact ⟨arrow.span, _, reads_expect.mpr ⟨arrow, rfl, points, rfl⟩, body', _, inner, last.span,
      reads_expectEnd.mpr ⟨last, rfl, closes, rfl⟩, rfl⟩
  · simp only [Procedure.bare, bare]

theorem exists_readProperty {property : Property} {next : Lexeme}
    (printable : (Member.property property).Printable)
    (printed : Prints (Member.property property).slots (next :: part))
    (ends : nextToken rest = .newline) :
    next.token = .name property.kind.word ∧ ∃ read,
      Reads (readProperty property.kind next.span (part ++ rest)) read rest ∧
      read.bare = property.bare := by
  obtain ⟨name, kind, initializer, span⟩ := property
  have finished : ((nextToken rest).endsStatement || nextToken rest = .kwEnd) = true := by
    rw [ends]
    rfl
  cases initializer with
  | none =>
      obtain ⟨opens, further⟩ := (prints_first rfl).mp printed
      obtain ⟨word, _, rfl, named, further⟩ := (prints_single rfl).mp further
      cases prints_nil.mp ((prints_blank rfl).mp further)
      have plain : (nextToken rest).opensAnnotations = false := by rw [ends]; rfl
      refine ⟨opens, ⟨name, kind, none, next.span.union word.span⟩, reads_readProperty.mpr ?_, rfl⟩
      exact ⟨(name, word.span), rest, reads_expectName.mpr ⟨word, rfl, named, rfl⟩, rest,
        (reads_skipAnnotations_of_none plain).mpr rfl, none,
        (reads_readInitializer_of_none (by simp [ends])).mpr ⟨rfl, rfl⟩, finished, rfl⟩
  | some initializer =>
      obtain ⟨opens, further⟩ := (prints_first rfl).mp printed
      obtain ⟨word, _, rfl, named, further⟩ := (prints_single rfl).mp further
      obtain ⟨sign, _, rfl, assigns, further⟩ :=
        (prints_single rfl).mp ((prints_blank rfl).mp further)
      obtain ⟨first, more, _, rfl, same, clear, empty⟩ :=
        exists_prints_payload (printable initializer rfl) further
      cases prints_nil.mp empty
      have plain : (nextToken (sign :: (first :: more ++ rest))).opensAnnotations = false := by
        rw [nextToken_cons, assigns]
        rfl
      have split : splitPayload endsInitializer 0 (first :: more ++ rest) =
          (first :: more, rest) := by
        apply splitPayload_append [.kwEnd]
        · simp [endsInitializer]
        · rwa [same]
        · rw [ends]
          rfl
      refine ⟨opens, ⟨name, kind, some (Payload.of first more),
        next.span.union (Payload.of first more).span⟩, reads_readProperty.mpr ?_, ?_⟩
      · rw [List.append_nil]
        exact ⟨(name, word.span), _, reads_expectName.mpr ⟨word, rfl, named, rfl⟩, _,
          (reads_skipAnnotations_of_none plain).mpr rfl, _,
          (reads_readInitializer_of_some assigns).mpr ⟨first, more, split, rfl⟩, finished, rfl⟩
      · have bare : (Payload.of first more).bare = initializer.bare := Payload.bare_eq same
        simp only [Property.bare, Option.map_some, bare]

theorem Procedure.body_bare (procedure : Procedure) :
    procedure.bare.body = bareBody procedure.body := by
  cases procedure
  rfl

theorem bare_handler (event : String) {parameters : List String} {body : List Block}
    {read : Procedure} (span : Span) (bare : read.bare = ⟨parameters, bareBody body, .none⟩) :
    (Handler.mk event read.parameters read.body read.span).bare =
      (Handler.mk event parameters body span).bare := by
  cases read
  simp only [Procedure.bare, Procedure.mk.injEq, and_true] at bare
  simp only [Handler.bare, bare]

theorem exists_readMember {member : Member} {next : Lexeme} (entity : String)
    (printable : member.Printable) (printed : Prints member.slots (next :: part))
    (ends : nextToken rest = .newline) :
    ∃ read, Reads (readMember entity next (part ++ rest)) read rest ∧ read.bare = member.bare := by
  cases member with
  | property property =>
      obtain ⟨opens, read, reads, bare⟩ := exists_readProperty printable printed ends
      exact ⟨.property read, reads_readMember.mpr (.inl ⟨_, opens, read, reads, rfl⟩),
        congrArg Member.property bare⟩
  | init procedure =>
      cases procedure
      obtain ⟨opens, further⟩ := (prints_first rfl).mp printed
      obtain ⟨behind, further, listed⟩ := exists_readParameters printable.1 further
      obtain ⟨_, read, reads, bare⟩ :=
        exists_readProcedure printable.2 further .init next.span _ rest
      exact ⟨.init read, reads_readMember.mpr
        (.inr (.inl ⟨opens, _, _, (listed rest).2, read, reads, rfl⟩)), congrArg Member.init bare⟩
  | tick procedure =>
      obtain ⟨parameters, body, span⟩ := procedure
      obtain ⟨delta, rfl⟩ := List.length_eq_one_iff.mp printable.1
      obtain ⟨opens, further⟩ := (prints_first rfl).mp printed
      obtain ⟨behind, further, listed⟩ :=
        exists_readParameters (by simp) (prints_delta.mp further)
      obtain ⟨_, read, reads, bare⟩ :=
        exists_readProcedure printable.2 further .tick next.span [delta] rest
      obtain ⟨listing, listed⟩ := listed rest
      refine ⟨.tick read, reads_readMember.mpr (.inr (.inr (.inl ⟨opens, read, ?_, rfl⟩))),
        congrArg Member.tick bare⟩
      exact reads_readTick.mpr ⟨[delta], _,
        (reads_readOptionalParameters_of_some listing).mpr listed, delta, .inr rfl, reads⟩
  | render procedure =>
      obtain ⟨parameters, body, span⟩ := procedure
      obtain rfl : parameters = [] := printable.1
      obtain ⟨opens, further⟩ := (prints_first rfl).mp printed
      obtain ⟨points, read, reads, bare⟩ :=
        exists_readProcedure printable.2 ((prints_blank rfl).mp further) .render next.span [] rest
      refine ⟨.render read, reads_readMember.mpr (.inr (.inr (.inr (.inl ⟨opens, read, ?_, rfl⟩)))),
        congrArg Member.render bare⟩
      exact reads_readRender.mpr ⟨_,
        (reads_readOptionalParameters_of_none (by simp [points])).mpr ⟨rfl, rfl⟩, reads⟩
  | handler handler =>
      obtain ⟨event, parameters, body, span⟩ := handler
      cases parameters with
      | nil =>
          obtain ⟨opens, further⟩ := (prints_first rfl).mp printed
          obtain ⟨text, _, rfl, named, further⟩ := (prints_single rfl).mp further
          obtain ⟨points, read, reads, bare⟩ := exists_readProcedure printable.2
            ((prints_blank rfl).mp further) (.handler event) next.span [] rest
          refine ⟨_, reads_readMember.mpr (.inr (.inr (.inr (.inr ⟨opens, _, ?_, rfl⟩)))),
            congrArg Member.handler (bare_handler event span bare)⟩
          exact reads_readHandler.mpr ⟨text, _, rfl, event, named, [], _,
            (reads_readOptionalParameters_of_none (by simp [points])).mpr ⟨rfl, rfl⟩,
            read, reads, rfl⟩
      | cons name names =>
          obtain ⟨opens, further⟩ := (prints_first rfl).mp printed
          obtain ⟨text, _, rfl, named, further⟩ := (prints_single rfl).mp further
          obtain ⟨behind, further, listed⟩ := exists_readParameters printable.1 further
          obtain ⟨_, read, reads, bare⟩ := exists_readProcedure printable.2 further
            (.handler event) next.span (name :: names) rest
          obtain ⟨listing, listed⟩ := listed rest
          refine ⟨_, reads_readMember.mpr (.inr (.inr (.inr (.inr ⟨opens, _, ?_, rfl⟩)))),
            congrArg Member.handler (bare_handler event span bare)⟩
          exact reads_readHandler.mpr ⟨text, _, rfl, event, named, name :: names, _,
            (reads_readOptionalParameters_of_some listing).mpr listed, read, reads, rfl⟩

/-- A member starts with a word. -/
theorem exists_prints_member {member : Member} {slots : List Slot}
    (printed : Prints (member.slots ++ slots) part) :
    ∃ next more behind word, part = next :: (more ++ behind) ∧ next.token = .name word ∧
      Prints member.slots (next :: more) ∧ Prints slots behind := by
  obtain ⟨before, behind, rfl, printed, printed'⟩ := prints_append.mp printed
  have starts : ∃ word more, member.slots.flatMap Slot.printed = .name word :: more := by
    fun_cases Member.slots member <;> exact ⟨_, _, rfl⟩
  obtain ⟨word, tokens, same⟩ := starts
  obtain ⟨next, more, rfl, named, _⟩ := List.map_eq_cons_iff.mp (printed.trans same)
  exact ⟨next, more, behind, word, rfl, named, printed, printed'⟩

end Members

/-! ### Entities -/

section Entities

theorem EntityBlock.has_put {entity : EntityBlock} {member : Member} {kind : MemberKind} :
    (entity.put member).has kind = true ↔ entity.has kind = true ∨ member.kind = kind := by
  cases member <;> cases kind <;> simp [put, has, Member.kind]

theorem Member.kind_bare (member : Member) : member.bare.kind = member.kind := by
  cases member with
  | handler declared => cases declared; rfl
  | property | init | tick | render => rfl

theorem EntityBlock.put_span (entity : EntityBlock) (member : Member) (span : Span) :
    { entity.put member with span := span } = { entity with span := span }.put member := by
  cases member <;> rfl

theorem exists_readMembers {members : List Member}
    (printable : ∀ member ∈ members, member.Printable)
    (apart : (members.map Member.kind).Nodup) {entity : EntityBlock}
    (fresh : ∀ member ∈ members, entity.has member.kind = false) {part : List Lexeme}
    {last : Lexeme} (printed : Prints (linesOf (members.map Member.slots)) part)
    (closes : last.token = .kwEnd) (opener : Span) (rest : List Lexeme) :
    ∃ read : List Member, Reads (readMembers entity opener (part ++ last :: rest))
      (read.foldl EntityBlock.put { entity with span := opener.union last.span }) rest ∧
      read.map Member.bare = members.map Member.bare := by
  induction members generalizing entity part with
  | nil =>
      obtain ⟨line, rfl, found⟩ := (prints_last rfl).mp printed
      exact ⟨[], reads_readMembers.mpr ⟨last, rest, skipTerminators_line found (by simp [closes]),
        .inl ⟨closes, rfl, rfl⟩⟩, rfl⟩
  | cons member members inductionHypothesis =>
      obtain ⟨printable, printable'⟩ := List.forall_mem_cons.mp printable
      obtain ⟨fresh, fresh'⟩ := List.forall_mem_cons.mp fresh
      obtain ⟨alone, apart⟩ := List.nodup_cons.mp apart
      obtain ⟨line, _, rfl, found, further⟩ := (prints_single rfl).mp printed
      obtain ⟨next, more, behind, word, rfl, named, first, others⟩ := exists_prints_member further
      have ends := newline_of_prints_lines others (last :: rest)
      obtain ⟨member', reads, bare⟩ := exists_readMember entity.name printable first ends
      have kinds : member'.kind = member.kind := by
        rw [← Member.kind_bare, bare, Member.kind_bare]
      have fresh'' : ∀ other ∈ members, (entity.put member').has other.kind = false := by
        intro other among
        refine eq_false_of_ne_true fun known => ?_
        rcases EntityBlock.has_put.mp known with known | same
        · exact absurd known (by simp [fresh' other among])
        · exact alone (by rw [← kinds, same]; exact List.mem_map_of_mem among)
      obtain ⟨read, reads', bare'⟩ := inductionHypothesis printable' apart fresh'' others
      rw [← List.append_assoc] at reads
      refine ⟨member' :: read, reads_readMembers.mpr
        ⟨next, _, skipTerminators_line found (by simp [named]), .inr ?_⟩, ?_⟩
      · rw [EntityBlock.put_span] at reads'
        exact ⟨by simp [named], by simp [named], member', _, reads, kinds ▸ fresh, reads'⟩
      · rw [List.map_cons, List.map_cons, bare, bare']

namespace EntityBlock

theorem foldl_put_property (properties : List Property) (entity : EntityBlock) :
    (properties.map .property).foldl put entity =
      { entity with properties := entity.properties ++ properties } := by
  induction properties generalizing entity with
  | nil => cases entity; simp
  | cons property rest inductionHypothesis =>
      rw [List.map_cons, List.foldl_cons, inductionHypothesis]
      simp [put]

theorem foldl_put_handler (handlers : List Handler) (entity : EntityBlock) :
    (handlers.map .handler).foldl put entity =
      { entity with handlers := entity.handlers ++ handlers } := by
  induction handlers generalizing entity with
  | nil => cases entity; simp
  | cons handler rest inductionHypothesis =>
      rw [List.map_cons, List.foldl_cons, inductionHypothesis]
      simp [put]

/-- An entity is made of its members. -/
theorem foldl_put_members (entity : EntityBlock) :
    entity.members.foldl put (.empty entity.name entity.span) = entity := by
  obtain ⟨name, properties, init, tick, render, handlers, span⟩ := entity
  simp only [members, List.foldl_append, foldl_put_property, foldl_put_handler]
  cases init <;> cases tick <;> cases render <;> simp [put, empty]

theorem name_bare (entity : EntityBlock) : entity.bare.name = entity.name := by
  cases entity
  rfl

theorem bareHandlers_append (handlers others : List Handler) :
    bareHandlers (handlers ++ others) = bareHandlers handlers ++ bareHandlers others := by
  induction handlers with
  | nil => rfl
  | cons handler rest inductionHypothesis =>
      rw [List.cons_append, bareHandlers, inductionHypothesis, bareHandlers, List.cons_append]

theorem bare_put (entity : EntityBlock) (member : Member) :
    (entity.put member).bare = entity.bare.put member.bare := by
  cases entity
  cases member <;> simp [put, bare, Member.bare, bareProcedure, bareHandlers, bareHandlers_append]

theorem bare_foldl_put (members : List Member) (entity : EntityBlock) :
    (members.foldl put entity).bare = (members.map Member.bare).foldl put entity.bare := by
  induction members generalizing entity with
  | nil => rfl
  | cons member rest inductionHypothesis =>
      rw [List.foldl_cons, inductionHypothesis, bare_put, List.map_cons, List.foldl_cons]

/-- No two members of an entity that is printed are of one kind. -/
theorem Printable.kinds {entity : EntityBlock} (printable : entity.Printable) :
    (entity.members.map Member.kind).Nodup := by
  have properties : (entity.properties.map fun property =>
      MemberKind.property property.name).Nodup := by
    have apart := printable.propertyNames
    rw [List.Nodup, List.pairwise_map] at apart ⊢
    exact apart.imp fun different same => different (MemberKind.property.inj same)
  have handlers : (entity.handlers.map fun handler => MemberKind.handler handler.event).Nodup := by
    have apart := printable.events
    rw [List.Nodup, List.pairwise_map] at apart ⊢
    exact apart.imp fun different same => different (MemberKind.handler.inj same)
  have single (procedure : Option Procedure) (kind : MemberKind) :
      (procedure.toList.map fun _ => kind).Nodup := by
    cases procedure <;> simp
  simp only [EntityBlock.members, List.map_append, List.map_map, Function.comp_def, Member.kind,
    List.nodup_append, properties, handlers, single, true_and, List.mem_append, List.mem_map]
  grind

end EntityBlock

theorem exists_readEntity {definition : EntityBlock} (printable : definition.Printable)
    {next : Lexeme} {part : List Lexeme}
    (printed : Prints (Declaration.slots (.entity definition)) (next :: part))
    (rest : List Lexeme) :
    next.token = .kwEntity ∧ ∃ read, Reads (readEntity next.span (part ++ rest)) read rest ∧
      read.bare = definition.bare := by
  obtain ⟨opens, further⟩ := (prints_first rfl).mp printed
  obtain ⟨word, _, rfl, named, further⟩ := (prints_single rfl).mp further
  obtain ⟨inside, _, rfl, inner, closing⟩ := prints_append.mp further
  obtain ⟨last, rfl, closes⟩ := (prints_last rfl).mp closing
  have fresh : ∀ member ∈ definition.members,
      (EntityBlock.empty definition.name next.span).has member.kind = false := by
    intro member _
    cases member <;> rfl
  obtain ⟨read, reads, bare⟩ :=
    exists_readMembers printable.members printable.kinds fresh inner closes next.span rest
  refine ⟨opens, read.foldl EntityBlock.put (.empty definition.name (next.span.union last.span)),
    ?_, ?_⟩
  · rw [List.cons_append, List.append_assoc, reads_readEntity]
    exact ⟨(definition.name, word.span), _, reads_expectName.mpr ⟨word, rfl, named, rfl⟩, reads⟩
  · calc
      _ = (read.map Member.bare).foldl EntityBlock.put (.empty definition.name .none) :=
        EntityBlock.bare_foldl_put read _
      _ = (definition.members.map Member.bare).foldl EntityBlock.put
          (.empty definition.name .none) := by rw [bare]
      _ = (definition.members.foldl EntityBlock.put
          (.empty definition.name definition.span)).bare :=
        (EntityBlock.bare_foldl_put _ (.empty definition.name definition.span)).symm
      _ = definition.bare := by rw [EntityBlock.foldl_put_members]

end Entities

/-! ### Units -/

section Units

theorem exists_readDeclarations {declarations : List Declaration}
    (printable : ∀ declaration ∈ declarations, declaration.Printable)
    (apart : (entityNames declarations).Nodup) {seen : List String}
    (fresh : ∀ name ∈ entityNames declarations, name ∉ seen) {part : List Lexeme}
    (printed : Prints (linesOf (declarations.map Declaration.slots)) part) {final : Lexeme}
    (ends : final.token = .eof) :
    ∃ read, readDeclarations seen (part ++ [final]) = .ok read ∧
      read.map Block.bare = declarations.map Block.bare := by
  induction declarations generalizing seen part with
  | nil =>
      obtain ⟨line, rfl, found⟩ := (prints_last rfl).mp printed
      refine ⟨[], readDeclarations_eq_ok.mpr (.inl ⟨?_, rfl⟩), rfl⟩
      rw [List.singleton_append, skipTerminators_line found (by simp [ends])]
      exact ends
  | cons declaration declarations inductionHypothesis =>
      obtain ⟨printable, printable'⟩ := List.forall_mem_cons.mp printable
      obtain ⟨line, _, rfl, found, further⟩ := (prints_single rfl).mp printed
      obtain ⟨before, behind, rfl, first, others⟩ := prints_append.mp further
      cases declaration with
      | main body span =>
          obtain ⟨next, more, rfl, opens, procedure⟩ := (prints_single rfl).mp first
          obtain ⟨_, main, reads, bare⟩ := exists_readProcedure printable procedure .main next.span
            [] (behind ++ [final])
          obtain ⟨read, reads', bare'⟩ := inductionHypothesis printable' apart fresh others
          rw [← List.append_assoc] at reads
          refine ⟨.main main.body main.span :: read, readDeclarations_eq_ok.mpr (.inr
            ⟨next, _, skipTerminators_line found (by simp [opens]), .inr
              ⟨opens, main, _, reads, read, reads', rfl⟩⟩), ?_⟩
          rw [List.map_cons, List.map_cons, bare']
          rw [Block.bare, ← Procedure.body_bare, bare, Block.bare]
      | entity definition =>
          obtain ⟨alone, apart⟩ := List.nodup_cons.mp apart
          obtain ⟨fresh, fresh'⟩ := List.forall_mem_cons.mp fresh
          obtain ⟨next, more, rfl, _⟩ := (prints_single rfl).mp first
          obtain ⟨opens, entity, reads, bare⟩ :=
            exists_readEntity printable first (behind ++ [final])
          have named : entity.name = definition.name := by
            rw [← EntityBlock.name_bare, bare, EntityBlock.name_bare]
          have fresh'' : ∀ name ∈ entityNames declarations, name ∉ entity.name :: seen := by
            intro name among
            rw [named, List.mem_cons, not_or]
            exact ⟨fun same => alone (same ▸ among), fresh' name among⟩
          obtain ⟨read, reads', bare'⟩ := inductionHypothesis printable' apart fresh'' others
          rw [← List.append_assoc] at reads
          refine ⟨.entity entity :: read, readDeclarations_eq_ok.mpr (.inr
            ⟨next, _, skipTerminators_line found (by simp [opens]), .inl
              ⟨opens, entity, _, reads, named ▸ fresh, read, reads', rfl⟩⟩), ?_⟩
          rw [List.map_cons, List.map_cons, bare']
          exact congrArg (Block.entity · :: _) bare
      | choice | loop | statement => exact printable.elim

/-- The declarations that are printed are read back. -/
theorem Declaration.exists_read_printAll {declarations : List Declaration}
    (printable : ∀ declaration ∈ declarations, declaration.Printable)
    (apart : (entityNames declarations).Nodup) {lexemes : List Lexeme}
    (printed : lexemes.map (·.token) = Declaration.printAll declarations ++ [.eof]) :
    ∃ read, Declaration.ofLexemes lexemes = .ok read ∧
      read.map Block.bare = declarations.map Block.bare := by
  obtain ⟨part, _, rfl, lines, ended⟩ := List.map_eq_append_iff.mp printed
  obtain ⟨final, _, rfl, ends, empty⟩ := List.map_eq_cons_iff.mp ended
  cases List.map_eq_nil_iff.mp empty
  -- The first declaration starts on the first line, so a line end in front of it is taken back.
  have printed : Prints (linesOf (declarations.map Declaration.slots))
      (⟨.newline, .none⟩ :: part) := by
    rw [Prints, List.map_cons, lines]
    cases declarations <;> rfl
  obtain ⟨read, reads, bare⟩ :=
    exists_readDeclarations printable apart (fun _ _ => List.not_mem_nil) printed ends
  refine ⟨read, ?_, bare⟩
  rw [List.cons_append, readDeclarations_eq_ok, skipTerminators_newline rfl,
    ← readDeclarations_eq_ok] at reads
  exact reads

/-- A loop over a choice with a choice in its last branch, and an entity with a statement that
leaves a parenthesis open. -/
def pairOfDeclarations : List Declaration :=
  let payload (tokens : List Token) : Payload := ⟨tokens.map (⟨·, .none⟩), .none⟩
  let inner : Block := .choice [(payload [.name "z"], [])] none .none
  let outer : Block :=
    .choice [(payload [.name "x"], [.statement (payload [.name "f"])]), (payload [.name "y"], [])]
      (some [inner]) .none
  [.main [.loop "i" (payload [.leftParen, .name "to", .rightParen]) (payload [.name "n"]) [outer]
      .none] .none,
    .entity ⟨"Ball", [⟨"a", .prop, none, .none⟩, ⟨"b", .state, some (payload [.name "a"]), .none⟩],
      none, some ⟨["dt"], [], .none⟩, none,
      [⟨"hit", ["x", "y"], [.statement (payload [.leftParen, .kwThen])], .none⟩], .none⟩]

theorem pairOfDeclarations_read_back :
    ∃ read, Declaration.ofLexemes
        ((Declaration.printAll pairOfDeclarations ++ [Token.eof]).map (⟨·, .none⟩)) = .ok read ∧
      read.map Block.bare = pairOfDeclarations.map Block.bare :=
  Declaration.exists_read_printAll (by decide) (by decide) (by simp [Function.comp_def])

end Units

end EntityScript
