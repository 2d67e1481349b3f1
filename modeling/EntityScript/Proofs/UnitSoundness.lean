import Mathlib.Algebra.GroupWithZero.Nat
import Mathlib.Data.List.Nodup
import EntityScript.Proofs.BlockSoundness

/-!
Every lexeme of a unit that is read is accounted for: it stands in a slot of the declarations,
or between them, and where positions increase the slots are those of the declarations with the
members of each entity in the order of their positions.
-/

namespace EntityScript

open Source (Span)

/-! ### Numbers of blocks -/

section Counts

mutual

/-- How many blocks that end with `end` a block has, itself included.  What may not be inside of a
body has no place there and is not counted. -/
def Block.count : Block → Nat
  | .statement _ => 0
  | .choice branches otherwise _ => 1 + countBranches branches + countOtherwise otherwise
  | .loop _ _ _ body _ => 1 + countBody body
  | .main _ _ | .entity _ => 0

def countBody : List Block → Nat
  | [] => 0
  | block :: rest => block.count + countBody rest

def countBranches : List (Payload × List Block) → Nat
  | [] => 0
  | (_, body) :: rest => countBody body + countBranches rest

def countOtherwise : Option (List Block) → Nat
  | none => 0
  | some body => countBody body

end

def Member.count : Member → Nat
  | .property _ => 0
  | .init procedure | .tick procedure | .render procedure => 1 + countBody procedure.body
  | .handler declared => 1 + countBody declared.body

def Declaration.count : Declaration → Nat
  | .main body _ => 1 + countBody body
  | .entity definition => 1 + (definition.members.map Member.count).sum
  | .choice _ _ _ | .loop _ _ _ _ _ | .statement _ => 0

def Item.count : Item → Nat
  | .main body _ => 1 + countBody body
  | .entity _ members _ => 1 + (members.map Member.count).sum

/-- How many blocks end in the slots. -/
def closings (slots : List Slot) : Nat := slots.countP Slot.isClosing

@[simp]
theorem closings_nil : closings [] = 0 := rfl

@[simp]
theorem closings_cons (slot : Slot) (rest : List Slot) :
    closings (slot :: rest) = (if slot.isClosing then 1 else 0) + closings rest := by
  rw [closings, List.countP_cons, Nat.add_comm, closings]

@[simp]
theorem closings_append (slots others : List Slot) :
    closings (slots ++ others) = closings slots + closings others := List.countP_append

mutual

theorem closings_block (block : Block) : closings block.slots = block.count := by
  cases block with
  | statement | main | entity => rfl
  | choice branches otherwise span =>
      have header : closings [.opening .kwIf] = 0 := rfl
      simp [Block.slots, Block.count, Slot.isClosing, closings_branches header branches,
        closings_otherwise otherwise]
      omega
  | loop counter start bound body span =>
      simp [Block.slots, Block.count, Slot.isClosing, closings_body body, Nat.add_comm]

theorem closings_body (body : List Block) : closings (bodySlots body) = countBody body := by
  cases body with
  | nil => rfl
  | cons block rest =>
      simp [bodySlots, countBody, Slot.isClosing, closings_block block, closings_body rest]

theorem closings_branches {lead : List Slot} (none : closings lead = 0)
    (branches : List (Payload × List Block)) :
    closings (branchSlots lead branches) = countBranches branches := by
  cases branches with
  | nil => rfl
  | cons branch rest =>
      obtain ⟨condition, body⟩ := branch
      have header : closings [.word .kwElse, .word .kwIf] = 0 := rfl
      simp [branchSlots, countBranches, Slot.isClosing, none, closings_body body,
        closings_branches header rest]

theorem closings_otherwise (otherwise : Option (List Block)) :
    closings (otherwiseSlots otherwise) = countOtherwise otherwise := by
  cases otherwise with
  | none => rfl
  | some body => simp [otherwiseSlots, countOtherwise, Slot.isClosing, closings_body body]

end

theorem closings_names (names : List String) : closings (nameSlots names) = 0 := by
  fun_induction nameSlots names <;> simp_all [Slot.isClosing]

theorem closings_parameters (names : List String) : closings (parameterSlots names) = 0 := by
  simp [parameterSlots, Slot.isClosing, closings_names]

theorem closings_deltas (names : List String) : closings (names.map .delta) = 0 := by
  induction names <;> simp_all [Slot.isClosing]

theorem closings_procedure (body : List Block) (span : Span) :
    closings (procedureSlots body span) = 1 + countBody body := by
  simp [procedureSlots, Slot.isClosing, closings_body, Nat.add_comm]

theorem closings_member (member : Member) : closings member.slots = member.count := by
  fun_cases Member.slots member <;>
    simp [Member.count, Slot.isClosing, closings_procedure, closings_parameters, closings_deltas]

theorem closings_linesOf (lines : List (List Slot)) :
    closings (linesOf lines) = (lines.map closings).sum := by
  induction lines with
  | nil => rfl
  | cons line rest inductionHypothesis =>
      simp_all [linesOf, Slot.isClosing]

theorem closings_item (item : Item) : closings item.slots = item.count := by
  cases item with
  | main => simp [Item.slots, Item.count, Slot.isClosing, closings_procedure]
  | entity name members span =>
      have all : members.map (closings ∘ Member.slots) = members.map Member.count :=
        List.map_congr_left fun member _ => closings_member member
      simp [Item.slots, Item.count, Slot.isClosing, closings_linesOf, all, Nat.add_comm]

end Counts

/-! ### Positions -/

section Positions

variable {lexemes middle rest : List Lexeme}

/-- Each lexeme starts behind the ones before it. -/
def Increasing (lexemes : List Lexeme) : Prop := lexemes.Pairwise (·.span.start < ·.span.start)

instance : DecidablePred Increasing := fun lexemes =>
  inferInstanceAs (Decidable (lexemes.Pairwise (·.span.start < ·.span.start)))

/-- The span starts where one of the lexemes does. -/
def StartsIn (span : Span) (lexemes : List Lexeme) : Prop :=
  ∃ lexeme ∈ lexemes, lexeme.span.start = span.start

theorem StartsIn.mono {span : Span} (starts : StartsIn span rest) (behind : rest <:+ lexemes) :
    StartsIn span lexemes := by
  obtain ⟨lexeme, among, same⟩ := starts
  exact ⟨lexeme, behind.mem among, same⟩

theorem startsIn_payload (first : Lexeme) (more : List Lexeme) :
    StartsIn (Payload.of first more).span (first :: more) := by
  have last : more.getLastD first ∈ first :: more := by
    rw [List.getLastD_eq_getLast?]
    cases found : more.getLast? with
    | none => exact List.mem_cons_self
    | some last => exact List.mem_cons_of_mem _ (List.mem_of_getLast? found)
  rcases Nat.le_total first.span.start (more.getLastD first).span.start with earlier | later
  · exact ⟨first, List.mem_cons_self, (Nat.min_eq_left earlier).symm⟩
  · exact ⟨_, last, (Nat.min_eq_right later).symm⟩

theorem span_readProcedure {kind : BlockKind} {opener : Span} {parameters : List String}
    {procedure : Procedure}
    (reads : Reads (readProcedure kind opener parameters lexemes) procedure rest) :
    ∃ last, procedure.span = opener.union last ∧ StartsIn last lexemes := by
  obtain ⟨_, inside, pointed, body, behind, inner, _, ended, rfl⟩ := reads_readProcedure.mp reads
  obtain ⟨arrow, rfl, _, _⟩ := reads_expect.mp pointed
  obtain ⟨last, rfl, _, rfl⟩ := reads_expectEnd.mp ended
  have among : last ∈ inside := (laid_readBody inner).suffix.mem List.mem_cons_self
  exact ⟨last.span, rfl, last, List.mem_cons_of_mem _ among, rfl⟩

theorem span_readProperty {kind : PropertyKind} {opener : Span} {property : Property}
    (reads : Reads (readProperty kind opener lexemes) property rest) :
    ∃ last, property.span = opener.union last ∧ StartsIn last lexemes := by
  obtain ⟨name, behind, named, middle, skipped, initializer, initialized, _, rfl⟩ :=
    reads_readProperty.mp reads
  obtain ⟨word, rfl, _, same⟩ := reads_expectName.mp named
  refine ⟨_, rfl, ?_⟩
  by_cases assigned : nextToken middle = .assign
  · obtain ⟨sign, more, rfl, assigns, _⟩ := cons_of_nextToken assigned nofun
    obtain ⟨first, others, split, rfl⟩ :=
      (reads_readInitializer_of_some assigns).mp initialized
    have whole := append_splitPayload endsInitializer 0 more
    rw [split] at whole
    obtain ⟨lexeme, among, starts⟩ := startsIn_payload first others
    have among : lexeme ∈ more := whole ▸ List.mem_append_left rest among
    have behind := (laid_skipAnnotations skipped).suffix.mem (List.mem_cons_of_mem sign among)
    exact ⟨lexeme, List.mem_cons_of_mem _ behind, starts⟩
  · obtain ⟨rfl, _⟩ := (reads_readInitializer_of_none assigned).mp initialized
    exact ⟨word, List.mem_cons_self, congrArg Span.start same⟩

theorem suffix_readOptionalParameters {names : List String}
    (reads : Reads (readOptionalParameters lexemes) names rest) : rest <:+ lexemes := by
  cases names with
  | nil => exact (laid_noParameters reads).suffix
  | cons => exact (laid_readOptionalParameters reads).suffix

/-- A member goes from its first word to a place behind it. -/
theorem span_readMember {entity : String} {next : Lexeme} {member : Member}
    (reads : Reads (readMember entity next lexemes) member rest) :
    ∃ last, member.span = next.span.union last ∧ StartsIn last lexemes := by
  rcases reads_readMember.mp reads with ⟨kind, _, property, inner, rfl⟩ |
    ⟨_, parameters, behind, listed, procedure, inner, rfl⟩ | ⟨_, procedure, inner, rfl⟩ |
    ⟨_, procedure, inner, rfl⟩ | ⟨_, handler, inner, rfl⟩
  · exact span_readProperty inner
  · obtain ⟨last, same, starts⟩ := span_readProcedure inner
    exact ⟨last, same, starts.mono (laid_readParameters listed).suffix⟩
  · obtain ⟨parameters, behind, listed, delta, _, inner⟩ := reads_readTick.mp inner
    obtain ⟨last, same, starts⟩ := span_readProcedure inner
    exact ⟨last, same, starts.mono (suffix_readOptionalParameters listed)⟩
  · obtain ⟨behind, listed, inner⟩ := reads_readRender.mp inner
    obtain ⟨last, same, starts⟩ := span_readProcedure inner
    exact ⟨last, same, starts.mono (suffix_readOptionalParameters listed)⟩
  · obtain ⟨event, more, rfl, _, _, parameters, behind, listed, procedure, body, rfl⟩ :=
      reads_readHandler.mp inner
    obtain ⟨last, same, starts⟩ := span_readProcedure body
    have behind := (suffix_readOptionalParameters listed).trans (List.suffix_cons event more)
    exact ⟨last, same, starts.mono behind⟩

theorem suffix_readMember {entity : String} {next : Lexeme} {member : Member}
    (reads : Reads (readMember entity next lexemes) member rest) : rest <:+ lexemes := by
  rcases List.suffix_cons_iff.mp (laid_readMember reads).suffix with whole | inside
  · have shorter := reads.within
    rw [whole] at shorter
    exact absurd shorter (Nat.lt_irrefl _)
  · exact inside

theorem start_readMember {entity : String} {next : Lexeme} {member : Member}
    (increasing : Increasing (next :: lexemes))
    (reads : Reads (readMember entity next lexemes) member rest) :
    member.span.start = next.span.start := by
  obtain ⟨last, same, lexeme, among, starts⟩ := span_readMember reads
  have later := List.rel_of_pairwise_cons increasing among
  rw [same, Span.union, ← starts]
  exact Nat.min_eq_left (Nat.le_of_lt later)

end Positions

/-! ### Entities -/

namespace EntityBlock

/-- The members in the order of their positions. -/
def inOrder (entity : EntityBlock) : List Member :=
  entity.members.mergeSort (·.span.start ≤ ·.span.start)

variable {entity : EntityBlock} {member : Member}

theorem members_put (fresh : entity.has member.kind = false) :
    (entity.put member).members.Perm (entity.members ++ [member]) := by
  -- A member at the end of its kind goes past the members of the kinds behind.
  have past {longer others : List Member} (last : longer.Perm (others ++ [member]))
      (behind : List Member) : (longer ++ behind).Perm (others ++ behind ++ [member]) := by
    refine (last.append_right behind).trans ?_
    rw [List.append_assoc, List.append_assoc]
    exact List.perm_append_comm.append_left others
  cases member with
  | property declared =>
      simp only [put, members, List.map_append]
      exact past (past (past (past (.refl _) _) _) _) _
  | init procedure =>
      have none : entity.init = none := by simpa [has, Member.kind] using fresh
      exact past (past (past (by simp [put, none]) _) _) _
  | tick procedure =>
      have none : entity.tick = none := by simpa [has, Member.kind] using fresh
      exact past (past (by simp [put, none]) _) _
  | render procedure =>
      have none : entity.render = none := by simpa [has, Member.kind] using fresh
      exact past (by simp [put, none]) _
  | handler declared => simp [put, members]

theorem foldl_put_name (entity : EntityBlock) (members : List Member) :
    (members.foldl put entity).name = entity.name := by
  refine List.foldlRecOn (motive := fun made => made.name = entity.name) members put rfl ?_
  intro made same member _
  cases member <;> exact same

theorem foldl_put_span (entity : EntityBlock) (members : List Member) :
    (members.foldl put entity).span = entity.span := by
  refine List.foldlRecOn (motive := fun made => made.span = entity.span) members put rfl ?_
  intro made same member _
  cases member <;> exact same

/-- Members at increasing positions are in the order of their positions. -/
theorem inOrder_eq {members : List Member} (same : entity.members.Perm members)
    (increasing : members.Pairwise (·.span.start < ·.span.start)) : entity.inOrder = members := by
  have apart : (members.map (·.span.start)).Nodup :=
    List.pairwise_map.mpr (increasing.imp Nat.ne_of_lt)
  have sorted : entity.inOrder.Pairwise (·.span.start ≤ ·.span.start) := by
    refine (List.pairwise_mergeSort ?_ ?_ entity.members).imp of_decide_eq_true
    · simp only [decide_eq_true_eq]
      exact fun _ _ _ => Nat.le_trans
    · simp [Nat.le_total]
  have sort : entity.inOrder.Perm members := (List.mergeSort_perm _ _).trans same
  refine List.Perm.eq_of_pairwise ?_ sorted (increasing.imp Nat.le_of_lt) sort
  intro first second one other before behind
  exact List.inj_on_of_nodup_map apart (sort.mem_iff.mp one) other (Nat.le_antisymm before behind)

end EntityBlock

/-- The members are read one behind the other and put to those that the entity has, up to the
`end` of the entity, with which it is finished. -/
inductive Lists (opener : Span) :
    EntityBlock → List Lexeme → List Member → EntityBlock → Lexeme → List Lexeme → Prop
  | ends {entity lexemes last rest} (skipped : skipTerminators lexemes = last :: rest)
      (closes : last.token = .kwEnd) :
      Lists opener entity lexemes [] { entity with span := opener.union last.span } last rest
  | member {entity lexemes next more member middle members finished last rest}
      (skipped : skipTerminators lexemes = next :: more)
      (reads : Reads (readMember entity.name next more) member middle)
      (fresh : entity.has member.kind = false)
      (further : Lists opener (entity.put member) middle members finished last rest) :
      Lists opener entity lexemes (member :: members) finished last rest

section Entities

variable {opener : Span} {entity finished : EntityBlock} {lexemes rest : List Lexeme}
  {members : List Member} {last : Lexeme}

theorem exists_lists {entity : EntityBlock} {lexemes : List Lexeme}
    (reads : Reads (readMembers entity opener lexemes) finished rest) :
    ∃ members last, Lists opener entity lexemes members finished last rest := by
  obtain ⟨next, more, skipped, cases⟩ := reads_readMembers.mp reads
  rcases cases with ⟨closes, rfl, rfl⟩ | ⟨_, _, member, middle, inner, fresh, further⟩
  · exact ⟨[], next, .ends skipped closes⟩
  · have shorter := length_skipTerminators_cons skipped
    have shorter' := inner.within
    obtain ⟨members, last, lists⟩ := exists_lists further
    exact ⟨member :: members, last, .member skipped inner fresh lists⟩
termination_by lexemes.length
decreasing_by omega

namespace Lists

theorem laid (lists : Lists opener entity lexemes members finished last rest) :
    Laid lexemes (linesOf (members.map Member.slots)) (last :: rest) ∧ last.token = .kwEnd := by
  induction lists with
  | @ends _ lexemes _ _ skipped closes =>
      have lead := laid_skipTerminators lexemes
      rw [skipped] at lead
      exact ⟨lead, closes⟩
  | @member _ lexemes _ _ _ _ _ _ _ _ skipped reads _ _ inductionHypothesis =>
      have lead := laid_skipTerminators lexemes
      rw [skipped] at lead
      obtain ⟨laid, closes⟩ := inductionHypothesis
      exact ⟨lead.append ((laid_readMember reads).append laid), closes⟩

theorem finished_eq (lists : Lists opener entity lexemes members finished last rest) :
    finished = members.foldl EntityBlock.put { entity with span := opener.union last.span } := by
  induction lists with
  | ends => rfl
  | @member entity _ _ _ member _ _ _ _ _ _ _ _ _ inductionHypothesis =>
      rw [inductionHypothesis, List.foldl_cons]
      cases member <;> rfl

theorem members_perm (lists : Lists opener entity lexemes members finished last rest) :
    finished.members.Perm (entity.members ++ members) := by
  induction lists with
  | ends => rw [List.append_nil]; rfl
  | @member _ _ _ _ member _ members _ _ _ _ _ fresh _ inductionHypothesis =>
      refine inductionHypothesis.trans (((EntityBlock.members_put fresh).append_right _).trans ?_)
      rw [List.append_assoc]
      rfl

theorem ordered (lists : Lists opener entity lexemes members finished last rest)
    (increasing : Increasing lexemes) :
    members.Pairwise (·.span.start < ·.span.start) ∧
      ∀ member ∈ members, StartsIn member.span lexemes := by
  induction lists with
  | ends => exact ⟨.nil, nofun⟩
  | @member _ lexemes next more member middle _ _ _ _ skipped reads _ _ inductionHypothesis =>
      have behind : next :: more <:+ lexemes := skipped ▸ (laid_skipTerminators lexemes).suffix
      have increasing := increasing.sublist behind.sublist
      have starts := start_readMember increasing reads
      have inside : middle <:+ more := suffix_readMember reads
      have beyond : middle <:+ next :: more := inside.trans (List.suffix_cons next more)
      obtain ⟨ordered, among⟩ := inductionHypothesis (increasing.sublist beyond.sublist)
      refine ⟨.cons ?_ ordered, List.forall_mem_cons.mpr ⟨?_, ?_⟩⟩
      · intro other one
        obtain ⟨lexeme, found, same⟩ := among other one
        rw [starts, ← same]
        exact List.rel_of_pairwise_cons increasing (inside.mem found)
      · exact ⟨next, behind.mem List.mem_cons_self, starts.symm⟩
      · intro other one
        exact (among other one).mono (beyond.trans behind)

end Lists

/-- The declaration with its members in the order of their positions, if it may stand where it
does. -/
def Declaration.inOrder? : Declaration → Option Item
  | .main body span => some (.main body span)
  | .entity definition => some (.entity definition.name definition.inOrder definition.span)
  | .choice _ _ _ | .loop _ _ _ _ _ | .statement _ => none

/-- The slots of the declarations, with the members of each entity in the order of their
positions. -/
def slotsInOrder (declarations : List Declaration) : List (List Slot) :=
  (declarations.filterMap Declaration.inOrder?).map Item.slots

/-- The declaration that the item is has each member of the item, as often as the item. -/
def Item.Complete : Item → Prop
  | .main _ _ => True
  | .entity name members span =>
      (members.foldl EntityBlock.put (.empty name span)).members.Perm members

theorem Item.Complete.count_eq {item : Item} (complete : item.Complete) :
    item.count = item.declaration.count := by
  cases item with
  | main => rfl
  | entity name members span =>
      exact congrArg (1 + ·) (List.Perm.map Member.count complete).sum_nat.symm

/-- An entity has each of the members that are read. -/
theorem Lists.complete {name : String} {span : Span}
    (lists : Lists opener (.empty name span) lexemes members finished last rest) :
    (Item.entity name members (opener.union last.span)).Complete := by
  have same : finished.members.Perm members := lists.members_perm
  rwa [lists.finished_eq] at same

/-- Where positions increase an entity has the members that are read in their order. -/
theorem Lists.inOrder?_eq {name : String} {span : Span}
    (lists : Lists opener (.empty name span) lexemes members finished last rest)
    (increasing : Increasing lexemes) :
    (Item.entity name members (opener.union last.span)).declaration.inOrder? =
      some (.entity name members (opener.union last.span)) := by
  have same : finished.members.Perm members := lists.members_perm
  rw [lists.finished_eq] at same
  change some (Item.entity (EntityBlock.name _) (EntityBlock.inOrder _) (EntityBlock.span _)) = _
  rw [EntityBlock.foldl_put_name, EntityBlock.foldl_put_span]
  exact congrArg (some <| Item.entity name · _)
    (EntityBlock.inOrder_eq same (lists.ordered increasing).1)

end Entities

/-! ### Units -/

/-- The items are read one behind the other, up to an end of the text. -/
inductive Declares : List String → List Lexeme → List Item → List Lexeme → Prop
  | ends {seen lexemes} (stops : nextToken (skipTerminators lexemes) = .eof) :
      Declares seen lexemes [] (skipTerminators lexemes)
  | main {seen lexemes next more procedure middle items rest}
      (skipped : skipTerminators lexemes = next :: more) (opens : next.token = .name "main")
      (reads : Reads (readProcedure .main next.span [] more) procedure middle)
      (further : Declares seen middle items rest) :
      Declares seen lexemes (.main procedure.body procedure.span :: items) rest
  | entity {seen lexemes next word name more members finished last middle items rest}
      (skipped : skipTerminators lexemes = next :: word :: more) (opens : next.token = .kwEntity)
      (named : word.token = .name name)
      (lists : Lists next.span (.empty name next.span) more members finished last middle)
      (fresh : name ∉ seen) (further : Declares (name :: seen) middle items rest) :
      Declares seen lexemes (.entity name members (next.span.union last.span) :: items) rest

section Units

/-- Declarations are made of the items that are read. -/
theorem exists_declares {seen : List String} {declarations : List Declaration}
    {lexemes : List Lexeme} (reads : readDeclarations seen lexemes = .ok declarations) :
    ∃ items rest, Declares seen lexemes items rest ∧
      items.map Item.declaration = declarations := by
  rcases readDeclarations_eq_ok.mp reads with ⟨stops, rfl⟩ | ⟨next, more, skipped, cases⟩
  · exact ⟨[], _, .ends stops, rfl⟩
  have shorter := length_skipTerminators_cons skipped
  rcases cases with ⟨opens, entity, middle, first, fresh, others, further, rfl⟩ |
    ⟨opens, procedure, middle, first, others, further, rfl⟩
  · have shorter' := first.within
    obtain ⟨⟨name, _⟩, behind, named, listed⟩ := reads_readEntity.mp first
    obtain ⟨word, rfl, found, _⟩ := reads_expectName.mp named
    obtain ⟨members, last, lists⟩ := exists_lists listed
    obtain ⟨items, rest, declares, same⟩ := exists_declares further
    have made : entity = members.foldl EntityBlock.put
        (.empty name (next.span.union last.span)) := lists.finished_eq
    have named' : entity.name = name := made ▸ EntityBlock.foldl_put_name _ members
    rw [named'] at fresh declares
    refine ⟨_, rest, .entity skipped opens found lists fresh declares, ?_⟩
    rw [List.map_cons, same, made]
    rfl
  · have shorter' := first.within
    obtain ⟨items, rest, declares, same⟩ := exists_declares further
    refine ⟨_, rest, .main skipped opens first declares, ?_⟩
    rw [List.map_cons, same]
    rfl
termination_by lexemes.length
decreasing_by all_goals omega

namespace Declares

variable {seen : List String} {lexemes rest : List Lexeme} {items : List Item}

theorem nextToken_rest (declares : Declares seen lexemes items rest) : nextToken rest = .eof := by
  induction declares with
  | ends stops => exact stops
  | main _ _ _ _ inductionHypothesis => exact inductionHypothesis
  | entity _ _ _ _ _ _ inductionHypothesis => exact inductionHypothesis

theorem laid (declares : Declares seen lexemes items rest) :
    Laid lexemes (linesOf (items.map Item.slots)) rest := by
  induction declares with
  | ends => exact laid_skipTerminators _
  | @main _ lexemes _ _ _ _ _ _ skipped opens reads _ inductionHypothesis =>
      have lead := laid_skipTerminators lexemes
      rw [skipped] at lead
      exact lead.append ((laid_readProcedure opens rfl .nil reads).append inductionHypothesis)
  | @entity _ lexemes _ _ _ _ _ _ _ _ _ _ skipped opens named lists _ _ inductionHypothesis =>
      have lead := laid_skipTerminators lexemes
      rw [skipped] at lead
      obtain ⟨laid, closes⟩ := lists.laid
      have whole := (laid.word named rfl).block opens rfl closes
      exact lead.append (whole.append inductionHypothesis)

theorem complete (declares : Declares seen lexemes items rest) : ∀ item ∈ items, item.Complete := by
  induction declares with
  | ends => nofun
  | main _ _ _ _ inductionHypothesis =>
      exact List.forall_mem_cons.mpr ⟨trivial, inductionHypothesis⟩
  | entity _ _ _ lists _ _ inductionHypothesis =>
      exact List.forall_mem_cons.mpr ⟨lists.complete, inductionHypothesis⟩

theorem ordered (declares : Declares seen lexemes items rest) (increasing : Increasing lexemes) :
    items.map some = (items.map Item.declaration).map Declaration.inOrder? := by
  induction declares with
  | ends => rfl
  | @main _ lexemes next more _ middle _ _ skipped opens reads _ inductionHypothesis =>
      have behind : next :: more <:+ lexemes := skipped ▸ (laid_skipTerminators lexemes).suffix
      have inside : middle <:+ next :: more := (laid_readProcedure opens rfl .nil reads).suffix
      rw [List.map_cons, List.map_cons, List.map_cons,
        ← inductionHypothesis (increasing.sublist (inside.trans behind).sublist)]
      rfl
  | @entity _ lexemes next word _ more _ _ last middle _ _ skipped opens named lists _ _
      inductionHypothesis =>
      have behind : next :: word :: more <:+ lexemes :=
        skipped ▸ (laid_skipTerminators lexemes).suffix
      have inside : more <:+ lexemes :=
        ((List.suffix_cons word more).trans (List.suffix_cons next _)).trans behind
      have beyond : middle <:+ lexemes :=
        ((List.suffix_cons last middle).trans lists.laid.1.suffix).trans inside
      rw [List.map_cons, List.map_cons, List.map_cons,
        lists.inOrder?_eq (increasing.sublist inside.sublist),
        ← inductionHypothesis (increasing.sublist beyond.sublist)]

end Declares

/-- What stands in front of the first end of a text is determined by the text. -/
theorem eq_of_append_ended {lexemes before behind rest : List Lexeme}
    (only : ∀ lexeme ∈ lexemes, lexeme.token ≠ .eof)
    (inside : ∀ lexeme ∈ before, lexeme.token ≠ .eof) (ends : nextToken behind = .eof)
    (stops : nextToken rest = .eof) (same : before ++ rest = lexemes ++ behind) :
    before = lexemes := by
  rcases List.append_eq_append_iff.mp same with ⟨part, rfl, split⟩ | ⟨part, rfl, split⟩
  · cases part with
    | nil => exact (List.append_nil before).symm
    | cons first part =>
        rw [split] at stops
        exact absurd stops (only first (by simp))
  · cases part with
    | nil => exact List.append_nil lexemes
    | cons first part =>
        rw [split] at ends
        exact absurd ends (inside first (by simp))

theorem eq_of_append_eof {lexemes before rest : List Lexeme} {final : Lexeme}
    (only : ∀ lexeme ∈ lexemes, lexeme.token ≠ .eof)
    (inside : ∀ lexeme ∈ before, lexeme.token ≠ .eof) (ends : final.token = .eof)
    (stops : nextToken rest = .eof) (same : before ++ rest = lexemes ++ [final]) :
    before = lexemes := by
  have ended : nextToken [final] = .eof := ends
  exact eq_of_append_ended only inside ended stops same

/-- What an account says of a text in front of its end and of the declarations read from it. -/
structure Account.Explains (account : Account) (lexemes : List Lexeme) (final : Lexeme)
    (declarations : List Declaration) : Prop where
  /-- The slots are those of the declarations with the members of each entity in some order,
  which is that of their positions where positions increase. -/
  slots_eq : ∃ items : List Item, account.slots = linesOf (items.map Item.slots) ∧
    items.map Item.declaration = declarations ∧ (∀ item ∈ items, item.Complete) ∧
    (Increasing (lexemes ++ [final]) → items.map some = declarations.map Declaration.inOrder?)
  lexemes_eq : account.lexemes = lexemes
  fits : account.Fits
  /-- Without what means nothing the text is what the declarations say. -/
  words : (Account.lexemes (account.filter (·.1.counts))).map (·.token) =
    account.slots.flatMap Slot.words
  slice : ∀ (before after : Account) (payload : Payload) (part : List Lexeme),
    account = before ++ (.payload payload, part) :: after →
    lexemes = before.lexemes ++ payload.lexemes ++ after.lexemes
  disjoint : ∀ (before between after : Account) (first second : Payload)
    (part part' : List Lexeme),
    account = before ++ (.payload first, part) :: between ++ (.payload second, part') :: after →
    lexemes = before.lexemes ++ first.lexemes ++ between.lexemes ++ second.lexemes ++ after.lexemes
  count : ((Account.lexemes (account.filter (!·.1.isPayload))).map (·.token)).count .kwEnd =
    (declarations.map Declaration.count).sum
  closes : Account.Closes [] account

theorem Account.explains {account : Account} {items : List Item} {lexemes : List Lexeme}
    {final : Lexeme} (slots : account.slots = linesOf (items.map Item.slots)) (fits : account.Fits)
    (balanced : account.Balanced) (whole : account.lexemes = lexemes)
    (complete : ∀ item ∈ items, item.Complete)
    (ordered : Increasing (lexemes ++ [final]) →
      items.map some = (items.map Item.declaration).map Declaration.inOrder?) :
    account.Explains lexemes final (items.map Item.declaration) := by
  refine ⟨⟨items, slots, rfl, complete, ordered⟩, whole, fits, fits.words, ?slice, ?disjoint,
    ?count, ?closes⟩
  case slice =>
    intro before after payload part split
    rw [← whole, fits.slice split]
  case disjoint =>
    intro before between after first second part part' split
    have inner : Account.Fits (before ++ (.payload first, part) :: between) :=
      fun entry among => fits entry (split ▸ List.mem_append_left _ (by simpa using among))
    rw [← whole, fits.slice split, inner.slice rfl]
  case count =>
    rw [fits.count_kwEnd, slots]
    change closings (linesOf (items.map Item.slots)) = _
    rw [closings_linesOf, List.map_map, List.map_map]
    refine congrArg List.sum (List.map_congr_left fun item one => ?_)
    exact (closings_item item).trans (complete item one).count_eq
  case closes =>
    have closed := (balanced [] []).mpr rfl
    rwa [List.append_nil] at closed

theorem Account.Explains.slots_of_increasing {account : Account} {lexemes : List Lexeme}
    {final : Lexeme} {declarations : List Declaration}
    (explains : account.Explains lexemes final declarations)
    (increasing : Increasing (lexemes ++ [final])) :
    account.slots = linesOf (slotsInOrder declarations) := by
  obtain ⟨items, slots, _, _, ordered⟩ := explains.slots_eq
  have same :
      (items.map some).filterMap id = (declarations.map Declaration.inOrder?).filterMap id :=
    congrArg _ (ordered increasing)
  rw [List.filterMap_map, List.filterMap_map, Function.id_comp, Function.id_comp,
    List.filterMap_some] at same
  rw [slots, same, slotsInOrder]

/-- No lexeme of a text that is accepted is lost, moved or invented. -/
theorem Declaration.exists_account {lexemes : List Lexeme} {final : Lexeme}
    {declarations : List Declaration} (ends : final.token = .eof)
    (only : ∀ lexeme ∈ lexemes, lexeme.token ≠ .eof)
    (accepted : Declaration.ofLexemes (lexemes ++ [final]) = .ok declarations) :
    ∃ account : Account, account.Explains lexemes final declarations := by
  obtain ⟨items, rest, declares, rfl⟩ := exists_declares accepted
  obtain ⟨account, slots, same, fits, balanced⟩ := declares.laid
  have whole : account.lexemes = lexemes :=
    eq_of_append_eof only fits.ne_eof ends declares.nextToken_rest same
  exact ⟨account, Account.explains slots fits balanced whole declares.complete declares.ordered⟩

/-- `entity Ball on 'hit' -> if x then end end prop a end`, with its positions. -/
def smallBall : List Lexeme :=
  [⟨.kwEntity, ⟨0, 6, 1⟩⟩, ⟨.name "Ball", ⟨7, 11, 1⟩⟩, ⟨.name "on", ⟨12, 14, 1⟩⟩,
    ⟨.text "hit", ⟨15, 20, 1⟩⟩, ⟨.arrow, ⟨21, 23, 1⟩⟩, ⟨.kwIf, ⟨24, 26, 1⟩⟩,
    ⟨.name "x", ⟨27, 28, 1⟩⟩, ⟨.kwThen, ⟨29, 33, 1⟩⟩, ⟨.kwEnd, ⟨34, 37, 1⟩⟩,
    ⟨.kwEnd, ⟨38, 41, 1⟩⟩, ⟨.name "prop", ⟨42, 46, 1⟩⟩, ⟨.name "a", ⟨47, 48, 1⟩⟩,
    ⟨.kwEnd, ⟨49, 52, 1⟩⟩]

theorem smallBall_explained :
    ∃ declarations, Declaration.ofLexemes (smallBall ++ [⟨.eof, ⟨52, 52, 1⟩⟩]) = .ok declarations ∧
      declarations.map Declaration.count = [3] ∧
      ∃ account : Account, account.Explains smallBall ⟨.eof, ⟨52, 52, 1⟩⟩ declarations ∧
        account.slots = linesOf (slotsInOrder declarations) := by
  have counted : (Declaration.ofLexemes (smallBall ++ [⟨.eof, ⟨52, 52, 1⟩⟩])).toOption.map
      (·.map Declaration.count) = some [3] := by decide +kernel
  cases accepted : Declaration.ofLexemes (smallBall ++ [⟨.eof, ⟨52, 52, 1⟩⟩]) with
  | error problem =>
      rw [accepted] at counted
      cases counted
  | ok declarations =>
      rw [accepted] at counted
      obtain ⟨account, explains⟩ := Declaration.exists_account rfl (by decide) accepted
      exact ⟨declarations, rfl, Option.some.inj counted, account, explains,
        explains.slots_of_increasing (by decide)⟩

end Units

end EntityScript
