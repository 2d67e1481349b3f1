import EntityScript.Proofs.UnitCompleteness
import EntityScript.Proofs.UnitSoundness

/-!
What a unit that is accepted declares only once: each of its entities, each member of an entity,
each parameter of a body.
-/

namespace EntityScript

open Source (Span)

section Parameters

variable {lexemes rest : List Lexeme} {names : List String}

theorem apart_readParameterNames {seen : List String}
    (reads : Reads (readParameterNames seen lexemes) names rest) :
    names.Nodup ∧ ∀ name ∈ names, name ∉ seen := by
  induction names generalizing seen lexemes with
  | nil =>
      obtain ⟨_, _, _, _, _, _, _, _, _, ⟨_, _, _, same⟩ | ⟨_, same, _⟩⟩ :=
        reads_readParameterNames.mp reads <;> cases same
  | cons name names inductionHypothesis =>
      obtain ⟨word, _, _, fresh, _, _, _, _, _, ⟨_, others, further, same⟩ | ⟨_, same, _⟩⟩ :=
        reads_readParameterNames.mp reads
      · cases same
        obtain ⟨apart, later⟩ := inductionHypothesis further
        refine ⟨List.nodup_cons.mpr ⟨fun again => ?_, apart⟩, ?_⟩
        · exact later word.1 again List.mem_cons_self
        · exact List.forall_mem_cons.mpr
            ⟨fresh, fun other among => (List.not_mem_of_not_mem_cons (later other among))⟩
      · cases same
        exact ⟨List.nodup_singleton _, List.forall_mem_singleton.mpr fresh⟩

theorem apart_readParameters (reads : Reads (readParameters lexemes) names rest) :
    names.Nodup := by
  obtain ⟨_, _, _, _, ⟨_, _, _, rfl⟩ | ⟨_, named⟩⟩ := reads_readParameters.mp reads
  · exact List.nodup_nil
  · exact (apart_readParameterNames named).1

theorem apart_readOptionalParameters (reads : Reads (readOptionalParameters lexemes) names rest) :
    names.Nodup := by
  by_cases opens : nextToken lexemes = .leftParen
  · exact apart_readParameters ((reads_readOptionalParameters_of_some opens).mp reads)
  · obtain ⟨rfl, _⟩ := (reads_readOptionalParameters_of_none opens).mp reads
    exact List.nodup_nil

end Parameters

/-- The parameters of the body of the member. -/
def Member.parameters : Member → List String
  | property _ => []
  | init procedure | tick procedure | render procedure => procedure.parameters
  | handler declared => declared.parameters

/-- Parameters have different names; a tick has one and a render has none. -/
structure Member.Parametrized (member : Member) : Prop where
  apart : member.parameters.Nodup
  tick : ∀ procedure, member = .tick procedure → ∃ delta, procedure.parameters = [delta]
  render : ∀ procedure, member = .render procedure → procedure.parameters = []

theorem parametrized_readMember {entity : String} {next : Lexeme} {member : Member}
    {lexemes rest : List Lexeme} (reads : Reads (readMember entity next lexemes) member rest) :
    member.Parametrized := by
  rcases reads_readMember.mp reads with ⟨_, _, property, _, rfl⟩ |
    ⟨_, names, _, listed, procedure, inner, rfl⟩ | ⟨_, procedure, inner, rfl⟩ |
    ⟨_, procedure, inner, rfl⟩ | ⟨_, handler, inner, rfl⟩
  · exact ⟨List.nodup_nil, nofun, nofun⟩
  · have same := parameters_readProcedure inner
    refine ⟨?_, nofun, nofun⟩
    rw [Member.parameters, same]
    exact apart_readParameters listed
  · obtain ⟨_, _, _, delta, _, inner⟩ := reads_readTick.mp inner
    have same := parameters_readProcedure inner
    refine ⟨?_, ?_, nofun⟩
    · rw [Member.parameters, same]
      exact List.nodup_singleton delta
    · rintro _ ⟨⟩
      exact ⟨delta, same⟩
  · obtain ⟨_, _, inner⟩ := reads_readRender.mp inner
    have same := parameters_readProcedure inner
    refine ⟨?_, nofun, ?_⟩
    · rw [Member.parameters, same]
      exact List.nodup_nil
    · rintro _ ⟨⟩
      exact same
  · obtain ⟨_, _, _, _, _, _, _, listed, procedure, body, rfl⟩ := reads_readHandler.mp inner
    have same := parameters_readProcedure body
    refine ⟨?_, nofun, nofun⟩
    rw [Member.parameters, same]
    exact apart_readOptionalParameters listed

namespace Lists

variable {opener : Span} {entity finished : EntityBlock} {lexemes rest : List Lexeme}
  {members : List Member} {last : Lexeme}

theorem parametrized (lists : Lists opener entity lexemes members finished last rest) :
    ∀ member ∈ members, member.Parametrized := by
  induction lists with
  | ends => nofun
  | member _ reads _ _ inductionHypothesis =>
      exact List.forall_mem_cons.mpr ⟨parametrized_readMember reads, inductionHypothesis⟩

theorem kinds (lists : Lists opener entity lexemes members finished last rest) :
    (members.map Member.kind).Nodup ∧ ∀ member ∈ members, entity.has member.kind = false := by
  induction lists with
  | ends => exact ⟨List.nodup_nil, nofun⟩
  | @member entity _ _ _ member _ members _ _ _ _ _ fresh _ inductionHypothesis =>
      obtain ⟨apart, later⟩ := inductionHypothesis
      have later' : ∀ other ∈ members,
          entity.has other.kind = false ∧ member.kind ≠ other.kind := by
        intro other among
        have unknown := later other among
        rw [Bool.eq_false_iff, ne_eq, EntityBlock.has_put, not_or] at unknown
        exact ⟨eq_false_of_ne_true unknown.1, unknown.2⟩
      constructor
      · rw [List.map_cons, List.nodup_cons, List.mem_map]
        exact ⟨fun ⟨other, among, same⟩ => (later' other among).2 same.symm, apart⟩
      · exact List.forall_mem_cons.mpr ⟨fresh, fun other among => (later' other among).1⟩

end Lists

namespace Item

/-- The name of the entity that the item is. -/
def entityName? : Item → Option String
  | main _ _ => none
  | entity name _ _ => some name

/-- No two members of an entity are of one kind, and the parameters of each are as they should
be. -/
def Distinct : Item → Prop
  | main _ _ => True
  | entity _ members _ =>
      (members.map Member.kind).Nodup ∧ ∀ member ∈ members, member.Parametrized

end Item

namespace Declares

variable {seen : List String} {lexemes rest : List Lexeme} {items : List Item}

theorem distinct (declares : Declares seen lexemes items rest) : ∀ item ∈ items, item.Distinct := by
  induction declares with
  | ends => nofun
  | main _ _ _ _ inductionHypothesis =>
      exact List.forall_mem_cons.mpr ⟨trivial, inductionHypothesis⟩
  | entity _ _ _ lists _ _ inductionHypothesis =>
      exact List.forall_mem_cons.mpr ⟨⟨lists.kinds.1, lists.parametrized⟩, inductionHypothesis⟩

theorem names (declares : Declares seen lexemes items rest) :
    (items.filterMap Item.entityName?).Nodup ∧
      ∀ name ∈ items.filterMap Item.entityName?, name ∉ seen := by
  induction declares with
  | ends => exact ⟨List.nodup_nil, nofun⟩
  | main _ _ _ _ inductionHypothesis => exact inductionHypothesis
  | @entity _ _ _ _ name _ _ _ _ _ _ _ _ _ _ _ fresh _ inductionHypothesis =>
      obtain ⟨apart, later⟩ := inductionHypothesis
      change (name :: _).Nodup ∧ ∀ other ∈ name :: _, _
      refine ⟨List.nodup_cons.mpr ⟨fun again => later name again List.mem_cons_self, apart⟩, ?_⟩
      exact List.forall_mem_cons.mpr
        ⟨fresh, fun other among => List.not_mem_of_not_mem_cons (later other among)⟩

end Declares

end EntityScript
