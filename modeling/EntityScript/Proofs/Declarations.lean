import EntityScript.Proofs.ProblemPlaces
import EntityScript.Proofs.Translation

/-!
Declarations survive translation.  The items of a text become a program, each in its place; what
the text declares once is there once.
-/

namespace EntityScript

open Source (Span)

/-- No declaration of the type is there twice; its tick has one parameter and its render has
none. -/
structure EntityType.Distinct (type : EntityType) : Prop where
  properties : (type.initializers.map Initializer.name).Nodup
  events : type.handlers.names.Nodup
  constructor : type.constructor.parameters.Nodup
  tick : ∀ method ∈ type.tick, ∃ delta, method.parameters = [delta]
  render : ∀ method ∈ type.render, method.parameters = []
  handlers : ∀ entry ∈ type.handlers.entries, entry.2.parameters.Nodup

theorem MembersBecome.distinct {members : List Member} {type : EntityType}
    (become : MembersBecome members type) (apart : (members.map Member.kind).Nodup)
    (parametrized : ∀ member ∈ members, member.Parametrized) : type.Distinct := by
  have procedures {kind : MemberKind} {methods : List Method}
      (related : List.Forall₂ Procedure.Becomes (members.filterMap (Member.procedure? kind))
        methods) : ∀ method ∈ methods, ∃ member ∈ members,
          ∃ procedure, member.procedure? kind = some procedure ∧
            method.parameters = procedure.parameters := by
    intro method among
    obtain ⟨procedure, one, same⟩ := exists_of_forall₂ related among
    obtain ⟨member, listed, found⟩ := List.mem_filterMap.mp one
    exact ⟨member, listed, procedure, found, same.parameters⟩
  refine ⟨?properties, ?events, ?constructor, ?tick, ?render, ?handlers⟩
  case properties =>
    rw [map_eq_of_forall₂ (fun _ _ same => same.name) become.initializers]
    exact properties_apart apart
  case events =>
    rw [Bindings.names, map_eq_of_forall₂ (fun _ _ same => same.event) become.handlers]
    exact events_apart apart
  case constructor =>
    obtain ⟨method, same, related⟩ := become.constructor
    rw [same]
    cases method with
    | none => exact List.nodup_nil
    | some method =>
        obtain ⟨member, listed, procedure, found, same⟩ := procedures related method (by simp)
        cases member <;> cases found
        rw [Option.getD_some, same]
        exact (parametrized _ listed).apart
  case tick =>
    intro method made
    obtain ⟨member, listed, procedure, found, same⟩ :=
      procedures become.tick method (Option.mem_toList.mpr made)
    cases member <;> cases found
    rw [same]
    exact (parametrized _ listed).tick _ rfl
  case render =>
    intro method made
    obtain ⟨member, listed, procedure, found, same⟩ :=
      procedures become.render method (Option.mem_toList.mpr made)
    cases member <;> cases found
    rw [same]
    exact (parametrized _ listed).render _ rfl
  case handlers =>
    intro entry among
    obtain ⟨handler, one, same⟩ := exists_of_forall₂ become.handlers among
    obtain ⟨member, listed, found⟩ := List.mem_filterMap.mp one
    cases member <;> cases found
    rw [same.parameters]
    exact (parametrized _ listed).apart

def Item.main? : Item → Option (List Block)
  | .main body _ => some body
  | .entity _ _ _ => none

/-- The items are entities and at most one `main`; the body of this becomes the statements and the
entities become the types, in order. -/
inductive ItemsBecome (body : List Block → List Stmt → Prop)
    (entity : String → List Member → Span → EntityType → Prop) :
    List Item → Option (List Stmt) → List EntityType → Prop
  | nil : ItemsBecome body entity [] none []
  | main {blocks span stmts items types} (inside : body blocks stmts)
      (further : ItemsBecome body entity items none types) :
      ItemsBecome body entity (.main blocks span :: items) (some stmts) types
  | entity {name members span type items main types} (made : entity name members span type)
      (further : ItemsBecome body entity items main types) :
      ItemsBecome body entity (.entity name members span :: items) main (type :: types)

/-- The items become the statements and the types, in which references are not resolved yet. -/
abbrev ItemsLowered : List Item → Option (List Stmt) → List EntityType → Prop :=
  ItemsBecome (fun body stmts => Block.toStmts body = .ok stmts)
    fun name members span type =>
      (members.foldl EntityBlock.put (.empty name span)).toType = .ok type

theorem Program.lowered_of_extend {items : List Item} {program extended : Program}
    (lowered : program.extend (items.map Item.declaration) = .ok extended) :
    ∃ main types, ItemsLowered items main types ∧
      extended = ⟨program.name, main.or program.main, program.types ++ types⟩ ∧
      (program.main.isSome = true → main = none) := by
  induction items generalizing program with
  | nil =>
      cases lowered
      exact ⟨none, [], .nil, by simp, fun _ => rfl⟩
  | cons item rest inductionHypothesis =>
      cases item with
      | main body span =>
          rw [List.map_cons, Item.declaration, extend] at lowered
          split at lowered
          · cases lowered
          · next first =>
            obtain ⟨stmts, inside, further⟩ := bind_eq_ok.mp lowered
            obtain ⟨main, types, become, same, second⟩ := inductionHypothesis further
            obtain rfl := second rfl
            refine ⟨some stmts, types, .main inside become, ?_, fun known => absurd known first⟩
            simpa using same
      | entity name members span =>
          rw [List.map_cons, Item.declaration, extend] at lowered
          obtain ⟨type, made, further⟩ := bind_eq_ok.mp lowered
          obtain ⟨main, types, become, same, second⟩ := inductionHypothesis further
          exact ⟨main, type :: types, .entity made become, by simpa using same, second⟩

/-- The items become the statements and the types. -/
abbrev UnitBecomes : List Item → Option (List Stmt) → List EntityType → Prop :=
  ItemsBecome BodyBecomes fun name members _ type => type.name = name ∧ MembersBecome members type

theorem ItemsBecome.resolve {items : List Item} {main main' : Option (List Stmt)}
    {types types' : List EntityType} (lowered : ItemsLowered items main types)
    (distinct : ∀ item ∈ items, item.Distinct)
    (bound : Option.Rel (fun stmts stmts' => Stmt.resolveAll stmts = .ok stmts') main main')
    (bound' : List.Forall₂ (fun type type' => type.resolve = .ok type') types types') :
    UnitBecomes items main' types' := by
  induction lowered generalizing main' types' with
  | nil =>
      cases bound
      cases bound'
      exact .nil
  | main inside _ inductionHypothesis =>
      obtain ⟨_, others⟩ := List.forall_mem_cons.mp distinct
      cases bound with
      | some found => exact .main (.of inside found) (inductionHypothesis others .none bound')
  | entity made _ inductionHypothesis =>
      obtain ⟨here, others⟩ := List.forall_mem_cons.mp distinct
      cases bound' with
      | cons found further =>
          exact .entity (members_become here.1 made found)
            (inductionHypothesis others bound further)

theorem ItemsBecome.names {items : List Item} {main : Option (List Stmt)}
    {types : List EntityType} (become : UnitBecomes items main types) :
    types.map EntityType.name = items.filterMap Item.entityName? := by
  induction become with
  | nil => rfl
  | main _ _ inductionHypothesis => exact inductionHypothesis
  | entity made _ inductionHypothesis =>
      rw [List.map_cons, made.1, inductionHypothesis]
      rfl

theorem ItemsBecome.distinct {items : List Item} {main : Option (List Stmt)}
    {types : List EntityType} (become : UnitBecomes items main types)
    (distinct : ∀ item ∈ items, item.Distinct) : ∀ type ∈ types, type.Distinct := by
  induction become with
  | nil => nofun
  | main _ _ inductionHypothesis =>
      exact inductionHypothesis (List.forall_mem_cons.mp distinct).2
  | entity made _ inductionHypothesis =>
      obtain ⟨here, others⟩ := List.forall_mem_cons.mp distinct
      exact List.forall_mem_cons.mpr
        ⟨made.2.distinct here.1 here.2, inductionHypothesis others⟩

theorem Program.main_types_of_resolve {program resolved : Program}
    (bound : program.resolve = .ok resolved) :
    resolved.name = program.name ∧
      Option.Rel (fun stmts stmts' => Stmt.resolveAll stmts = .ok stmts') program.main
        resolved.main ∧
      List.Forall₂ (fun type type' => type.resolve = .ok type') program.types resolved.types := by
  obtain ⟨name, main, types⟩ := program
  cases main with
  | none =>
      obtain ⟨main, none, bound⟩ := bind_eq_ok.mp bound
      cases none
      obtain ⟨types, found, bound⟩ := bind_eq_ok.mp bound
      cases bound
      exact ⟨rfl, .none, mapM_eq_ok.mp found⟩
  | some body =>
      obtain ⟨main, inside, bound⟩ := bind_eq_ok.mp bound
      obtain ⟨stmts, found', rfl⟩ := map_eq_ok.mp inside
      obtain ⟨types, found, bound⟩ := bind_eq_ok.mp bound
      cases bound
      exact ⟨rfl, .some found', mapM_eq_ok.mp found⟩

/-- The text tells the items one behind the other: the lexemes in front of its end stand in their
slots. -/
def Tells (text : String) (items : List Item) : Prop :=
  ∃ (account : Account) (final : Lexeme),
    lex (Source.stripComments text) = .ok (account.lexemes ++ [final]) ∧ final.token = .eof ∧
    account.slots = linesOf (items.map Item.slots) ∧ account.Fits ∧ account.Balanced

theorem Declaration.exists_items {text : String} {declarations : List Declaration}
    (read : Declaration.ofText text = .ok declarations) :
    ∃ items, Tells text items ∧ items.map Item.declaration = declarations ∧
      (∀ item ∈ items, item.Distinct) ∧ (items.filterMap Item.entityName?).Nodup := by
  obtain ⟨lexemes, cut, read⟩ := bind_eq_ok.mp read
  obtain ⟨_, others, _, rfl, only, _, _⟩ := exists_tiling_of_lex cut
  obtain ⟨items, rest, declares, same⟩ := exists_declares read
  obtain ⟨account, slots, split, fits, balanced⟩ := declares.laid
  have whole : account.lexemes = others :=
    eq_of_append_eof only fits.ne_eof rfl declares.nextToken_rest split
  exact ⟨items, ⟨account, _, whole ▸ cut, rfl, slots, fits, balanced⟩, same, declares.distinct,
    declares.names.1⟩

theorem ItemsBecome.mains {body : List Block → List Stmt → Prop}
    {entity : String → List Member → Span → EntityType → Prop} {items : List Item}
    {main : Option (List Stmt)} {types : List EntityType}
    (become : ItemsBecome body entity items main types) :
    List.Forall₂ body (items.filterMap Item.main?) main.toList := by
  induction become with
  | nil => exact .nil
  | main inside _ inductionHypothesis => exact .cons inside inductionHypothesis
  | entity _ _ inductionHypothesis => exact inductionHypothesis

/-- What a unit that is accepted declares. -/
structure Program.Declared (text : String) (items : List Item) (program : Program) : Prop where
  told : Tells text items
  names : (items.filterMap Item.entityName?).Nodup
  distinct : ∀ item ∈ items, item.Distinct
  become : UnitBecomes items program.main program.types

theorem Program.declared {name text : String} {program : Program}
    (accepted : Program.ofText name text = .ok program) :
    program.name = name ∧ ∃ items, program.Declared text items := by
  obtain ⟨declarations, read, accepted⟩ := bind_eq_ok.mp accepted
  obtain ⟨lowered, extended, bound⟩ := bind_eq_ok.mp accepted
  obtain ⟨items, told, rfl, distinct, names⟩ := Declaration.exists_items read
  obtain ⟨main, types, become, rfl, _⟩ := Program.lowered_of_extend extended
  obtain ⟨named, bound, bound'⟩ := Program.main_types_of_resolve bound
  rw [Option.or_none] at bound
  exact ⟨named, items, told, names, distinct, become.resolve distinct bound bound'⟩

theorem Program.names_apart {name text : String} {program : Program}
    (accepted : Program.ofText name text = .ok program) :
    (program.types.map EntityType.name).Nodup := by
  obtain ⟨_, items, declared⟩ := Program.declared accepted
  rw [declared.become.names]
  exact declared.names

/-- The text starts with the character. -/
def BeginsWith (first : Char) (text : String) : Prop := text.toList.head? = some first

theorem beginsWith_ofList {first : Char} {rest : List Char} :
    BeginsWith first (String.ofList (first :: rest)) := by
  rw [BeginsWith, String.toList_ofList, List.head?_cons]

theorem BeginsWith.append {first : Char} {text more : String} (begins : BeginsWith first text) :
    BeginsWith first (text ++ more) := by
  rw [BeginsWith, String.toList_append, List.head?_append, begins, Option.some_or]

theorem BeginsWith.ne {first second : Char} {text : String} {rest : List Char}
    (begins : BeginsWith first text) (other : first ≠ second) :
    text ≠ String.ofList (second :: rest) := by
  rintro rfl
  exact other (Option.some.inj (begins.symm.trans beginsWith_ofList))

/-- What is no problem about where blocks stand has a message that starts with neither of these
letters. -/
theorem Problem.message_begins {problem : Problem} (other : problem.misplacesBlock = false) :
    ∃ first, BeginsWith first problem.message ∧ first ≠ 'T' ∧ first ≠ 'S' := by
  cases problem with
  | _ problem =>
    cases problem
    -- What a message starts with is a literal; the other texts are appended to it.
    all_goals first
      | cases other; done
      | dsimp only [message, LexicalProblem.message, StructureProblem.message,
          ExpressionProblem.message, ReferenceProblem.message]
        apply Exists.intro
        apply And.intro
        · repeat' with_reducible apply BeginsWith.append
          exact beginsWith_ofList
        · decide

theorem Problem.message_ne {problem : Problem} (other : problem.misplacesBlock = false) :
    problem.message ≠ "Top-level block inside a body" ∧
      problem.message ≠ "Statement outside of a block" := by
  obtain ⟨first, begins, notTop, notStatement⟩ := Problem.message_begins other
  exact ⟨begins.ne notTop, begins.ne notStatement⟩

/-- What a unit declares is what its program has, in order.  In the blocks that are read, what
belongs at the top level stands there, and nothing else does; so lowering never comes to a block
that stands where it may not. -/
theorem declarations_survive_translation :
    (∀ name text program, Program.ofText name text = .ok program →
      program.name = name ∧ (program.types.map EntityType.name).Nodup ∧
      (∀ type ∈ program.types, type.Distinct) ∧
      ∃ items, program.Declared text items ∧ (items.filterMap Item.main?).length ≤ 1) ∧
    (∀ lexemes declarations, Declaration.ofLexemes lexemes = .ok declarations →
      ∀ declaration ∈ declarations, declaration.node.isTop = true ∧
        ∀ node ∈ declaration.inner, node.isTop = false) ∧
    ∀ name text diagnostic, Program.ofText name text = .error diagnostic →
      diagnostic.message ≠ "Top-level block inside a body" ∧
      diagnostic.message ≠ "Statement outside of a block" := by
  refine ⟨fun name text program accepted => ?_,
    fun lexemes declarations read declaration among => ?_,
    fun name text diagnostic rejected => ?_⟩
  · obtain ⟨named, items, declared⟩ := Program.declared accepted
    refine ⟨named, Program.names_apart accepted, declared.become.distinct declared.distinct, items,
      declared, ?_⟩
    rw [declared.become.mains.length_eq]
    cases program.main <;> simp
  · have settled := settled_readDeclarations read declaration among
    exact ⟨settled.top, settled.inner⟩
  · exact Problem.message_ne (Program.misplacesBlock_eq_false rejected)

/-- A ball, and a `main` that does nothing. -/
def ballUnit : String :=
  "entity Ball\n prop size = 2\n on 'hit'(by, at) -> end\n state hits\n init(size) -> end\n" ++
  " on 'gone' -> end\n tick -> end\n render() -> end\nend\nmain -> end"

theorem ballUnit_declared :
    ∃ program, Program.ofText "ball" ballUnit = .ok program ∧
      program.types.map (fun type => (type.name, type.initializers.map Initializer.name,
        type.initializers.map (·.value.isSome), type.handlers.names)) =
        [("Ball", ["size", "hits"], [true, false], ["hit", "gone"])] ∧
      (∀ type ∈ program.types, type.Distinct) ∧ ∃ items, program.Declared ballUnit items := by
  have found : (Program.ofText "ball" ballUnit).toOption.map (fun program =>
      program.types.map (fun type => (type.name, type.initializers.map Initializer.name,
        type.initializers.map (·.value.isSome), type.handlers.names))) =
        some [("Ball", ["size", "hits"], [true, false], ["hit", "gone"])] := by
    -- The characters of a literal are at hand, but to decode its bytes takes long.
    have characters : ballUnit.toList = _ :=
      String.toList_append.trans (congrArg₂ (· ++ ·) String.toList_ofList String.toList_ofList)
    rw [Program.ofText, Declaration.ofText, lex_stripComments, characters]
    decide +kernel
  cases accepted : Program.ofText "ball" ballUnit with
  | error diagnostic =>
      rw [accepted] at found
      cases found
  | ok program =>
      rw [accepted] at found
      obtain ⟨_, _, distinct, items, declared, _⟩ :=
        declarations_survive_translation.1 _ _ _ accepted
      exact ⟨program, rfl, Option.some.inj found, distinct, items, declared⟩

end EntityScript
