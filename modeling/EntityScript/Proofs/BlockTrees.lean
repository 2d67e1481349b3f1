import EntityScript.Proofs.BlockRules

/-!
Where the blocks of a unit stand.  A block may hold any other one; in what is read, `main` blocks
and entities are at the top level and nowhere else, and nothing else is there.
-/

namespace EntityScript

open Source (Span)

/-- What a node in the tree of a unit is. -/
inductive NodeKind where
  | main
  | entity
  | choice
  | loop
  | statement
  deriving DecidableEq, Repr

/-- Whether the node may stand at the top level, and only there. -/
def NodeKind.isTop : NodeKind → Bool
  | main | entity => true
  | choice | loop | statement => false

def Block.node : Block → NodeKind
  | main _ _ => .main
  | entity _ => .entity
  | choice _ _ _ => .choice
  | loop _ _ _ _ _ => .loop
  | statement _ => .statement

mutual

/-- All blocks in the bodies of the block. -/
def Block.inner : Block → List NodeKind
  | .main body _ => bodyNodes body
  | .entity definition => definition.nodes
  | .choice branches otherwise _ => branchNodes branches ++ otherwiseNodes otherwise
  | .loop _ _ _ body _ => bodyNodes body
  | .statement _ => []

def bodyNodes : List Block → List NodeKind
  | [] => []
  | block :: rest => block.node :: block.inner ++ bodyNodes rest

def branchNodes : List (Payload × List Block) → List NodeKind
  | [] => []
  | (_, body) :: rest => bodyNodes body ++ branchNodes rest

def otherwiseNodes : Option (List Block) → List NodeKind
  | none => []
  | some body => bodyNodes body

def Procedure.nodes : Procedure → List NodeKind
  | ⟨_, body, _⟩ => bodyNodes body

def procedureNodes : Option Procedure → List NodeKind
  | none => []
  | some procedure => procedure.nodes

def Handler.nodes : Handler → List NodeKind
  | ⟨_, _, body, _⟩ => bodyNodes body

def handlerNodes : List Handler → List NodeKind
  | [] => []
  | handler :: rest => handler.nodes ++ handlerNodes rest

def EntityBlock.nodes : EntityBlock → List NodeKind
  | ⟨_, _, init, tick, render, handlers, _⟩ =>
      procedureNodes init ++ procedureNodes tick ++ procedureNodes render ++ handlerNodes handlers

end

/-- Whether the problem is that a block stands where it may not. -/
def Problem.misplacesBlock : Problem → Bool
  | .structural .topLevelInside | .structural .statementOutside => true
  | _ => false

/-- None of the nodes belongs at the top level. -/
def Inside (nodes : List NodeKind) : Prop := ∀ node ∈ nodes, node.isTop = false

section Inside

variable {node : NodeKind} {nodes others : List NodeKind}

theorem inside_nil : Inside [] := List.forall_mem_nil _

theorem inside_cons : Inside (node :: nodes) ↔ node.isTop = false ∧ Inside nodes :=
  List.forall_mem_cons

theorem inside_append : Inside (nodes ++ others) ↔ Inside nodes ∧ Inside others :=
  List.forall_mem_append

end Inside

section Bodies

mutual

theorem inside_readBody {kind : BlockKind} {opener : Span} {blocks : List Block}
    {lexemes rest : List Lexeme} (reads : Reads (readBody kind opener lexemes) blocks rest) :
    Inside (bodyNodes blocks) := by
  obtain ⟨next, more, skipped, cases⟩ := reads_readBody.mp reads
  have shorter : more.length < lexemes.length := length_skipTerminators_cons skipped
  rcases cases with ⟨_, rfl, _⟩ | ⟨_, _, _, block, middle, first, others, further, rfl⟩
  · exact inside_nil
  · have shorter' := first.within
    exact inside_append.mpr ⟨inside_readBlock first, inside_readBody further⟩
termination_by 2 * lexemes.length + 0
decreasing_by all_goals omega

/-- An entity or a `main` inside of a body is a problem of its own. -/
theorem inside_readBlock {next : Lexeme} {block : Block} {lexemes rest : List Lexeme}
    (reads : Reads (readBlock next lexemes) block rest) : Inside (block.node :: block.inner) := by
  by_cases conditional : next.token = .kwIf
  · exact inside_readChoice ((reads_readBlock_of_if conditional).mp reads)
  by_cases repeated : next.token = .kwLoop
  · exact inside_readLoop ((reads_readBlock_of_loop repeated).mp reads)
  · obtain ⟨_, _, payload, _, rfl⟩ := (reads_readBlock_of_other conditional repeated).mp reads
    exact inside_cons.mpr ⟨rfl, inside_nil⟩
termination_by 2 * lexemes.length + 1
decreasing_by all_goals omega

theorem inside_readChoice {opener : Span} {block : Block} {lexemes rest : List Lexeme}
    (reads : Reads (readChoice opener lexemes) block rest) :
    Inside (block.node :: block.inner) := by
  obtain ⟨condition, inside, guarded, body, behind, first, further, middle, others, _, _, rfl⟩ :=
    reads_readChoice.mp reads
  have shorter := guarded.within
  have shorter' := first.within
  obtain ⟨branches, otherwise⟩ := inside_readAlternatives others
  exact inside_cons.mpr ⟨rfl,
    inside_append.mpr ⟨inside_append.mpr ⟨inside_readBody first, branches⟩, otherwise⟩⟩
termination_by 2 * lexemes.length + 0
decreasing_by all_goals omega

theorem inside_readAlternatives {opener : Span}
    {further : List (Payload × List Block) × Option (List Block)} {lexemes rest : List Lexeme}
    (reads : Reads (readAlternatives opener lexemes) further rest) :
    Inside (branchNodes further.1) ∧ Inside (otherwiseNodes further.2) := by
  by_cases alternative : nextToken lexemes = .kwElse
  · obtain ⟨next, more, same, found, shorter⟩ := cons_of_nextToken alternative nofun
    rw [same] at reads
    by_cases conditional : nextToken more = .kwIf
    · obtain ⟨inner, inside, same', found', shorter'⟩ := cons_of_nextToken conditional nofun
      rw [same'] at reads
      obtain ⟨condition, inside, guarded, body, behind, first, others, last, rfl⟩ :=
        (reads_readAlternatives_of_if found found').mp reads
      have shorter'' := guarded.within
      have shorter''' := first.within
      obtain ⟨branches, otherwise⟩ := inside_readAlternatives last
      exact ⟨inside_append.mpr ⟨inside_readBody first, branches⟩, otherwise⟩
    · obtain ⟨body, inner, _, rfl⟩ := (reads_readAlternatives_of_else found conditional).mp reads
      exact ⟨inside_nil, inside_readBody inner⟩
  · obtain ⟨rfl, _⟩ := (reads_readAlternatives_of_other alternative).mp reads
    exact ⟨inside_nil, inside_nil⟩
termination_by 2 * lexemes.length + 0
decreasing_by all_goals omega

theorem inside_readLoop {opener : Span} {block : Block} {lexemes rest : List Lexeme}
    (reads : Reads (readLoop opener lexemes) block rest) : Inside (block.node :: block.inner) := by
  obtain ⟨counter, named, counted, origin, started, from_, start, bounded, lower, bound, inside,
    upper, body, behind, inner, _, _, rfl⟩ := reads_readLoop.mp reads
  have shorter := counted.within
  have shorter' := from_.within
  have shorter'' := lower.within
  have shorter''' := upper.within
  exact inside_cons.mpr ⟨rfl, inside_readBody inner⟩
termination_by 2 * lexemes.length + 0
decreasing_by all_goals omega

end

end Bodies

section Units

variable {lexemes rest : List Lexeme}

theorem inside_readProcedure {kind : BlockKind} {opener : Span} {parameters : List String}
    {procedure : Procedure}
    (reads : Reads (readProcedure kind opener parameters lexemes) procedure rest) :
    Inside (bodyNodes procedure.body) := by
  obtain ⟨_, _, _, body, _, inner, _, _, rfl⟩ := reads_readProcedure.mp reads
  exact inside_readBody inner

def Member.nodes : Member → List NodeKind
  | property _ => []
  | init procedure | tick procedure | render procedure => bodyNodes procedure.body
  | handler declared => bodyNodes declared.body

theorem inside_readMember {entity : String} {next : Lexeme} {member : Member}
    (reads : Reads (readMember entity next lexemes) member rest) : Inside member.nodes := by
  rcases reads_readMember.mp reads with ⟨_, _, property, _, rfl⟩ |
    ⟨_, _, _, _, procedure, inner, rfl⟩ | ⟨_, procedure, inner, rfl⟩ |
    ⟨_, procedure, inner, rfl⟩ | ⟨_, handler, inner, rfl⟩
  · exact inside_nil
  · exact inside_readProcedure inner
  · obtain ⟨_, _, _, _, _, inner⟩ := reads_readTick.mp inner
    exact inside_readProcedure inner
  · obtain ⟨_, _, inner⟩ := reads_readRender.mp inner
    exact inside_readProcedure inner
  · obtain ⟨_, _, _, _, _, _, _, _, procedure, body, rfl⟩ := reads_readHandler.mp inner
    exact inside_readProcedure body

theorem procedureNodes_eq (procedure : Option Procedure) :
    procedureNodes procedure = procedure.toList.flatMap (bodyNodes ·.body) := by
  cases procedure with
  | none => rfl
  | some procedure =>
      cases procedure
      exact (List.append_nil _).symm

theorem handlerNodes_eq (handlers : List Handler) :
    handlerNodes handlers = handlers.flatMap (bodyNodes ·.body) := by
  induction handlers with
  | nil => rfl
  | cons handler rest inductionHypothesis =>
      cases handler
      rw [handlerNodes, inductionHypothesis, Handler.nodes, List.flatMap_cons]

namespace EntityBlock

/-- The blocks in an entity are those in its members. -/
theorem nodes_eq (entity : EntityBlock) : entity.nodes = entity.members.flatMap Member.nodes := by
  cases entity
  simp [nodes, members, procedureNodes_eq, handlerNodes_eq, List.flatMap_append, List.flatMap_map,
    Member.nodes]

theorem mem_nodes {entity : EntityBlock} {node : NodeKind} :
    node ∈ entity.nodes ↔ ∃ member ∈ entity.members, node ∈ member.nodes := by
  rw [nodes_eq, List.mem_flatMap]

theorem mem_of_mem_members_put {entity : EntityBlock} {member other : Member}
    (among : other ∈ (entity.put member).members) : other ∈ entity.members ∨ other = member := by
  revert among
  cases member <;> simp [members, put] <;> grind

theorem inside_nodes {entity : EntityBlock}
    (inside : ∀ member ∈ entity.members, Inside member.nodes) : Inside entity.nodes := by
  intro node among
  obtain ⟨member, one, found⟩ := mem_nodes.mp among
  exact inside member one node found

end EntityBlock

theorem inside_readMembers {entity finished : EntityBlock} {opener : Span} {lexemes : List Lexeme}
    (inside : ∀ member ∈ entity.members, Inside member.nodes)
    (reads : Reads (readMembers entity opener lexemes) finished rest) :
    ∀ member ∈ finished.members, Inside member.nodes := by
  obtain ⟨next, more, skipped, cases⟩ := reads_readMembers.mp reads
  rcases cases with ⟨_, rfl, _⟩ | ⟨_, _, member, middle, inner, _, further⟩
  · exact inside
  · have shorter := length_skipTerminators_cons skipped
    have shorter' := inner.within
    refine inside_readMembers (fun other among => ?_) further
    rcases EntityBlock.mem_of_mem_members_put among with among | rfl
    · exact inside other among
    · exact inside_readMember inner
termination_by lexemes.length
decreasing_by omega

/-- The block belongs at the top level, and none of the blocks in it does. -/
structure Block.Settled (block : Block) : Prop where
  top : block.node.isTop = true
  inner : Inside block.inner

theorem settled_readDeclarations {seen : List String} {declarations : List Declaration}
    {lexemes : List Lexeme} (reads : readDeclarations seen lexemes = .ok declarations) :
    ∀ declaration ∈ declarations, declaration.Settled := by
  rcases readDeclarations_eq_ok.mp reads with ⟨_, rfl⟩ | ⟨next, more, skipped, cases⟩
  · nofun
  have shorter := length_skipTerminators_cons skipped
  rcases cases with ⟨_, entity, middle, first, _, others, further, rfl⟩ |
    ⟨_, procedure, middle, first, others, further, rfl⟩
  · have shorter' := first.within
    obtain ⟨name, _, _, listed⟩ := reads_readEntity.mp first
    have unset : ∀ member ∈ (EntityBlock.empty name.1 next.span).members, Inside member.nodes :=
      List.forall_mem_nil _
    exact List.forall_mem_cons.mpr ⟨⟨rfl, EntityBlock.inside_nodes
      (inside_readMembers unset listed)⟩, settled_readDeclarations further⟩
  · have shorter' := first.within
    exact List.forall_mem_cons.mpr
      ⟨⟨rfl, inside_readProcedure first⟩, settled_readDeclarations further⟩
termination_by lexemes.length
decreasing_by all_goals omega

end Units

end EntityScript
