import EntityScript.Proofs.Finishes
import EntityScript.Program.Lowering
import EntityScript.Proofs.UnitRefilling

/-!
Programs of units that are alike.  Where payloads are exchanged for others that say the same, a
unit that is a program still is one, and the same one.
-/

namespace EntityScript

open Source (Span)

/-- What the one payload says as an expression or as a statement, the other one says as well. -/
structure Payload.Restates (payload other : Payload) : Prop where
  expr : Carries payload.toExpr other.toExpr
  stmt : Carries payload.toStmt other.toStmt

instance : Std.Refl Payload.Restates := ⟨fun _ => ⟨.refl _, .refl _⟩⟩

/-- What a payload says depends on what is left of it without annotations only. -/
theorem Payload.restates_of_stripAnnotations {payload other : Payload}
    (same : stripAnnotations other.lexemes = stripAnnotations payload.lexemes) :
    payload.Restates other := by
  constructor
  · rw [toExpr, toExpr, same]
    exact Expr.carries_ofLexemes _ _ _
  · rw [toStmt, toStmt, same]
    exact Stmt.carries_ofLexemes _ _ _

section Bodies

mutual

theorem Block.Alike.carries {block block' : Block}
    (alike : Block.Alike Payload.Restates block block') : Carries block.toStmt block'.toStmt := by
  cases alike with
  | statement related =>
      rw [Block.toStmt, Block.toStmt]
      exact related.stmt
  | choice guarded last =>
      cases last with
      | none =>
          rw [Block.toStmt, Block.toStmt]
          exact guarded.carries.bind fun _ => .refl _
      | some inside =>
          rw [Block.toStmt, Block.toStmt]
          apply guarded.carries.bind
          intro branches
          exact inside.carries.bind fun _ => .refl _
  | loop lower upper inside =>
      rw [Block.toStmt, Block.toStmt]
      apply lower.expr.bind
      intro start
      apply upper.expr.bind
      intro bound
      exact inside.carries.bind fun _ => .refl _

theorem BodyAlike.carries {body body' : List Block}
    (alike : BodyAlike Payload.Restates body body') :
    Carries (Block.toStmts body) (Block.toStmts body') := by
  cases alike with
  | nil => exact .refl _
  | cons first further =>
      rw [Block.toStmts, Block.toStmts]
      apply first.carries.bind
      intro stmt
      exact further.carries.bind fun _ => .refl _

theorem BranchesAlike.carries {branches branches' : List (Payload × List Block)}
    (alike : BranchesAlike Payload.Restates branches branches') :
    Carries (Block.toBranches branches) (Block.toBranches branches') := by
  cases alike with
  | nil => exact .refl _
  | cons guard inside further =>
      rw [Block.toBranches, Block.toBranches]
      apply guard.expr.bind
      intro condition
      apply inside.carries.bind
      intro body
      exact further.carries.bind fun _ => .refl _

end

end Bodies

section Entities

theorem Procedure.Alike.carries {procedure other : Procedure}
    (alike : procedure.Alike Payload.Restates other) :
    Carries procedure.toMethod other.toMethod := by
  rw [Procedure.toMethod, Procedure.toMethod, alike.parameters]
  exact alike.body.carries.bind fun _ => .refl _

theorem Procedure.carries_toMethod? {procedure other : Option Procedure}
    (alike : Option.Rel (Procedure.Alike Payload.Restates) procedure other) :
    Carries (Procedure.toMethod? procedure) (Procedure.toMethod? other) := by
  cases alike with
  | none => exact .refl _
  | some alike => exact alike.carries.map

theorem Property.Alike.carries {property other : Property}
    (alike : property.Alike Payload.Restates other) :
    Carries property.toInitializer other.toInitializer := by
  obtain ⟨name, kind, initializer, span⟩ := property
  obtain ⟨name', kind', initializer', span'⟩ := other
  obtain ⟨rfl, _, related⟩ := alike
  cases related with
  | none => exact .refl _
  | some related => exact related.expr.bind fun _ => .refl _

theorem Property.carries_mapM {properties others : List Property}
    (alike : List.Forall₂ (Property.Alike Payload.Restates) properties others) :
    Carries (properties.mapM Property.toInitializer) (others.mapM Property.toInitializer) := by
  induction alike with
  | nil => exact .refl _
  | cons first _ inductionHypothesis =>
      rw [List.mapM_cons, List.mapM_cons]
      apply first.carries.bind
      intro initializer
      exact inductionHypothesis.bind fun _ => .refl _

theorem Handler.carries_toMethods {handlers others : List Handler}
    (alike : List.Forall₂ (Handler.Alike Payload.Restates) handlers others)
    (methods : Bindings Method) :
    Carries (Handler.toMethods handlers methods) (Handler.toMethods others methods) := by
  induction alike generalizing methods with
  | nil => exact .refl _
  | cons first _ inductionHypothesis =>
      rw [Handler.toMethods, Handler.toMethods, first.event, first.parameters]
      apply first.body.carries.bind
      intro body
      exact inductionHypothesis _

/-- The entities are the same apart from payloads, and those of the one are related to those of
the other. -/
structure EntityBlock.Alike (R : Payload → Payload → Prop) (entity other : EntityBlock) : Prop where
  name : entity.name = other.name
  properties : List.Forall₂ (Property.Alike R) entity.properties other.properties
  init : Option.Rel (Procedure.Alike R) entity.init other.init
  tick : Option.Rel (Procedure.Alike R) entity.tick other.tick
  render : Option.Rel (Procedure.Alike R) entity.render other.render
  handlers : List.Forall₂ (Handler.Alike R) entity.handlers other.handlers
  span : entity.span = other.span

theorem EntityBlock.alike_empty {R : Payload → Payload → Prop} (name : String) (span : Span) :
    (EntityBlock.empty name span).Alike R (.empty name span) :=
  ⟨rfl, .nil, .none, .none, .none, .nil, rfl⟩

theorem EntityBlock.Alike.put {R : Payload → Payload → Prop} {entity other : EntityBlock}
    {member member' : Member} (alike : entity.Alike R other) (last : member.Alike R member') :
    (entity.put member).Alike R (other.put member') := by
  cases last with
  | property related =>
      exact { alike with properties := List.rel_append alike.properties (.cons related .nil) }
  | init related => exact { alike with init := .some related }
  | tick related => exact { alike with tick := .some related }
  | render related => exact { alike with render := .some related }
  | handler related =>
      exact { alike with handlers := List.rel_append alike.handlers (.cons related .nil) }

theorem EntityBlock.Alike.foldl_put {R : Payload → Payload → Prop} {entity other : EntityBlock}
    {members members' : List Member} (alike : entity.Alike R other)
    (further : List.Forall₂ (Member.Alike R) members members') :
    (members.foldl EntityBlock.put entity).Alike R (members'.foldl EntityBlock.put other) := by
  induction further generalizing entity other with
  | nil => exact alike
  | cons first _ inductionHypothesis => exact inductionHypothesis (alike.put first)

theorem EntityBlock.Alike.carries {entity other : EntityBlock}
    (alike : entity.Alike Payload.Restates other) : Carries entity.toType other.toType := by
  rw [EntityBlock.toType, EntityBlock.toType, alike.name, alike.span]
  apply (Property.carries_mapM alike.properties).bind
  intro initializers
  apply (Procedure.carries_toMethod? alike.init).bind
  intro constructor
  apply (Procedure.carries_toMethod? alike.tick).bind
  intro tick
  apply (Procedure.carries_toMethod? alike.render).bind
  intro render
  exact (Handler.carries_toMethods alike.handlers _).bind fun _ => .refl _

end Entities

theorem Program.carries_extend {items items' : List Item}
    (alike : List.Forall₂ (Item.Alike Payload.Restates) items items') (program : Program) :
    Carries (program.extend (items.map Item.declaration))
      (program.extend (items'.map Item.declaration)) := by
  induction alike generalizing program with
  | nil => exact .refl _
  | cons first _ inductionHypothesis =>
      cases first with
      | main inside =>
          rw [List.map_cons, List.map_cons, Item.declaration, Item.declaration, Program.extend,
            Program.extend]
          split
          · exact .refl _
          · apply inside.carries.bind
            intro body
            exact inductionHypothesis _
      | entity members =>
          rw [List.map_cons, List.map_cons, Item.declaration, Item.declaration, Program.extend,
            Program.extend]
          apply ((EntityBlock.alike_empty _ _).foldl_put members).carries.bind
          intro type
          exact inductionHypothesis _

end EntityScript
