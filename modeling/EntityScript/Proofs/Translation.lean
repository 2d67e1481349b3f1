import Mathlib.Data.List.Forall2
import EntityScript.Program.Resolution
import EntityScript.Proofs.Distinctness

/-!
What the parts of an entity become: its properties initializers, its procedures methods, its
handlers a table by event.  Handlers of one event would be merged in the table, and of two
procedures of one kind only one would be left; as no two members of an entity are of one kind,
nothing is lost.
-/

namespace EntityScript

open Source (Span)

section Related

variable {α β γ : Type} {R : α → β → Prop} {firsts : List α} {seconds : List β}

theorem map_eq_of_forall₂ {first : α → γ} {second : β → γ}
    (agree : ∀ item other, R item other → second other = first item)
    (related : List.Forall₂ R firsts seconds) : seconds.map second = firsts.map first := by
  have same : List.Forall₂ (· = ·) (seconds.map second) (firsts.map first) :=
    List.forall₂_map_left_iff.mpr (List.forall₂_map_right_iff.mpr
      (related.flip.imp fun other item holds => agree item other holds))
  rwa [List.forall₂_eq_eq_eq] at same

theorem exists_of_forall₂ (related : List.Forall₂ R firsts seconds) {other : β}
    (among : other ∈ seconds) : ∃ item ∈ firsts, R item other := by
  induction related with
  | nil => cases among
  | cons here _ inductionHypothesis =>
      rcases List.mem_cons.mp among with rfl | among
      · exact ⟨_, List.mem_cons_self, here⟩
      · obtain ⟨item, one, holds⟩ := inductionHypothesis among
        exact ⟨item, List.mem_cons_of_mem _ one, holds⟩

theorem forall₂_chain {S : β → γ → Prop} {T : α → γ → Prop} {thirds : List γ}
    (chain : ∀ first second third, R first second → S second third → T first third)
    (before : List.Forall₂ R firsts seconds) (after : List.Forall₂ S seconds thirds) :
    List.Forall₂ T firsts thirds := by
  induction before generalizing thirds with
  | nil =>
      cases after
      exact .nil
  | cons first _ inductionHypothesis =>
      cases after with
      | cons second others => exact .cons (chain _ _ _ first second) (inductionHypothesis others)

end Related

theorem mapM_eq_ok {α β : Type} {change : α → Reading β} {items : List α} {results : List β} :
    items.mapM change = .ok results ↔
      List.Forall₂ (fun item result => change item = .ok result) items results := by
  induction items generalizing results with
  | nil => rw [List.mapM_nil, pure_eq_ok, List.forall₂_nil_left_iff, eq_comm]
  | cons item rest inductionHypothesis =>
      simp only [List.mapM_cons, bind_eq_ok, pure_eq_ok, inductionHypothesis,
        List.forall₂_cons_left_iff]
      constructor
      · rintro ⟨first, made, others, further, rfl⟩
        exact ⟨first, others, made, further, rfl⟩
      · rintro ⟨first, others, made, further, rfl⟩
        exact ⟨first, made, others, further, rfl⟩

/-- The statements are what the body says, references resolved. -/
def BodyBecomes (body : List Block) (stmts : List Stmt) : Prop :=
  (Block.toStmts body >>= Stmt.resolveAll) = .ok stmts

structure Procedure.Becomes (procedure : Procedure) (method : Method) : Prop where
  parameters : method.parameters = procedure.parameters
  body : BodyBecomes procedure.body method.body

structure Handler.Becomes (handler : Handler) (entry : String × Method) : Prop where
  event : entry.1 = handler.event
  parameters : entry.2.parameters = handler.parameters
  body : BodyBecomes handler.body entry.2.body

/-- The initializer has a value if the property is declared with one, which is what its payload
says. -/
structure Property.Becomes (property : Property) (initializer : Initializer) : Prop where
  name : initializer.name = property.name
  value : Option.Rel (fun payload value => (payload.toExpr >>= Expr.resolve) = .ok value)
    property.initializer initializer.value

theorem BodyBecomes.of {body : List Block} {stmts resolved : List Stmt}
    (lowered : Block.toStmts body = .ok stmts) (bound : Stmt.resolveAll stmts = .ok resolved) :
    BodyBecomes body resolved :=
  bind_eq_ok.mpr ⟨stmts, lowered, bound⟩

theorem Property.becomes {property : Property} {initializer resolved : Initializer}
    (lowered : property.toInitializer = .ok initializer)
    (bound : initializer.resolve = .ok resolved) : property.Becomes resolved := by
  obtain ⟨name, kind, payload, span⟩ := property
  cases payload with
  | none =>
      cases lowered
      cases bound
      exact ⟨rfl, .none⟩
  | some payload =>
      obtain ⟨value, read, rest⟩ := bind_eq_ok.mp lowered
      cases rest
      obtain ⟨value', found, rest⟩ := bind_eq_ok.mp bound
      cases rest
      exact ⟨rfl, .some (bind_eq_ok.mpr ⟨value, read, found⟩)⟩

theorem Procedure.becomes {procedure : Procedure} {method resolved : Method}
    (lowered : procedure.toMethod = .ok method) (bound : method.resolve = .ok resolved) :
    procedure.Becomes resolved := by
  obtain ⟨body, read, rest⟩ := bind_eq_ok.mp lowered
  cases rest
  obtain ⟨body', found, rest⟩ := bind_eq_ok.mp bound
  cases rest
  exact ⟨rfl, .of read found⟩

theorem Procedure.becomes? {procedure : Option Procedure} {method resolved : Option Method}
    (lowered : Procedure.toMethod? procedure = .ok method)
    (bound : Method.resolve? method = .ok resolved) :
    List.Forall₂ Procedure.Becomes procedure.toList resolved.toList := by
  cases procedure with
  | none =>
      cases lowered
      cases bound
      exact .nil
  | some procedure =>
      obtain ⟨method, read, rfl⟩ := map_eq_ok.mp lowered
      obtain ⟨resolved, found, rfl⟩ := map_eq_ok.mp bound
      exact .cons (becomes read found) .nil

/-- Handlers of different events each get a place in the table, in order. -/
theorem Handler.entries_toMethods {handlers : List Handler} {methods table : Bindings Method}
    (apart : (handlers.map Handler.event).Nodup)
    (fresh : ∀ handler ∈ handlers, handler.event ∉ methods.names)
    (lowered : Handler.toMethods handlers methods = .ok table) :
    ∃ entries, table.entries = methods.entries ++ entries ∧
      List.Forall₂ (fun handler entry => ∃ body, Block.toStmts handler.body = .ok body ∧
        entry = (handler.event, ⟨handler.parameters, body⟩)) handlers entries := by
  induction handlers generalizing methods with
  | nil =>
      cases lowered
      exact ⟨[], (List.append_nil _).symm, .nil⟩
  | cons handler rest inductionHypothesis =>
      obtain ⟨alone, apart⟩ := List.nodup_cons.mp apart
      obtain ⟨here, others⟩ := List.forall_mem_cons.mp fresh
      obtain ⟨body, read, further⟩ := bind_eq_ok.mp lowered
      have later : ∀ other ∈ rest,
          other.event ∉ (methods.insert handler.event ⟨handler.parameters, body⟩).names := by
        intro other among known
        rw [Bindings.names_insert, if_neg here, List.mem_append, List.mem_singleton] at known
        rcases known with known | same
        · exact others other among known
        · exact alone (same ▸ List.mem_map_of_mem among)
      obtain ⟨entries, same, related⟩ := inductionHypothesis apart later further
      rw [Bindings.entries_insert here, List.append_assoc] at same
      exact ⟨_, same, .cons ⟨body, read, rfl⟩ related⟩

theorem Method.resolveEntries_eq_ok {entries resolved : List (String × Method)} :
    Method.resolveEntries entries = .ok resolved ↔
      List.Forall₂ (fun entry entry' => entry.1 = entry'.1 ∧ entry.2.resolve = .ok entry'.2)
        entries resolved := by
  induction entries generalizing resolved with
  | nil =>
      rw [resolveEntries, List.forall₂_nil_left_iff]
      exact ⟨fun same => (Except.ok.inj same).symm, fun same => same ▸ rfl⟩
  | cons entry rest inductionHypothesis =>
      simp only [resolveEntries, bind_eq_ok, pure_eq_ok, inductionHypothesis,
        List.forall₂_cons_left_iff]
      constructor
      · rintro ⟨method, bound, others, further, rfl⟩
        exact ⟨(entry.1, method), others, ⟨rfl, bound⟩, further, rfl⟩
      · rintro ⟨⟨event, method⟩, others, ⟨rfl, bound⟩, further, rfl⟩
        exact ⟨method, bound, others, further, rfl⟩

theorem Handler.becomes {handlers : List Handler} {table : Bindings Method}
    {entries : List (String × Method)} (apart : (handlers.map Handler.event).Nodup)
    (lowered : Handler.toMethods handlers .empty = .ok table)
    (bound : Method.resolveEntries table.entries = .ok entries) :
    List.Forall₂ Handler.Becomes handlers entries := by
  obtain ⟨entries, same, related⟩ := entries_toMethods apart (fun _ _ => List.not_mem_nil) lowered
  rw [same] at bound
  refine forall₂_chain ?_ related (Method.resolveEntries_eq_ok.mp bound)
  rintro handler _ ⟨event, method⟩ ⟨body, read, rfl⟩ ⟨rfl, found⟩
  obtain ⟨body', inside, rest⟩ := bind_eq_ok.mp found
  cases rest
  exact ⟨rfl, rfl, .of read inside⟩

namespace Member

def property? : Member → Option Property
  | property declared => some declared
  | _ => none

def handler? : Member → Option Handler
  | handler declared => some declared
  | _ => none

/-- The body of the member, if it is of the kind and not a handler. -/
def procedure? : MemberKind → Member → Option Procedure
  | .init, init procedure | .tick, tick procedure | .render, render procedure => some procedure
  | _, _ => none

theorem kind_of_procedure? {kind : MemberKind} {member : Member} {procedure : Procedure}
    (found : member.procedure? kind = some procedure) : member.kind = kind := by
  cases kind <;> cases member <;> first | rfl | cases found

end Member

namespace EntityBlock

variable (entity : EntityBlock) (members : List Member)

def procedure? : MemberKind → Option Procedure
  | .init => entity.init
  | .tick => entity.tick
  | .render => entity.render
  | _ => none

theorem properties_foldl_put :
    (members.foldl put entity).properties =
      entity.properties ++ members.filterMap Member.property? := by
  induction members generalizing entity with
  | nil => simp
  | cons member rest inductionHypothesis =>
      rw [List.foldl_cons, inductionHypothesis]
      cases member <;> simp [put, List.filterMap_cons, Member.property?]

theorem handlers_foldl_put :
    (members.foldl put entity).handlers =
      entity.handlers ++ members.filterMap Member.handler? := by
  induction members generalizing entity with
  | nil => simp
  | cons member rest inductionHypothesis =>
      rw [List.foldl_cons, inductionHypothesis]
      cases member <;> simp [put, List.filterMap_cons, Member.handler?]

/-- Of several members of one kind the last one counts. -/
theorem procedure?_foldl_put (kind : MemberKind) :
    (members.foldl put entity).procedure? kind =
      (members.filterMap (Member.procedure? kind)).getLast?.or (entity.procedure? kind) := by
  induction members generalizing entity with
  | nil => rfl
  | cons member rest inductionHypothesis =>
      rw [List.foldl_cons, inductionHypothesis, List.filterMap_cons]
      cases kind <;> cases member <;>
        simp [put, Member.procedure?, procedure?, List.getLast?_cons]

theorem procedure?_empty (name : String) (span : Span) (kind : MemberKind) :
    (empty name span).procedure? kind = none := by
  cases kind <;> rfl

end EntityBlock

section Members

variable {members : List Member}

/-- What is selected from members of different kinds differs where the kind depends on it. -/
theorem apart_of_kinds {α β : Type} {select : Member → Option α} (key : α → β)
    (kind : β → MemberKind)
    (selects : ∀ member part, select member = some part → member.kind = kind (key part))
    (apart : (members.map Member.kind).Nodup) :
    ((members.filterMap select).map key).Nodup := by
  rw [List.Nodup, List.pairwise_map] at apart
  rw [List.Nodup, List.pairwise_map, List.pairwise_filterMap]
  apply apart.imp
  intro first second different part one part' other same
  exact different (by rw [selects _ _ one, selects _ _ other, same])

theorem properties_apart (apart : (members.map Member.kind).Nodup) :
    ((members.filterMap Member.property?).map Property.name).Nodup := by
  refine apart_of_kinds Property.name .property (fun member part found => ?_) apart
  cases member <;> cases found
  rfl

theorem events_apart (apart : (members.map Member.kind).Nodup) :
    ((members.filterMap Member.handler?).map Handler.event).Nodup := by
  refine apart_of_kinds Handler.event .handler (fun member part found => ?_) apart
  cases member <;> cases found
  rfl

theorem toList_procedure? (apart : (members.map Member.kind).Nodup) (kind : MemberKind) :
    (members.filterMap (Member.procedure? kind)).getLast?.toList =
      members.filterMap (Member.procedure? kind) := by
  have single := apart_of_kinds (fun _ => ()) (fun _ => kind)
    (fun _ _ => Member.kind_of_procedure?) apart
  match members.filterMap (Member.procedure? kind), single with
  | [], _ => rfl
  | [procedure], _ => rfl
  | _ :: _ :: _, twice => exact absurd rfl (List.rel_of_pairwise_cons twice List.mem_cons_self)

/-- The parts of a type are what the members of the entity say, in order: none is lost, and none
is there twice. -/
structure MembersBecome (members : List Member) (type : EntityType) : Prop where
  initializers : List.Forall₂ Property.Becomes (members.filterMap Member.property?)
    type.initializers
  /-- Without an `init` nothing is done after the initializers. -/
  constructor : ∃ method : Option Method, type.constructor = method.getD ⟨[], []⟩ ∧
    List.Forall₂ Procedure.Becomes (members.filterMap (Member.procedure? .init)) method.toList
  tick : List.Forall₂ Procedure.Becomes (members.filterMap (Member.procedure? .tick))
    type.tick.toList
  render : List.Forall₂ Procedure.Becomes (members.filterMap (Member.procedure? .render))
    type.render.toList
  handlers : List.Forall₂ Handler.Becomes (members.filterMap Member.handler?)
    type.handlers.entries

theorem members_become {name : String} {span : Span} {type resolved : EntityType}
    (apart : (members.map Member.kind).Nodup)
    (lowered : (members.foldl EntityBlock.put (.empty name span)).toType = .ok type)
    (bound : type.resolve = .ok resolved) :
    resolved.name = name ∧ MembersBecome members resolved := by
  obtain ⟨initializers, properties, lowered⟩ := bind_eq_ok.mp lowered
  obtain ⟨constructor, init, lowered⟩ := bind_eq_ok.mp lowered
  obtain ⟨tick, ticks, lowered⟩ := bind_eq_ok.mp lowered
  obtain ⟨render, renders, lowered⟩ := bind_eq_ok.mp lowered
  obtain ⟨table, handlers, lowered⟩ := bind_eq_ok.mp lowered
  cases lowered
  obtain ⟨initializers', properties', bound⟩ := bind_eq_ok.mp bound
  obtain ⟨constructor', init', bound⟩ := bind_eq_ok.mp bound
  obtain ⟨tick', ticks', bound⟩ := bind_eq_ok.mp bound
  obtain ⟨render', renders', bound⟩ := bind_eq_ok.mp bound
  obtain ⟨entries, handlers', bound⟩ := bind_eq_ok.mp bound
  cases bound
  have procedures (kind : MemberKind) :
      ((members.foldl EntityBlock.put (.empty name span)).procedure? kind).toList =
        members.filterMap (Member.procedure? kind) := by
    rw [EntityBlock.procedure?_foldl_put, EntityBlock.procedure?_empty, Option.or_none,
      toList_procedure? apart]
  refine ⟨EntityBlock.foldl_put_name _ members,
    ?initializers, ?constructor, ?tick, ?render, ?handlers⟩
  case initializers =>
    rw [EntityBlock.properties_foldl_put] at properties
    apply forall₂_chain _ (mapM_eq_ok.mp properties) (mapM_eq_ok.mp properties')
    exact fun _ _ _ => Property.becomes
  case constructor =>
    rw [← procedures .init]
    cases constructor with
    | none =>
        cases init'
        exact ⟨none, rfl, Procedure.becomes? init rfl⟩
    | some method =>
        exact ⟨some constructor', rfl,
          Procedure.becomes? init (map_eq_ok.mpr ⟨_, init', rfl⟩)⟩
  case tick =>
    rw [← procedures .tick]
    exact Procedure.becomes? ticks ticks'
  case render =>
    rw [← procedures .render]
    exact Procedure.becomes? renders renders'
  case handlers =>
    rw [EntityBlock.handlers_foldl_put] at handlers
    exact Handler.becomes (events_apart apart) handlers handlers'

end Members

end EntityScript
