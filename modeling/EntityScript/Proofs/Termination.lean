import EntityScript.Proofs.Keeping
import EntityScript.Proofs.Registry
import EntityScript.Proofs.Unfolding

/-!
Code without loops always comes to an end.
-/

namespace EntityScript

open Script

def EntityType.loopFree (type : EntityType) : Bool :=
  allLoopFree type.constructor.body && type.tick.all (allLoopFree ·.body) &&
    type.render.all (allLoopFree ·.body) && type.handlers.entries.all (allLoopFree ·.2.body)

def Program.loopFree (program : Program) : Bool :=
  program.main.all allLoopFree && program.types.all EntityType.loopFree

/-- Whether what a unit is translated to contains no loop; one that cannot be translated is
never installed. -/
def SourceUnit.loopFree (unit : SourceUnit) : Bool :=
  match Program.ofText unit.name unit.text with
  | .ok program => program.loopFree
  | .error _ => true

/-- Whether an operation installs only code without loops. -/
def Operation.loopFree : Operation → Bool
  | .install program => program.loopFree
  | .load unit => unit.loopFree
  | .loadAll items => items.all fun item =>
      match item with
      | .ok unit => unit.loopFree
      | .error _ => true
  | _ => true

/-- Code is to be without loops. -/
def Stock.loopFree : Stock :=
  ⟨fun body => allLoopFree body = true, fun type => type.loopFree = true⟩

/-- There is no loop in the code that a world has. -/
abbrev World.LoopFree (world : World) : Prop := world.Stocked .loopFree

theorem EntityType.loopFree_method {type : EntityType} {call : EntityCall} {method : Method}
    (free : type.loopFree = true) (found : call.method? type = some method) :
    allLoopFree method.body = true := by
  simp only [loopFree, Bool.and_eq_true] at free
  exact all_method free.1.1.2 free.1.2 free.2 found

theorem Stock.loopFree_permits : loopFree.Permits false where
  main free := .inr free
  constructor free := by
    simp only [Stock.loopFree, EntityType.loopFree, Bool.and_eq_true] at free
    exact .inr free.1.1.1
  method free found := .inr (EntityType.loopFree_method free found)

theorem Program.stocked_of_loopFree {program : Program} (free : program.loopFree = true) :
    program.Stocked .loopFree := by
  simp only [loopFree, Bool.and_eq_true, Option.all_eq_true, List.all_eq_true] at free
  exact ⟨free.1, free.2⟩

theorem SourceUnit.stocked_of_loopFree {unit : SourceUnit} (free : unit.loopFree = true) :
    unit.Stocked .loopFree := by
  intro program translated
  simp only [loopFree, translated] at free
  exact Program.stocked_of_loopFree free

theorem Operation.stocked_of_loopFree {operation : Operation} (free : operation.loopFree = true) :
    operation.Stocked .loopFree := by
  cases operation with
  | install program => exact Program.stocked_of_loopFree free
  | load unit => exact SourceUnit.stocked_of_loopFree free
  | loadAll items =>
      intro unit member
      exact SourceUnit.stocked_of_loopFree (List.all_eq_true.mp free _ member)
  | _ => trivial

theorem World.LoopFree.initial (settings : Settings) (hasKeys : Bool) :
    (World.initial settings hasKeys).LoopFree := Stocked.initial settings hasKeys

theorem Operation.completes {operation : Operation} (operationFree : operation.loopFree = true)
    (session : Session) (free : session.world.LoopFree) :
    ∃ after, (operation.perform session).state? = some after ∧ after.world.LoopFree :=
  (Operation.keeps Stock.loopFree_permits (stocked_of_loopFree operationFree) session
    free).resolve_left fun permitted => nomatch permitted.1

namespace Session

theorem loopFree_through {operations : List Operation} {session after : Session}
    (operationsFree : ∀ operation ∈ operations, operation.loopFree = true)
    (free : session.world.LoopFree) (reached : through operations session = some after) :
    after.world.LoopFree :=
  stocked_through (fun _ member => Operation.stocked_of_loopFree (operationsFree _ member)) free
    reached

/-- Where no loops were installed, every operation comes to an end, however the scripts start
each other.  That they run on levels of call depth does not limit them: a recursion that
checks the depth and nothing else, unfolded any number of times beyond the limit, starts the
same. -/
theorem ends_of_loopFree {operations : List Operation} {settings : Settings} {hasKeys : Bool}
    {session : Session} (operationsFree : ∀ operation ∈ operations, operation.loopFree = true)
    (reached : through operations (start (World.initial settings hasKeys)) = some session)
    (operation : Operation) :
    (∃ after, session.Leads operation after) ∧
      ∀ unfoldings, maxCallDepth < unfoldings →
        Calls.current.Agree (fun _ => True) (.unfolded unfoldings) := by
  constructor
  · have free := loopFree_through operationsFree (World.LoopFree.initial settings hasKeys) reached
    cases operationFree : operation.loopFree with
    | true =>
        obtain ⟨after, ends, _⟩ := Operation.completes operationFree session free
        exact ⟨after, ends⟩
    | false =>
        -- What installs loops runs no scripts.
        cases operation with
        | install program => exact ⟨_, rfl⟩
        | load unit => exact ⟨_, rfl⟩
        | loadAll items => exact ⟨_, rfl⟩
        | _ => cases operationFree
  · intro unfoldings enough
    have agrees := Calls.unfolded_agrees unfoldings
    have within : ∀ world : World, maxCallDepth - world.depth < unfoldings :=
      fun world => Nat.lt_of_le_of_lt (Nat.sub_le _ _) enough
    exact ⟨fun _ => agrees.spawn (within _), fun _ => agrees.emit (within _)⟩

theorem ends_in_garden : ∃ session after : Session,
    through gardening (start (World.initial .default false)) = some session ∧
      session.Leads (.step 0) after := by
  have operationsFree : ∀ operation ∈ gardening, operation.loopFree = true := by decide +kernel
  obtain ⟨session, reached⟩ := Option.isSome_iff_exists.mp
    (show (through gardening (start (World.initial .default false))).isSome from by
      decide +kernel)
  obtain ⟨after, leads⟩ := (ends_of_loopFree operationsFree reached (.step 0)).1
  exact ⟨session, after, reached, leads⟩

end Session

end EntityScript
