import EntityScript.Proofs.Turns

/-!
Recursion through the call depth.  Scripts start calls as long as the depth that the world
counts is below the limit.  A recursion that does nothing but check this comes to an end
however it goes on, and does what is done with a fixed number of levels.
-/

namespace EntityScript

open Script

/-- Such calls can be started one level deeper if the depth permits it. -/
def World.permit (world : World) (calls : Calls) : Option Calls :=
  if world.depth < maxCallDepth then some calls else none

/-- What scripts can start, given what that starts in turn. -/
def Calls.unfold (calls : Calls) : Calls where
  spawn typeName arguments world := construct (world.permit calls) typeName arguments world
  emit event payload world := broadcast (world.permit calls) (.handler event payload) world

/-- What scripts can start when the recursion is unfolded so many times, and then never ends. -/
def Calls.unfolded : Nat → Calls
  | 0 => ⟨fun _ _ => endless, fun _ _ => endless⟩
  | unfoldings + 1 => (unfolded unfoldings).unfold

section Unfold

variable {calls : Calls} {world : World}

theorem World.permit_congr {after : World} (depth : after.depth = world.depth) :
    after.permit calls = world.permit calls := by
  rw [permit, permit, depth]

theorem enter_unfold {α : Type} (activity : Activity) {body : Calls → Script World α}
    (same : world.depth < maxCallDepth →
      body (world.enter activity).calls (world.enter activity) =
        body calls (world.enter activity)) :
    enter world.inner activity body world = enter (world.permit calls) activity body world := by
  rcases Nat.lt_or_ge world.depth maxCallDepth with room | full
  · rw [World.inner_of_room room activity, World.permit, if_pos room, enter_some, enter_some]
    unfold andThen
    rw [same room]
  · rw [World.inner_of_full full, World.permit, if_neg (by omega)]

variable (deeper : world.depth < maxCallDepth →
  Calls.current.Agree (fun later => later.depth = world.depth + 1) calls)

include deeper

theorem construct_unfold (typeName : String) (arguments : List Value) :
    construct world.inner typeName arguments world =
      construct (world.permit calls) typeName arguments world := by
  rw [construct_eq, construct_eq]
  cases world.types.get? typeName with
  | none => rfl
  | some type =>
      dsimp only
      split
      · apply enter_unfold
        intro room
        rw [build_eq, build_eq]
        have agree : Calls.current.Agree (fun later => later.depth =
            ((world.enter (.construction ⟨world.entities.size, type.name⟩)).make type).depth)
            calls := deeper room
        have same := (Composition.setUp type ⟨world.entities.size, type.name⟩ arguments
          (.inl rfl)).current agree
        rw [← same]
        rfl
      · rfl

theorem deliver_unfold (call : EntityCall) (target : EntityId) :
    deliver world.inner call target world = deliver (world.permit calls) call target world := by
  cases due : world.due call target with
  | false => rw [deliver_of_not_due due, deliver_of_not_due due]
  | true =>
      obtain ⟨entity, method, found, answered, reached⟩ := World.method_of_due due
      have same : invoke world.inner ⟨target, entity.type.name⟩ call method world =
          invoke (world.permit calls) ⟨target, entity.type.name⟩ call method world := by
        apply enter_unfold
        intro room
        exact (Composition.runBody _ method.body (.inl rfl)).current (deeper room)
      rw [deliver_of_due found answered reached, deliver_of_due found answered reached, same]

theorem deliverAll_unfold (call : EntityCall) (targets : List EntityId) :
    deliverAll world.inner call targets world =
      deliverAll (world.permit calls) call targets world := by
  induction targets generalizing world with
  | nil => rfl
  | cons target rest inductionHypothesis =>
      change Script.bind (deliver world.inner call target) _ world =
        Script.bind (deliver (world.permit calls) call target) _ world
      unfold Script.bind
      rw [← deliver_unfold deeper]
      cases ran : deliver world.inner call target world with
      | returned answered after =>
          have ends : (deliver world.inner call target world).state? = some after := by
            rw [ran]
            rfl
          obtain ⟨events, _, taken⟩ :=
            deliver_links persists_covers (inside_follow persists_covers _) ends
          have depth := (Persists.turn taken).depth
          dsimp only
          change Script.bind _ _ after = Script.bind _ _ after
          unfold Script.bind
          rw [← World.inner_congr depth, ← World.permit_congr depth,
            inductionHypothesis (by rwa [depth])]
      | raised error after => rfl
      | endless => rfl

end Unfold

/-- A recursion that checks the depth needs no more unfoldings than there are levels left. -/
theorem Calls.unfolded_agrees (unfoldings : Nat) :
    Calls.current.Agree (fun world => maxCallDepth - world.depth < unfoldings)
      (.unfolded unfoldings) := by
  induction unfoldings with
  | zero => exact ⟨fun impossible => by omega, fun impossible => by omega⟩
  | succ unfoldings inductionHypothesis =>
      have deeper : ∀ {world : World}, maxCallDepth - world.depth < unfoldings + 1 →
          world.depth < maxCallDepth →
          Calls.current.Agree (fun later => later.depth = world.depth + 1)
            (.unfolded unfoldings) := by
        intro world enough room
        have left : ∀ {later : World}, later.depth = world.depth + 1 →
            maxCallDepth - later.depth < unfoldings := by
          intro later depth
          omega
        exact ⟨fun depth => inductionHypothesis.spawn (left depth),
          fun depth => inductionHypothesis.emit (left depth)⟩
      constructor
      · intro world enough typeName arguments
        exact construct_unfold (deeper enough) typeName arguments
      · intro world enough event payload
        exact deliverAll_unfold (deeper enough) (.handler event payload) world.registry

end EntityScript
