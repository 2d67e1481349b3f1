import EntityScript.Proofs.Evaluation
import EntityScript.Script.Dispatch

/-!
A history follows constructions, entity calls and broadcasts.  `Attempted` says how one
activity goes and `TurnTaken` how one entity has its turn in a broadcast; a history that
covers constructions and the turns of handlers follows everything that scripts can start,
at every level of call depth.
-/

namespace EntityScript

open Script

namespace World

/-- The method with which the type of an entity answers a call. -/
def method? (world : World) (call : EntityCall) (id : EntityId) : Option Method :=
  (world.type? id).bind call.method?

def answers (world : World) (call : EntityCall) (id : EntityId) : Bool :=
  (world.method? call id).isSome

/-- Whether a call is made into an entity when its turn comes. -/
def due (world : World) (call : EntityCall) (id : EntityId) : Bool :=
  world.answers call id && (call.reachesDestroyed || !world.isDestroyed id)

end World

/-- An activity is either refused, or a level deeper the history takes its course. -/
inductive Attempted (R : History) (activity : Activity) : History where
  | refused {world} :
      Attempted R activity world [.refused activity] (world.note (.refused activity))
  | ran {world events after succeeded} :
      R (world.enter activity) events after →
      Attempted R activity world (.entered activity :: events ++ [.left activity succeeded])
        (after.leave activity succeeded)

/-- An entity that is not due is passed over.  One that is due is called, and a failure of
the call is noted or goes on. -/
inductive TurnTaken (R : History) (call : EntityCall) (id : EntityId) : History where
  | passed {world} : world.due call id = false → TurnTaken R call id world [] world
  | called {world ref events after} :
      world.due call id = true → world.ref? id = some ref →
      Attempted R (.call ref call) world events after →
      TurnTaken R call id world events after
  | failed {world ref events after error} :
      world.due call id = true → world.ref? id = some ref →
      Attempted R (.call ref call) world events after →
      TurnTaken R call id world (events ++ [.logged (.callFailed ref call.phase error)])
        (after.log (.callFailed ref call.phase error))

/-- Turns in a row, up to the last or to one that fails. -/
inductive TurnsTaken (R : History) (call : EntityCall) : List EntityId → History where
  | finished {ids world} : TurnsTaken R call ids world [] world
  | turn {id ids first second third events more} :
      TurnTaken R call id first events second → TurnsTaken R call ids second more third →
      TurnsTaken R call (id :: ids) first (events ++ more) third

theorem Attempted.imp {R S : History} {activity : Activity} {world after : World}
    {events : List Event}
    (weaker : ∀ {world events after}, R world events after → S world events after)
    (attempted : Attempted R activity world events after) :
    Attempted S activity world events after := by
  cases attempted with
  | refused => exact .refused
  | ran related => exact .ran (weaker related)

theorem TurnTaken.imp {R S : History} {call : EntityCall} {id : EntityId} {world after : World}
    {events : List Event}
    (weaker : ∀ {world events after}, R world events after → S world events after)
    (taken : TurnTaken R call id world events after) : TurnTaken S call id world events after := by
  cases taken with
  | passed notDue => exact .passed notDue
  | called due known attempted => exact .called due known (attempted.imp weaker)
  | failed due known attempted => exact .failed due known (attempted.imp weaker)

theorem TurnsTaken.imp {R S : History} {call : EntityCall} {ids : List EntityId}
    {world after : World} {events : List Event}
    (weaker : ∀ {world events after}, R world events after → S world events after)
    (taken : TurnsTaken R call ids world events after) :
    TurnsTaken S call ids world events after := by
  induction taken with
  | finished => exact .finished
  | turn here _ inductionHypothesis => exact .turn (here.imp weaker) inductionHypothesis

namespace History

def And (R S : History) : History := fun world events after =>
  R world events after ∧ S world events after

/-- The history covers all that scripts can start. -/
structure Covers (R : History) : Prop extends CoversEvaluation R where
  refused {world ref} :
    R world [.refused (.construction ref)] (world.note (.refused (.construction ref)))
  constructed {world : World} {type ref events after} :
    ref = ⟨world.entities.size, type.name⟩ →
    R ((world.enter (.construction ref)).make type) events after →
    R world
      (.entered (.construction ref) :: events ++
        [.logged (.spawned ref), .left (.construction ref) true])
      ((after.register ref).leave (.construction ref) true)
  abandoned {world : World} {type ref events after} :
    ref = ⟨world.entities.size, type.name⟩ →
    R ((world.enter (.construction ref)).make type) events after →
    R world (.entered (.construction ref) :: events ++ [.left (.construction ref) false])
      (after.leave (.construction ref) false)
  handled {world : World} {event payload id events after} :
    id ∈ world.registry → TurnTaken R (.handler event payload) id world events after →
    R world events after
  /-- An entity that is registered stays so while scripts run. -/
  registered {first second : World} {events id} :
    R first events second → id ∈ first.registry → id ∈ second.registry

theorem Covers.and {R S : History} (first : R.Covers) (second : S.Covers) :
    (R.And S).Covers where
  idle := ⟨first.idle, second.idle⟩
  append before after := ⟨first.append before.1 after.1, second.append before.2 after.2⟩
  wrote := ⟨first.wrote, second.wrote⟩
  painted := ⟨first.painted, second.painted⟩
  printed := ⟨first.printed, second.printed⟩
  destroyed found unmarked :=
    ⟨first.destroyed found unmarked, second.destroyed found unmarked⟩
  declared := ⟨first.declared, second.declared⟩
  refused := ⟨first.refused, second.refused⟩
  constructed named inside :=
    ⟨first.constructed named inside.1, second.constructed named inside.2⟩
  abandoned named inside := ⟨first.abandoned named inside.1, second.abandoned named inside.2⟩
  handled here taken :=
    ⟨first.handled here (taken.imp And.left), second.handled here (taken.imp And.right)⟩
  registered related := first.registered related.1

end History

variable {R : History} {inner : Option Calls}

theorem setUp_follows (covers : R.Covers) {calls : Calls} (nested : calls.Follow R)
    (type : EntityType) (ref : EntityRef) (arguments : List Value) :
    Follows id R (setUp calls type ref arguments) :=
  ((Composition.setUp type ref arguments (.inl rfl)).tracks
    (nested.tracking covers.toCoversEvaluation)).follows

theorem build_eq (type : EntityType) (ref : EntityRef) (arguments : List Value) (calls : Calls)
    (world : World) :
    build type ref arguments calls world =
      match setUp calls type ref arguments (world.make type) with
      | .returned _ ready => .returned ref (ready.register ref)
      | .raised error left => .raised error left
      | .endless => .endless := by
  show Script.bind (setUp calls type ref arguments) _ (world.make type) = _
  unfold Script.bind
  cases setUp calls type ref arguments (world.make type) <;> rfl

theorem construct_eq (inner : Option Calls) (typeName : String) (arguments : List Value)
    (world : World) :
    construct inner typeName arguments world =
      match world.types.get? typeName with
      | none => .raised (.unknownEntityType typeName) world
      | some type =>
          if arguments.length = type.arity then
            let ref : EntityRef := ⟨world.entities.size, type.name⟩
            enter inner (.construction ref) (build type ref arguments) world
          else .raised (.arityMismatch typeName type.arity arguments.length) world := by
  unfold construct
  rw [get_bind]
  cases world.types.get? typeName with
  | none => rfl
  | some type =>
      dsimp only
      split <;> rfl

theorem enter_some {α : Type} (calls : Calls) (activity : Activity)
    (body : Calls → Script World α) (world : World) :
    enter (some calls) activity body world =
      andThen (body calls) (fun succeeded world => world.leave activity succeeded)
        (world.enter activity) := rfl

theorem ends_enter {α : Type} {activity : Activity} {body : Calls → Script World α}
    {world after : World} (ends : (enter inner activity body world).state? = some after) :
    inner = none ∧ after = world.note (.refused activity) ∨
    ∃ calls middle, inner = some calls ∧
      (body calls (world.enter activity)).state? = some middle ∧
      after = middle.leave activity (body calls (world.enter activity)).succeeded := by
  cases inner with
  | none =>
      cases ends
      exact .inl ⟨rfl, rfl⟩
  | some calls =>
      rw [enter_some] at ends
      obtain ⟨middle, reached, left⟩ := ends_andThen ends
      exact .inr ⟨calls, middle, rfl, reached, left⟩

theorem construct_follows (covers : R.Covers) (nested : ∀ calls ∈ inner, calls.Follow R)
    (typeName : String) (arguments : List Value) :
    Follows id R (construct inner typeName arguments) := by
  intro world after ends
  rw [construct_eq] at ends
  split at ends
  · cases ends
    exact .refl covers.toComposes world
  · rename_i type known
    split at ends
    · rcases ends_enter ends with ⟨_, rfl⟩ | ⟨calls, middle, given, reached, rfl⟩
      · exact .noted rfl covers.refused
      · rw [build_eq] at reached ⊢
        generalize named : (⟨world.entities.size, type.name⟩ : EntityRef) = ref at reached ⊢
        have follows := setUp_follows covers (nested calls given) type ref arguments
          ((world.enter (.construction ref)).make type)
        cases ran : setUp calls type ref arguments
            ((world.enter (.construction ref)).make type) with
        | returned _ ready =>
            rw [ran] at follows reached
            cases reached
            obtain ⟨events, noted, related⟩ := follows ready rfl
            refine ⟨_, ?_, covers.constructed named.symm related⟩
            simp only [id] at noted ⊢
            simp [noted, Outcome.succeeded]
        | raised error left =>
            rw [ran] at follows reached
            cases reached
            obtain ⟨events, noted, related⟩ := follows _ rfl
            refine ⟨_, ?_, covers.abandoned named.symm related⟩
            simp only [id] at noted ⊢
            simp [noted, Outcome.succeeded]
        | endless =>
            rw [ran] at reached
            cases reached
    · cases ends
      exact .refl covers.toComposes world

/-- An entity to which a call is not due is passed over, or has no method for the call. -/
theorem World.passed_of_not_due {call : EntityCall} {id : EntityId} {world : World}
    {entity : Entity} (found : world.entity? id = some entity)
    (notDue : world.due call id = false) :
    (entity.destroyed && !call.reachesDestroyed) = true ∨ call.method? entity.type = none := by
  simp only [due, answers, method?, type?, isDestroyed, found, Option.map_some,
    Option.bind_some, Option.any_some] at notDue
  cases answered : call.method? entity.type with
  | none => exact .inr rfl
  | some method =>
      rw [answered, Option.isSome_some, Bool.true_and] at notDue
      cases marked : entity.destroyed <;> cases reaches : call.reachesDestroyed <;> simp_all

theorem deliver_of_not_due {call : EntityCall} {id : EntityId} {world : World}
    (notDue : world.due call id = false) :
    deliver inner call id world = .returned false world := by
  unfold deliver
  rw [get_bind]
  cases found : world.entity? id with
  | none => rfl
  | some entity =>
      rcases World.passed_of_not_due found notDue with passed | unanswered
      · simp only [passed]
        rfl
      · simp only [unanswered]
        split <;> rfl

theorem World.method_of_due {call : EntityCall} {id : EntityId} {world : World}
    (due : world.due call id = true) :
    ∃ entity method, world.entity? id = some entity ∧ call.method? entity.type = some method ∧
      (entity.destroyed && !call.reachesDestroyed) = false := by
  cases found : world.entity? id with
  | none => simp [World.due, World.answers, World.method?, World.type?, found] at due
  | some entity =>
      simp only [World.due, World.answers, World.method?, World.type?, World.isDestroyed, found,
        Option.map_some, Option.bind_some, Option.any_some, Bool.and_eq_true] at due
      obtain ⟨method, answered⟩ := Option.isSome_iff_exists.mp due.1
      refine ⟨entity, method, rfl, answered, ?_⟩
      cases marked : entity.destroyed <;> cases reaches : call.reachesDestroyed <;> simp_all

theorem deliver_of_due {call : EntityCall} {id : EntityId} {world : World} {entity : Entity}
    {method : Method} (found : world.entity? id = some entity)
    (answered : call.method? entity.type = some method)
    (reached : (entity.destroyed && !call.reachesDestroyed) = false) :
    deliver inner call id world =
      match invoke inner ⟨id, entity.type.name⟩ call method world with
      | .returned _ after => .returned true after
      | .raised error after =>
          if after.settings.isolateErrors then
            .returned true (after.log (.callFailed ⟨id, entity.type.name⟩ call.phase error))
          else .raised (error.within ⟨id, entity.type.name⟩ call.phase) after
      | .endless => .endless := by
  unfold deliver
  rw [get_bind, found]
  simp only [reached, answered]
  change Script.bind (rescue _ _) _ world = _
  unfold Script.bind rescue
  cases invoke inner ⟨id, entity.type.name⟩ call method world with
  | returned _ after => rfl
  | raised error after =>
      dsimp only
      rw [get_bind]
      cases after.settings.isolateErrors <;> rfl
  | endless => rfl

theorem invoke_links (covers : R.Covers) (nested : ∀ calls ∈ inner, calls.Follow R)
    {ref : EntityRef} {call : EntityCall} {method : Method} {world after : World}
    (ends : (invoke inner ref call method world).state? = some after) :
    (Attempted R (.call ref call)).Links world after := by
  rcases ends_enter ends with ⟨_, rfl⟩ | ⟨calls, middle, given, reached, rfl⟩
  · exact .noted rfl .refused
  · obtain ⟨events, noted, related⟩ := runBody_follows covers.toCoversEvaluation
      (nested calls given) _ _ _ _ reached
    refine ⟨_, ?_, .ran related⟩
    simp only [id] at noted
    simp [noted]

theorem deliver_links (covers : R.Covers) (nested : ∀ calls ∈ inner, calls.Follow R)
    {call : EntityCall} {id : EntityId} {world after : World}
    (ends : (deliver inner call id world).state? = some after) :
    (TurnTaken R call id).Links world after := by
  cases due : world.due call id with
  | false =>
      rw [deliver_of_not_due due] at ends
      cases ends
      exact .silent rfl (.passed due)
  | true =>
      obtain ⟨entity, method, found, answered, reached⟩ := World.method_of_due due
      have known : world.ref? id = some ⟨id, entity.type.name⟩ := by simp [World.ref?, found]
      rw [deliver_of_due found answered reached] at ends
      cases ran : invoke inner ⟨id, entity.type.name⟩ call method world with
      | returned _ middle =>
          simp only [ran, Outcome.state?, Option.some.injEq] at ends
          subst ends
          exact (invoke_links covers nested (by rw [ran]; rfl)).imp fun _ => .called due known
      | raised error middle =>
          have left : (invoke inner ⟨id, entity.type.name⟩ call method world).state? =
              some middle := by rw [ran]; rfl
          obtain ⟨events, noted, attempted⟩ := invoke_links covers nested left
          rw [ran] at ends
          cases isolated : middle.settings.isolateErrors with
          | true =>
              simp only [isolated, if_true, Outcome.state?, Option.some.injEq] at ends
              subst ends
              exact ⟨_, by simp [noted], .failed due known attempted⟩
          | false =>
              simp only [isolated, Outcome.state?] at ends
              cases ends
              exact ⟨events, noted, .called due known attempted⟩
      | endless =>
          rw [ran] at ends
          cases ends

theorem deliverAll_links (covers : R.Covers) (nested : ∀ calls ∈ inner, calls.Follow R)
    {call : EntityCall} {ids : List EntityId} {world after : World}
    (ends : (deliverAll inner call ids world).state? = some after) :
    (TurnsTaken R call ids).Links world after := by
  induction ids generalizing world with
  | nil =>
      cases ends
      exact .silent rfl .finished
  | cons id rest inductionHypothesis =>
      rcases ends_bind ends with ⟨answered, middle, ran, endsRest⟩ | ⟨error, failed⟩
      · obtain ⟨events, noted, taken⟩ := deliver_links covers nested (by rw [ran]; rfl)
        have later : (TurnsTaken R call rest).Links middle after := by
          rcases ends_bind endsRest with ⟨count, last, ranRest, done⟩ | ⟨error, failed⟩
          · cases done
            exact inductionHypothesis (by rw [ranRest]; rfl)
          · exact inductionHypothesis (by rw [failed]; rfl)
        obtain ⟨more, notedMore, takenMore⟩ := later
        exact ⟨events ++ more, by rw [notedMore, noted, List.append_assoc],
          .turn taken takenMore⟩
      · obtain ⟨events, noted, taken⟩ := deliver_links covers nested (by rw [failed]; rfl)
        exact ⟨events ++ [], by rw [noted, List.append_nil], .turn taken .finished⟩

theorem TurnsTaken.covered {S : History} (composes : S.Composes)
    (stays : ∀ {first events second id}, S first events second →
      id ∈ first.registry → id ∈ second.registry)
    {call : EntityCall}
    (turn : ∀ {id first events second}, id ∈ first.registry →
      TurnTaken R call id first events second → S first events second)
    {ids : List EntityId} {world after : World} {events : List Event}
    (taken : TurnsTaken R call ids world events after)
    (registered : ∀ id ∈ ids, id ∈ world.registry) : S world events after := by
  induction taken with
  | finished => exact composes.idle
  | turn here _ inductionHypothesis =>
      have related := turn (registered _ (by simp)) here
      refine composes.append related (inductionHypothesis fun other member => ?_)
      exact stays related (registered other (by simp [member]))

theorem TurnTaken.covered (composes : R.Composes)
    (failed : ∀ {world ref phase error},
      R world [.logged (.callFailed ref phase error)] (world.log (.callFailed ref phase error)))
    {call : EntityCall} {id : EntityId} {world after : World} {events : List Event}
    (attempted : ∀ {ref events after}, world.ref? id = some ref →
      Attempted R (.call ref call) world events after → R world events after)
    (taken : TurnTaken R call id world events after) : R world events after := by
  cases taken with
  | passed => exact composes.idle
  | called _ known called => exact attempted known called
  | failed _ known called => exact composes.append (attempted known called) failed

theorem broadcast_handlers_follows (covers : R.Covers)
    (nested : ∀ calls ∈ inner, calls.Follow R) (event : String) (payload : Value) :
    Follows id R (broadcast inner (.handler event payload)) := by
  intro world after ends
  apply (deliverAll_links covers nested ends).imp
  intro events taken
  exact taken.covered covers.toComposes covers.registered covers.handled fun _ member => member

/-- A history that covers what scripts can start follows it at every level. -/
theorem around_follow (covers : R.Covers) (nested : ∀ calls ∈ inner, calls.Follow R) :
    (Calls.around inner).Follow R where
  spawn := construct_follows covers nested
  emit := broadcast_handlers_follows covers nested

theorem inside_follow (covers : R.Covers) (levels : Nat) :
    ∀ calls ∈ Calls.inside levels, calls.Follow R := by
  induction levels with
  | zero => simp [Calls.inside]
  | succ levels inductionHypothesis =>
      intro calls given
      obtain rfl : Calls.around (Calls.inside levels) = calls := by
        simpa [Calls.inside] using given
      exact around_follow covers inductionHypothesis

end EntityScript
