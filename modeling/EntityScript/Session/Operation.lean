import EntityScript.Session
import EntityScript.World.Loading

/-!
What a host can do with a session, and the sessions this leads to.  An operation may fail;
the session it leaves behind then goes on like any other.
-/

namespace EntityScript

open Script

/-- A host operation. -/
inductive Operation where
  | install (program : Program)
  | load (unit : SourceUnit)
  | loadAll (items : List (Except SourceFailure SourceUnit))
  | registerImage (name : String) (width height : Float)
  | spawn (typeName : String) (arguments : List Value)
  | destroy (entity : EntityRef)
  | setField (id : EntityId) (name : String) (value : Value)
  | emit (event : String) (payload : Value)
  | runMain
  | pushKey (event : KeyEvent)
  | pumpInput
  | tickPhase (delta : Float)
  | renderPhase
  | step (elapsed : Float)
  | frameAt (now : Nat)
  /-- Report that a run in time was cancelled. -/
  | cancel

namespace Session

def change (change : World → World) : Script Session Unit := onWorld (modify change)

/-- Compute on the world of a session, whatever the result. -/
def run {α : Type} (script : Script World α) : Script Session Unit := do
  let _ ← onWorld script
  pure ()

def cancel : Script Session Unit :=
  modify fun session => { session with world := session.world.log (.cancelled session.frames) }

end Session

namespace Operation

open Session

def perform : Operation → Script Session Unit
  | install program => change (·.install program)
  | load unit => change fun world =>
      match world.load unit with
      | .ok loaded => loaded
      | .error _ => world
  | loadAll items => change fun world => (world.loadAll items).1
  | registerImage name width height => change (·.registerImage name width height)
  | spawn typeName arguments => run (World.spawn typeName arguments)
  | destroy entity => change (·.destroy entity)
  | setField id name value => change (·.setField id name value)
  | emit event payload => run (World.emit event payload)
  | runMain => run World.runMain
  | pushKey event => change (·.pushKey event)
  | pumpInput => change World.pumpInput
  | tickPhase delta => run (World.tickPhase delta)
  | renderPhase => run World.renderPhase
  | step elapsed => Session.step elapsed
  | frameAt now => Session.frameAt now
  | cancel => Session.cancel

def ticks : Operation → Bool
  | tickPhase _ | step _ | frameAt _ => true
  | _ => false

end Operation

namespace Session

/-- One session leads to another by an operation, which may have failed. -/
def Leads (before : Session) (operation : Operation) (after : Session) : Prop :=
  (operation.perform before).state? = some after

/-- One session leads to another by operations in a row. -/
inductive Reaches : Session → Session → Prop where
  | refl {session} : Reaches session session
  | step {first session later operation} :
      Reaches first session → session.Leads operation later → Reaches first later

/-- Operations lead to the session from one in which nothing has happened. -/
def Reachable (session : Session) : Prop :=
  ∃ settings hasKeys, Reaches (start (World.initial settings hasKeys)) session

theorem Reaches.trans {first second third : Session}
    (before : Reaches first second) (after : Reaches second third) : Reaches first third := by
  induction after with
  | refl => exact before
  | step _ leads inductionHypothesis => exact .step inductionHypothesis leads

theorem Reachable.reaches {session later : Session} (reachable : session.Reachable)
    (reaches : session.Reaches later) : later.Reachable := by
  obtain ⟨settings, hasKeys, before⟩ := reachable
  exact ⟨settings, hasKeys, before.trans reaches⟩

/-- The session after operations in a row, if each of them ends. -/
def through : List Operation → Session → Option Session
  | [], session => some session
  | operation :: rest, session => (operation.perform session).state?.bind (through rest)

theorem through_append (operations more : List Operation) (session : Session) :
    through (operations ++ more) session = (through operations session).bind (through more) := by
  induction operations generalizing session with
  | nil => rfl
  | cons operation rest inductionHypothesis =>
      simp only [List.cons_append, through]
      cases (operation.perform session).state? with
      | none => rfl
      | some middle => exact inductionHypothesis middle

/-- What each of the operations keeps, they keep in a row. -/
theorem preserved_through {invariant : Session → Prop} {operations : List Operation}
    {session after : Session}
    (kept : ∀ operation ∈ operations, ∀ before next : Session,
      before.Leads operation next → invariant before → invariant next)
    (holds : invariant session) (reached : through operations session = some after) :
    invariant after := by
  induction operations generalizing session with
  | nil =>
      cases reached
      exact holds
  | cons operation rest inductionHypothesis =>
      obtain ⟨here, others⟩ := List.forall_mem_cons.mp kept
      obtain ⟨middle, leads, reachedRest⟩ := Option.bind_eq_some_iff.mp reached
      exact inductionHypothesis others (here session middle leads holds) reachedRest

theorem reaches_iff_through {first later : Session} :
    first.Reaches later ↔ ∃ operations, through operations first = some later := by
  constructor
  · intro reaches
    induction reaches with
    | refl => exact ⟨[], rfl⟩
    | @step middle later operation _ leads inductionHypothesis =>
        obtain ⟨operations, reached⟩ := inductionHypothesis
        refine ⟨operations ++ [operation], ?_⟩
        rw [through_append, reached, Option.bind_some, through, leads]
        rfl
  · rintro ⟨operations, reached⟩
    exact preserved_through (fun _ _ _ _ leads reaches => Reaches.step reaches leads) .refl reached

end Session

end EntityScript
