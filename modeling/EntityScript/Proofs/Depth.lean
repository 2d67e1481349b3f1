import EntityScript.Proofs.Operations
import EntityScript.Proofs.Persistence

/-!
What code can start.  Calls that agree in all the worlds that a body may come to are the same
to it.  Whatever code runs comes back to the depth it started at, so what it can start at any
point is what the host could start with the world as it is then.
-/

namespace EntityScript

open Script

/-- In worlds with a property the calls start the same. -/
structure Calls.Agree (P : World → Prop) (calls other : Calls) : Prop where
  spawn {world} (holds : P world) (typeName : String) (arguments : List Value) :
    calls.spawn typeName arguments world = other.spawn typeName arguments world
  emit {world} (holds : P world) (event : String) (payload : Value) :
    calls.emit event payload world = other.emit event payload world

/-- What is put together from calls is the same with calls that agree in the worlds with a
property, if scripts keep the property. -/
theorem Composition.agree {R : History} (covers : R.Covers) {P : World → Prop}
    (preserves : R.Preserves P) {world : World} {other : Calls}
    (agree : world.calls.Agree P other) (holds : P world) {loops : Bool} {α : Type}
    {script : Calls → Script World α} (composition : Composition loops id script) :
    script world.calls world = script other world := by
  have follow := world.calls_follow covers
  have track : world.calls.Track P R other := by
    constructor
    · intro typeName arguments
      exact ⟨fun _ holds => agree.spawn holds typeName arguments, follow.spawn typeName arguments⟩
    · intro event payload
      exact ⟨fun _ holds => agree.emit holds event payload, follow.emit event payload⟩
  have tracking : Tracking P R world.calls other := ⟨covers.toCoversEvaluation, track, preserves⟩
  exact (composition.tracks tracking).agree world holds

/-- What the host can start. -/
def Calls.current : Calls where
  spawn := World.spawn
  emit := World.emit

theorem World.calls_congr {world after : World} (depth : after.depth = world.depth) :
    after.calls = world.calls := by
  rw [calls, calls, inner, inner, depth]

/-- What is put together from calls can start just what the host could start meanwhile, or what
does the same at its depth. -/
theorem Composition.current {world : World} {other : Calls}
    (agree : Calls.current.Agree (fun later => later.depth = world.depth) other) {loops : Bool}
    {α : Type} {script : Calls → Script World α} (composition : Composition loops id script) :
    script world.calls world = script other world := by
  apply composition.agree persists_covers (P := fun later => later.depth = world.depth) ?_ ?_ rfl
  · intro before events after depth persists
    exact persists.depth.trans depth
  · constructor
    · intro later depth typeName arguments
      rw [← World.calls_congr depth]
      exact agree.spawn depth typeName arguments
    · intro later depth event payload
      rw [← World.calls_congr depth]
      exact agree.emit depth event payload

/-- A body can start just what the host could start while the body runs. -/
theorem runBody_current (world : World) (frame : Frame) (body : List Stmt) :
    runBody world.calls frame body world = runBody .current frame body world :=
  (Composition.runBody frame body (.inl rfl)).current ⟨fun _ _ _ => rfl, fun _ _ _ => rfl⟩

end EntityScript
