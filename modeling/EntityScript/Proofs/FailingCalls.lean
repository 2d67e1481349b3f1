import EntityScript.Proofs.Assignments
import EntityScript.Proofs.MemberCalls
import EntityScript.World.Operations

/-!
Calls of methods, library members and global functions that fail.  Whatever the mixture of
arguments, a call takes and converts all of them before it changes anything, so that one that
fails has done nothing.
-/

namespace EntityScript

open Script

namespace Script

variable {σ α β : Type}

/-- If the computation fails, it has changed nothing. -/
def Careful (script : Script σ α) : Prop :=
  ∀ state left error, script state = .raised error left → left = state

/-- A change is not followed by anything that could fail. -/
theorem careful_change (change : σ → σ) (value : β) :
    Careful (do modify change; pure value : Script σ β) := by
  intro state left error raised
  cases raised

theorem careful_ofAttempt (attempt : Attempt α) :
    Careful (ofAttempt attempt : Script σ α) := by
  intro state left error raised
  cases attempt <;> cases raised
  rfl

/-- What is tried first changes nothing, so that it matters only whether the rest is careful. -/
theorem careful_ofAttempt_bind {attempt : Attempt α} {next : α → Script σ β}
    (rest : ∀ value, Careful (next value)) : Careful (ofAttempt attempt >>= next) := by
  intro state left error raised
  cases attempt with
  | ok value => exact rest value state left error raised
  | error problem => exact careful_ofAttempt (.error problem) state left error raised

end Script

theorem careful_of_ends {refuses : ScriptError → Prop} {answers : Value → Prop}
    {changes : World → World → Prop} {script : Script World Value}
    (ends : ∀ world, CallEnds refuses answers changes world (script world)) : Careful script :=
  fun world _ _ raised => (ends world).left_eq raised

/-- Whichever of its arms is taken, a member has done nothing yet when it refuses a call. -/
theorem callBuiltin_careful (builtin : Builtin) (arguments : List Value) :
    Careful (callBuiltin builtin arguments) :=
  careful_of_ends (callBuiltin_ends builtin arguments)

theorem callMethod_careful (target : Value) (method : String) (arguments : List Value) :
    Careful (callMethod target method arguments) :=
  careful_of_ends (callMethod_ends target method arguments)

/-- Only a broadcast can fail after something has happened. -/
theorem callGlobal_careful (calls : Calls) {function : Global} (silent : function ≠ .emit)
    (arguments : List Value) : Careful (callGlobal calls function arguments) := by
  cases function with
  | emit => exact absurd rfl silent
  | destroy =>
      apply careful_ofAttempt_bind
      intro target
      apply careful_ofAttempt_bind
      intro ref
      apply careful_change
  | print =>
      apply careful_ofAttempt_bind
      intro value
      apply careful_change

/-- The name of an event is the first argument, and a text. -/
theorem textArgument_of_no_text {arguments : List Value}
    (nameless : ∀ event, arguments.head? ≠ some (.text event)) (function : String) :
    ∃ error, textArgument function arguments 0 = .error error := by
  cases arguments with
  | nil => exact ⟨_, rfl⟩
  | cons first rest =>
      cases first with
      | text event => exact absurd rfl (nameless event)
      | _ => exact ⟨_, rfl⟩

/-- A library member, a method, and the functions that destroy and print leave the whole world as
it was when they fail, whatever they are called on and with.  A broadcast without the name of an
event fails, and so has no effect either. -/
theorem failed_call_changes_nothing (calls : Calls) (arguments : List Value) (world : World) :
    (∀ builtin error left,
      callBuiltin builtin arguments world = .raised error left → left = world) ∧
    (∀ target method error left,
      callMethod target method arguments world = .raised error left → left = world) ∧
    (∀ function error left, function ≠ .emit →
      callGlobal calls function arguments world = .raised error left → left = world) ∧
    ((∀ event, arguments.head? ≠ some (.text event)) →
      ∃ error, callGlobal calls .emit arguments world = .raised error world) := by
  refine ⟨?_, ?_, ?_, ?_⟩
  · intro builtin error left
    exact callBuiltin_careful builtin arguments world left error
  · intro target method error left
    exact callMethod_careful target method arguments world left error
  · intro function error left silent
    exact callGlobal_careful calls silent arguments world left error
  · intro nameless
    obtain ⟨error, failed⟩ := textArgument_of_no_text nameless Global.emit.name
    refine ⟨error, ?_⟩
    rw [callGlobal, failed]
    rfl

/-- A rectangle whose height is a text is not drawn, an entity is not destroyed with an argument,
what is not an entity is not destroyed at all, and a vector is no event. -/
theorem mistaken_calls_refused :
    let world := World.ofField "at" (.number 1)
    (∃ left, callBuiltin .drawRect [.vector .zero, .number 3, .text "tall"] world =
      .raised (.typeMismatch (.expected .number .text)) left ∧ left = world) ∧
    (∃ left, callMethod (.entity lone) "destroy" [.unset] world =
      .raised (.arityMismatch "destroy" 0 1) left ∧ left = world) ∧
    (∃ left, callGlobal world.calls .destroy [.number 3] world =
      .raised (.typeMismatch (.expected .entity .number)) left ∧ left = world) ∧
    ∃ error, callGlobal world.calls .emit [.vector .zero] world = .raised error world := by
  intro world
  have refused := failed_call_changes_nothing world.calls
  refine ⟨⟨_, rfl, ?_⟩, ⟨_, rfl, ?_⟩, ⟨_, rfl, ?_⟩, ?_⟩
  · exact (refused [.vector .zero, .number 3, .text "tall"] world).1 .drawRect _ _ rfl
  · exact (refused [.unset] world).2.1 (.entity lone) "destroy" _ _ rfl
  · exact (refused [.number 3] world).2.2.1 .destroy _ _ (by decide) rfl
  · exact (refused [.vector .zero] world).2.2.2 (by simp)

end EntityScript
