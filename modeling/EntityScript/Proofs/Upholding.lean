import EntityScript.Proofs.MemberCalls

/-!
What computations uphold: from states as they should be they end in such states, with values as
they should be.  What is put together from computations that do so does so too.
-/

namespace EntityScript

open Script

/-- An attempt that succeeds has a value as it should be. -/
def Yields {α : Type} (Q : α → Prop) (attempt : Attempt α) : Prop :=
  ∀ value, attempt = .ok value → Q value

section Yields

variable {α β : Type} {P Q : α → Prop} {R : β → Prop}

@[simp]
theorem yields_ok {value : α} : Yields Q (.ok value) ↔ Q value := by
  simp [Yields]

@[simp]
theorem yields_pure {value : α} : Yields Q (pure value : Attempt α) ↔ Q value := yields_ok

@[simp]
theorem yields_error {error : ScriptError} : Yields Q (.error error : Attempt α) := nofun

@[simp]
theorem yields_bind {attempt : Attempt β} {next : β → Attempt α} :
    Yields Q (attempt >>= next) ↔ ∀ value, attempt = .ok value → Yields Q (next value) := by
  cases attempt <;> simp [Yields, bind, Except.bind]

@[simp]
theorem yields_map {attempt : Attempt β} {change : β → α} :
    Yields Q (change <$> attempt) ↔ ∀ value, attempt = .ok value → Q (change value) := by
  cases attempt <;> simp [Yields, Functor.map, Except.map]

theorem Yields.bind {attempt : Attempt β} {next : β → Attempt α} (first : Yields R attempt)
    (rest : ∀ value, R value → Yields Q (next value)) : Yields Q (attempt >>= next) :=
  yields_bind.mpr fun value found => rest value (first value found)

end Yields

/-- The state at the end is as it should be, and so is a value that is returned. -/
def Outcome.Upheld {σ α : Type} (I : σ → Prop) (Q : α → Prop) : Outcome σ α → Prop
  | .returned value after => I after ∧ Q value
  | .raised _ after => I after
  | .endless => True

/-- From a state as it should be the computation ends in such a state, and a value that it returns
is as it should be. -/
def Upholds {σ α : Type} (I : σ → Prop) (Q : α → Prop) (script : Script σ α) : Prop :=
  ∀ state, I state → (script state).Upheld I Q

section Upholds

variable {σ α β : Type} {I : σ → Prop} {P : β → Prop} {Q : α → Prop}

theorem Upholds.returned {script : Script σ α} (upholds : Upholds I Q script) {state after : σ}
    {value : α} (holds : I state) (ran : script state = .returned value after) :
    I after ∧ Q value := by
  have upheld := upholds state holds
  rw [ran] at upheld
  exact upheld

theorem Upholds.after {script : Script σ α} (upholds : Upholds I Q script) {state after : σ}
    (holds : I state) (ends : (script state).state? = some after) : I after := by
  have upheld := upholds state holds
  cases ran : script state with
  | returned value last =>
      rw [ran] at ends upheld
      cases ends
      exact upheld.1
  | raised error last =>
      rw [ran] at ends upheld
      cases ends
      exact upheld
  | endless =>
      rw [ran] at ends
      cases ends

theorem upholds_pure {value : α} (good : Q value) : Upholds I Q (pure value : Script σ α) :=
  fun _ holds => ⟨holds, good⟩

theorem upholds_raise {error : ScriptError} : Upholds I Q (raise error : Script σ α) :=
  fun _ holds => holds

theorem upholds_endless : Upholds I Q (endless : Script σ α) := fun _ _ => trivial

theorem upholds_bind {script : Script σ β} {next : β → Script σ α} (first : Upholds I P script)
    (rest : ∀ value, P value → Upholds I Q (next value)) : Upholds I Q (script >>= next) := by
  intro state holds
  have upheld := first state holds
  rw [bind_eq]
  cases ran : script state with
  | returned value middle =>
      rw [ran] at upheld
      exact rest value upheld.2 middle upheld.1
  | raised error last =>
      rw [ran] at upheld
      exact upheld
  | endless => trivial

theorem upholds_get : Upholds I I (get : Script σ σ) := fun _ holds => ⟨holds, holds⟩

theorem upholds_modify {change : σ → σ} (keeps : ∀ state, I state → I (change state)) :
    Upholds I (fun _ => True) (modify change) :=
  fun state holds => ⟨keeps state holds, trivial⟩

theorem upholds_ofAttempt {attempt : Attempt α} (yields : Yields Q attempt) :
    Upholds I Q (ofAttempt attempt : Script σ α) := by
  cases attempt with
  | ok value => exact upholds_pure (yields value rfl)
  | error error => exact upholds_raise

theorem upholds_andThen {script : Script σ α} {change : Bool → σ → σ} (first : Upholds I Q script)
    (keeps : ∀ succeeded state, I state → I (change succeeded state)) :
    Upholds I Q (andThen script change) := by
  intro state holds
  have upheld := first state holds
  unfold andThen
  cases ran : script state with
  | returned value middle =>
      rw [ran] at upheld
      exact ⟨keeps true middle upheld.1, upheld.2⟩
  | raised error middle =>
      rw [ran] at upheld
      exact keeps false middle upheld
  | endless => trivial

theorem upholds_rescue {script : Script σ α} {handle : ScriptError → Script σ α}
    (first : Upholds I Q script) (handled : ∀ error, Upholds I Q (handle error)) :
    Upholds I Q (rescue script handle) := by
  intro state holds
  have upheld := first state holds
  unfold rescue
  cases ran : script state with
  | returned value middle =>
      rw [ran] at upheld
      exact upheld
  | raised error middle =>
      rw [ran] at upheld
      exact handled error middle upheld
  | endless => trivial

end Upholds

theorem upholds_of_ends {I : World → Prop} {Q : Value → Prop} {refuses : ScriptError → Prop}
    {answers : Value → Prop} {changes : World → World → Prop} {script : Script World Value}
    (ends : ∀ world, CallEnds refuses answers changes world (script world))
    (good : ∀ value, answers value → Q value)
    (keeps : ∀ world after, I world → changes world after → I after) (nothing : Q .unset) :
    Upholds I Q script := by
  intro world holds
  have ending := ends world
  generalize script world = outcome at ending
  cases ending with
  | refused => exact holds
  | answered answer => exact ⟨holds, good _ answer⟩
  | changed change => exact ⟨keeps world _ holds change, nothing⟩

end EntityScript
