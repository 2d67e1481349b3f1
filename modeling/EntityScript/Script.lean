import EntityScript.ScriptError

/-!
Computations of scripts over a state.  They end with a value or by failing, and leave a
state behind either way; or they are found never to end.
-/

namespace EntityScript

/-- How a computation ends. -/
inductive Outcome (σ : Type) (α : Type) where
  | returned (value : α) (state : σ)
  | raised (error : ScriptError) (state : σ)
  /-- A loop in it never ends. -/
  | endless

namespace Outcome

variable {σ α : Type}

/-- The state left behind, if the computation ends. -/
def state? : Outcome σ α → Option σ
  | returned _ state | raised _ state => some state
  | endless => none

def succeeded : Outcome σ α → Bool
  | returned .. => true
  | raised .. | endless => false

end Outcome

/-- A computation over a state. -/
def Script (σ : Type) (α : Type) := σ → Outcome σ α

namespace Script

variable {σ α β γ : Type}

@[inline]
protected def pure (value : α) : Script σ α := fun state => .returned value state

/-- Go on with the result of a computation, if it has one. -/
@[inline]
protected def bind (script : Script σ α) (next : α → Script σ β) : Script σ β := fun state =>
  match script state with
  | .returned value state => next value state
  | .raised error state => .raised error state
  | .endless => .endless

@[always_inline]
instance : Monad (Script σ) where
  pure := Script.pure
  bind := Script.bind

theorem id_map (script : Script σ α) : id <$> script = script := by
  funext state
  show Script.bind script (fun value => Script.pure (id value)) state = script state
  simp only [Script.bind]
  split <;> simp_all [Script.pure]

theorem bind_assoc (script : Script σ α) (next : α → Script σ β) (last : β → Script σ γ) :
    script >>= next >>= last = script >>= fun value => next value >>= last := by
  funext state
  show Script.bind (Script.bind script next) last state
    = Script.bind script (fun value => Script.bind (next value) last) state
  simp only [Script.bind]
  cases script state <;> rfl

instance : LawfulMonad (Script σ) :=
  LawfulMonad.mk' _ (fun script => Script.id_map script) (fun _ _ => rfl)
    (fun script next last => Script.bind_assoc script next last)

/-- Fail. -/
def raise (error : ScriptError) : Script σ α := fun state => .raised error state

/-- Never end. -/
def endless : Script σ α := fun _ => .endless

def get : Script σ σ := fun state => .returned state state

def gets (view : σ → α) : Script σ α := fun state => .returned (view state) state

def modify (change : σ → σ) : Script σ Unit := fun state => .returned () (change state)

def ofAttempt (attempt : Attempt α) : Script σ α :=
  match attempt with
  | .ok value => Script.pure value
  | .error error => raise error

/-- The result of an attempt that may depend on the state. -/
def consult (view : σ → Attempt α) : Script σ α := fun state =>
  match view state with
  | .ok value => .returned value state
  | .error error => .raised error state

/-- Change the state after a computation, whether it failed or not. -/
def andThen (script : Script σ α) (change : Bool → σ → σ) : Script σ α := fun state =>
  match script state with
  | .returned value state => .returned value (change true state)
  | .raised error state => .raised error (change false state)
  | .endless => .endless

/-- Handle the failure of a computation. -/
def rescue (script : Script σ α) (handle : ScriptError → Script σ α) : Script σ α := fun state =>
  match script state with
  | .raised error state => handle error state
  | outcome => outcome

end Script

end EntityScript
