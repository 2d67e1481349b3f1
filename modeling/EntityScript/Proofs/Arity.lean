import EntityScript.Proofs.Closed
import EntityScript.Proofs.Failures
import EntityScript.Proofs.MemberCalls

/-!
Library members and global functions look for no argument beyond those that they are admitted
with.
-/

namespace EntityScript

open Script

/-- The error is about the number of arguments of a call. -/
def ScriptError.Arity : ScriptError → Prop
  | arityMismatch .. => True
  | _ => False

theorem ScriptError.OfKinds.not_arity {error : ScriptError} (kinds : error.OfKinds) :
    ¬error.Arity := by
  cases error <;> simp_all [OfKinds, Arity]

/-- The attempt finds all the arguments that it looks for. -/
def Supplied {α : Type} (attempt : Attempt α) : Prop :=
  ∀ error, attempt = .error error → ¬error.Arity

section Supplied

variable {α β : Type}

@[simp]
theorem supplied_ok (value : α) : Supplied (.ok value) := nofun

@[simp]
theorem supplied_pure (value : α) : Supplied (pure value : Attempt α) := nofun

@[simp]
theorem supplied_error (error : ScriptError) :
    Supplied (.error error : Attempt α) ↔ ¬error.Arity := by
  simp [Supplied]

@[simp]
theorem supplied_bind (attempt : Attempt α) (next : α → Attempt β) :
    Supplied (attempt >>= next) ↔
      Supplied attempt ∧ ∀ value, attempt = .ok value → Supplied (next value) := by
  cases attempt <;> simp [Supplied, bind, Except.bind]

@[simp]
theorem supplied_map (attempt : Attempt α) (f : α → β) :
    Supplied (f <$> attempt) ↔ Supplied attempt := by
  cases attempt <;> simp [Supplied, Functor.map, Except.map]

section Values

variable (value : Value)

@[simp]
theorem Value.mismatch_supplied (wanted : Kind) :
    Supplied (value.mismatch wanted : Attempt α) := by
  simp [mismatch, ScriptError.Arity]

@[simp]
theorem Value.asNumber_supplied : Supplied value.asNumber := by
  cases value <;> simp [asNumber, ScriptError.Arity]

@[simp]
theorem Value.asVector_supplied : Supplied value.asVector := by
  cases value <;> simp [asVector]

@[simp]
theorem Value.asColor_supplied : Supplied value.asColor := by
  cases value <;> simp [asColor]

@[simp]
theorem Value.asText_supplied : Supplied value.asText := by
  cases value <;> simp [asText]

@[simp]
theorem Value.asImage_supplied : Supplied value.asImage := by
  cases value <;> simp [asImage]

@[simp]
theorem Value.asEntity_supplied : Supplied value.asEntity := by
  cases value <;> simp [asEntity]

end Values

section Arguments

variable {arguments : List Value} {position : Nat} (function : String)
  (inside : position < arguments.length)

include inside

theorem argument_supplied : Supplied (argument function arguments position) := by
  rw [argument, List.getElem?_eq_getElem inside]
  exact supplied_ok _

theorem textArgument_supplied : Supplied (textArgument function arguments position) := by
  simp [textArgument, argument_supplied function inside]

end Arguments

@[simp]
theorem World.image_supplied (world : World) (name : String) : Supplied (world.image name) := by
  unfold World.image
  split <;> simp [ScriptError.Arity]

end Supplied

theorem Builtin.least_le {builtin : Builtin} {count : Nat}
    (admitted : builtin.admits count = true) : builtin.least ≤ count := by
  unfold admits at admitted
  unfold least
  cases shape : builtin.shape with
  | property => exact Nat.zero_le count
  | function least most =>
      rw [shape, Bool.and_eq_true, decide_eq_true_eq] at admitted
      exact admitted.1

/-- Given as many arguments as it takes, a library member finds each that it looks for. -/
theorem callBuiltin_supplied {builtin : Builtin} {arguments : List Value}
    (admitted : builtin.admits arguments.length = true) {world after : World} {error : ScriptError}
    (raised : callBuiltin builtin arguments world = .raised error after) : ¬error.Arity := by
  cases (callBuiltin_ends builtin arguments world).refuses_of_raised raised with
  | missing few needed =>
      have enough := Builtin.least_le admitted
      omega
  | mistaken kinds => exact kinds.not_arity
  | colorless | imageless => exact id

theorem supplied_of_ofAttempt {σ α : Type} {attempt : Attempt α} (supplied : Supplied attempt)
    {state after : σ} {error : ScriptError}
    (raised : ofAttempt attempt state = .raised error after) : ¬error.Arity := by
  cases attempt with
  | ok value => cases raised
  | error problem =>
      cases raised
      exact supplied error rfl

/-- So does a global function.  What fails because of a broadcast that it makes names an
entity. -/
theorem callGlobal_supplied {function : Global} {arguments : List Value}
    (admitted : function.admits arguments.length = true) {levels : Nat} {world after : World}
    {error : ScriptError}
    (raised : callGlobal (.ofLevels levels) function arguments world = .raised error after) :
    ¬error.Arity := by
  simp only [Global.admits, Bool.and_eq_true, decide_eq_true_eq] at admitted
  cases function with
  | emit =>
      have inside : 0 < arguments.length := admitted.1
      rcases raised_bind raised with ⟨event, middle, _, later⟩ | failed
      · rcases raised_bind later with ⟨_, _, _, last⟩ | broadcasts
        · cases last
        · obtain ⟨ref, phase, source, rfl⟩ := names_deliverAll _ _ _ _ _ _ broadcasts
          exact id
      · exact supplied_of_ofAttempt (textArgument_supplied _ inside) failed
  | destroy =>
      have inside : 0 < arguments.length := admitted.1
      rcases raised_bind raised with ⟨target, middle, _, later⟩ | failed
      · rcases raised_bind later with ⟨ref, _, _, last⟩ | mistaken
        · cases last
        · exact supplied_of_ofAttempt target.asEntity_supplied mistaken
      · exact supplied_of_ofAttempt (argument_supplied _ inside) failed
  | print =>
      have inside : 0 < arguments.length := admitted.1
      rcases raised_bind raised with ⟨value, middle, _, last⟩ | failed
      · cases last
      · exact supplied_of_ofAttempt (argument_supplied _ inside) failed

end EntityScript
