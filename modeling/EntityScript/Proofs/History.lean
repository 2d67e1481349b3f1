import EntityScript.Script
import EntityScript.World

/-!
Histories: what computations do to a world, seen together with the events they note.  A
history that composes follows a computation as soon as it follows its parts.
-/

namespace EntityScript

/-- A relation between a world, the events that follow, and the world they lead to. -/
abbrev History := World → List Event → World → Prop

namespace History

/-- Histories in a row make up a history. -/
structure Composes (R : History) : Prop where
  idle {world} : R world [] world
  append {first second third events more} :
    R first events second → R second more third → R first (events ++ more) third

/-- One world leads to another, with the events noted in between. -/
def Links (R : History) (before after : World) : Prop :=
  ∃ events, after.journal.toList = before.journal.toList ++ events ∧ R before events after

/-- Where a property of worlds holds before, it holds after. -/
def Preserves (R : History) (P : World → Prop) : Prop :=
  ∀ world events after, P world → R world events after → P after

variable {R : History}

theorem Links.refl (composes : R.Composes) (world : World) : R.Links world world :=
  ⟨[], by simp, composes.idle⟩

theorem Links.trans (composes : R.Composes) {first second third : World}
    (before : R.Links first second) (after : R.Links second third) : R.Links first third := by
  obtain ⟨events, noted, related⟩ := before
  obtain ⟨more, notedMore, relatedMore⟩ := after
  exact ⟨events ++ more, by rw [notedMore, noted, List.append_assoc],
    composes.append related relatedMore⟩

theorem Links.imp {S : History} {before after : World} (links : R.Links before after)
    (weaker : ∀ events, R before events after → S before events after) :
    S.Links before after := by
  obtain ⟨events, noted, related⟩ := links
  exact ⟨events, noted, weaker events related⟩

theorem Links.silent {before after : World} (same : after.journal = before.journal)
    (related : R before [] after) : R.Links before after :=
  ⟨[], by simp [same], related⟩

theorem Links.noted {before after : World} {event : Event}
    (pushed : after.journal = before.journal.push event) (related : R before [event] after) :
    R.Links before after :=
  ⟨[event], by simp [pushed], related⟩

end History

namespace Script

variable {σ α β : Type} {view : σ → World} {R : History}

theorem get_bind (next : σ → Script σ α) (state : σ) :
    (get >>= next) state = next state state := rfl

theorem bind_eq (script : Script σ α) (next : α → Script σ β) (state : σ) :
    (script >>= next) state =
      match script state with
      | .returned value middle => next value middle
      | .raised error left => .raised error left
      | .endless => .endless := rfl

theorem returned_bind {script : Script σ α} {next : α → Script σ β} {state last : σ}
    {result : β} (returned : (script >>= next) state = .returned result last) :
    ∃ value middle, script state = .returned value middle ∧
      next value middle = .returned result last := by
  rw [bind_eq] at returned
  cases ran : script state with
  | returned value middle =>
      rw [ran] at returned
      exact ⟨value, middle, rfl, returned⟩
  | raised | endless => simp [ran] at returned

theorem raised_bind {script : Script σ α} {next : α → Script σ β} {state left : σ}
    {error : ScriptError} (raised : (script >>= next) state = .raised error left) :
    (∃ value middle, script state = .returned value middle ∧
      next value middle = .raised error left) ∨ script state = .raised error left := by
  rw [bind_eq] at raised
  cases ran : script state with
  | returned value middle =>
      rw [ran] at raised
      exact .inl ⟨value, middle, rfl, raised⟩
  | raised other middle =>
      rw [ran] at raised
      cases raised
      exact .inr rfl
  | endless => simp [ran] at raised

theorem ends_bind {script : Script σ α} {next : α → Script σ β} {state after : σ}
    (ends : ((script >>= next) state).state? = some after) :
    (∃ value middle, script state = .returned value middle ∧
      (next value middle).state? = some after) ∨
    ∃ error, script state = .raised error after := by
  rw [bind_eq] at ends
  cases ran : script state with
  | returned value middle =>
      rw [ran] at ends
      exact .inl ⟨value, middle, rfl, ends⟩
  | raised error middle =>
      rw [ran] at ends
      cases ends
      exact .inr ⟨error, rfl⟩
  | endless =>
      rw [ran] at ends
      cases ends

theorem ends_andThen {script : Script σ α} {change : Bool → σ → σ} {state after : σ}
    (ends : (andThen script change state).state? = some after) :
    ∃ middle, (script state).state? = some middle ∧
      after = change (script state).succeeded middle := by
  cases ran : script state with
  | returned value middle =>
      simp only [andThen, ran, Outcome.state?, Option.some.injEq] at ends
      exact ⟨middle, rfl, ends.symm⟩
  | raised error middle =>
      simp only [andThen, ran, Outcome.state?, Option.some.injEq] at ends
      exact ⟨middle, rfl, ends.symm⟩
  | endless =>
      simp only [andThen, ran] at ends
      cases ends

/-- A history follows a computation: it links what the computation starts from to what it
leaves behind, whether it fails or not. -/
def Follows (view : σ → World) (R : History) (script : Script σ α) : Prop :=
  ∀ state after, (script state).state? = some after → R.Links (view state) (view after)

theorem follows_pure (composes : R.Composes) (value : α) :
    Follows view R (pure value : Script σ α) := by
  intro state after ends
  cases ends
  exact .refl composes _

theorem follows_raise (composes : R.Composes) (error : ScriptError) :
    Follows view R (raise error : Script σ α) := by
  intro state after ends
  cases ends
  exact .refl composes _

theorem follows_endless : Follows view R (endless : Script σ α) := by
  intro state after ends
  cases ends

theorem follows_get (composes : R.Composes) : Follows view R (get : Script σ σ) := by
  intro state after ends
  cases ends
  exact .refl composes _

theorem follows_modify {change : σ → σ}
    (links : ∀ state, R.Links (view state) (view (change state))) :
    Follows view R (modify change) := by
  intro state after ends
  cases ends
  exact links state

theorem follows_bind (composes : R.Composes) {script : Script σ α} {next : α → Script σ β}
    (first : Follows view R script) (rest : ∀ value, Follows view R (next value)) :
    Follows view R (script >>= next) := by
  intro state after ends
  rcases ends_bind ends with ⟨value, middle, ran, endsRest⟩ | ⟨error, failed⟩
  · have reached := first state middle (by rw [ran]; rfl)
    exact reached.trans composes (rest value middle after endsRest)
  · exact first state after (by rw [failed]; rfl)

theorem follows_andThen (composes : R.Composes) {script : Script σ α} {change : Bool → σ → σ}
    (first : Follows view R script)
    (links : ∀ succeeded state, R.Links (view state) (view (change succeeded state))) :
    Follows view R (andThen script change) := by
  intro state after ends
  obtain ⟨middle, reached, rfl⟩ := ends_andThen ends
  exact (first state middle reached).trans composes (links _ middle)

/-- A history follows a computation, and from worlds with a property another computation does
the same. -/
structure Tracks (view : σ → World) (P : World → Prop) (R : History)
    (script other : Script σ α) : Prop where
  agree : ∀ state, P (view state) → script state = other state
  follows : Follows view R script

section Tracks

variable {P : World → Prop}

theorem tracks_same {script : Script σ α} (follows : Follows view R script) :
    Tracks view P R script script :=
  ⟨fun _ _ => rfl, follows⟩

theorem tracks_bind (composes : R.Composes) (preserves : R.Preserves P)
    {script other : Script σ α} {next rest : α → Script σ β}
    (first : Tracks view P R script other)
    (later : ∀ value, Tracks view P R (next value) (rest value)) :
    Tracks view P R (script >>= next) (other >>= rest) where
  agree state holds := by
    rw [bind_eq, bind_eq, ← first.agree state holds]
    cases ran : script state with
    | returned value after =>
        obtain ⟨_, _, related⟩ := first.follows state after (by rw [ran]; rfl)
        exact (later value).agree after (preserves _ _ _ holds related)
    | raised error after => rfl
    | endless => rfl
  follows := follows_bind composes first.follows fun value => (later value).follows

theorem tracks_andThen (composes : R.Composes) {script other : Script σ α}
    {change : Bool → σ → σ} (tracks : Tracks view P R script other)
    (links : ∀ succeeded state, R.Links (view state) (view (change succeeded state))) :
    Tracks view P R (andThen script change) (andThen other change) where
  agree state holds := by
    unfold andThen
    rw [tracks.agree state holds]
  follows := follows_andThen composes tracks.follows links

end Tracks

end Script

end EntityScript
