import EntityScript.Proofs.Composition

/-!
A history follows evaluation.  A history that covers the few changes that evaluation makes by
itself, and that follows the calls, follows every body.
-/

namespace EntityScript

open Script

structure Calls.Follow (R : History) (calls : Calls) : Prop where
  spawn (typeName : String) (arguments : List Value) :
    Follows id R (calls.spawn typeName arguments)
  emit (event : String) (payload : Value) : Follows id R (calls.emit event payload)

/-- A history follows whatever the calls start, and from worlds with a property other calls do
the same. -/
structure Calls.Track (P : World → Prop) (R : History) (calls other : Calls) : Prop where
  spawn (typeName : String) (arguments : List Value) :
    Tracks id P R (calls.spawn typeName arguments) (other.spawn typeName arguments)
  emit (event : String) (payload : Value) :
    Tracks id P R (calls.emit event payload) (other.emit event payload)

/-- A history covers evaluation and tracks the calls, and keeps the property. -/
structure Tracking (P : World → Prop) (R : History) (calls other : Calls) : Prop extends
    R.CoversEvaluation, calls.Track P R other where
  preserves : R.Preserves P

theorem Calls.Follow.track {P : World → Prop} {R : History} {calls : Calls}
    (nested : calls.Follow R) : calls.Track P R calls where
  spawn typeName arguments := tracks_same (nested.spawn typeName arguments)
  emit event payload := tracks_same (nested.emit event payload)

/-- A history that covers evaluation follows what evaluation does by itself. -/
theorem Simple.followed {σ α : Type} {view : σ → World} {script : Script σ α} {R : History}
    (simple : Simple view script) (covers : R.CoversEvaluation) : Follows view R script :=
  fun state after ends => (simple.follows state after ends).imp fun _ => Slight.covered covers

section Tracking

variable {α : Type} {P : World → Prop} {R : History}

theorem onWorld_tracks {script rest : Frame → Script World α}
    (tracks : ∀ frame, Tracks id P R (script frame) (rest frame)) :
    Tracks Activation.world P R (onWorld script) (onWorld rest) where
  agree := by
    rintro ⟨frame, world⟩ holds
    simp only [onWorld]
    rw [(tracks frame).agree world holds]
  follows := by
    rintro ⟨frame, world⟩ after ends
    cases ran : script frame world with
    | returned value later =>
        simp only [onWorld, ran, Outcome.state?, Option.some.injEq] at ends
        subst ends
        exact (tracks frame).follows world later (by rw [ran]; rfl)
    | raised error later =>
        simp only [onWorld, ran, Outcome.state?, Option.some.injEq] at ends
        subst ends
        exact (tracks frame).follows world later (by rw [ran]; rfl)
    | endless =>
        simp only [onWorld, ran] at ends
        cases ends

variable {calls other : Calls} (tracking : Tracking P R calls other)

include tracking

theorem withScope_tracks {script rest : Script Activation α}
    (tracks : Tracks Activation.world P R script rest) :
    Tracks Activation.world P R (withScope script) (withScope rest) := by
  have composes := tracking.toComposes
  have entered : Follows Activation.world R (changeFrame Frame.push) :=
    (simple_changeFrame _).followed tracking.toCoversEvaluation
  exact tracks_bind composes tracking.preserves (tracks_same entered) fun _ =>
    tracks_andThen composes tracks fun _ activation => .refl composes activation.world

omit tracking in
theorem inFrame_tracks {frame : Frame} {script rest : Script Activation Unit}
    (tracks : Tracks Activation.world P R script rest) :
    Tracks id P R (inFrame frame script) (inFrame frame rest) where
  agree world holds := by
    simp only [inFrame]
    rw [tracks.agree ⟨frame, world⟩ holds]
  follows world after ends := by
    cases ran : script ⟨frame, world⟩ with
    | returned value activation =>
        simp only [inFrame, ran, Outcome.state?, Option.some.injEq] at ends
        subst ends
        exact tracks.follows ⟨frame, world⟩ activation (by rw [ran]; rfl)
    | raised error activation =>
        simp only [inFrame, ran, Outcome.state?, Option.some.injEq] at ends
        subst ends
        exact tracks.follows ⟨frame, world⟩ activation (by rw [ran]; rfl)
    | endless =>
        simp only [inFrame, ran] at ends
        cases ends

/-- What is put together from calls that are tracked is tracked. -/
theorem Composition.tracks {loops : Bool} {σ α : Type} {view : σ → World}
    {script : Calls → Script σ α} (composition : Composition loops view script) :
    Tracks view P R (script calls) (script other) := by
  induction composition with
  | simple simple => exact tracks_same (simple.followed tracking.toCoversEvaluation)
  | endless => exact tracks_same follows_endless
  | bind _ _ first rest => exact tracks_bind tracking.toComposes tracking.preserves first rest
  | onWorld _ tracks => exact onWorld_tracks tracks
  | inScope _ tracks => exact withScope_tracks tracking tracks
  | statement _ _ tracks => exact tracks
  | inFrame frame _ tracks => exact inFrame_tracks tracks
  | spawn typeName arguments => exact tracking.spawn typeName arguments
  | emit event payload => exact tracking.emit event payload

theorem runBody_tracks (frame : Frame) (body : List Stmt) :
    Tracks id P R (runBody calls frame body) (runBody other frame body) :=
  (Composition.runBody frame body (.inl rfl)).tracks tracking

end Tracking

section Follow

variable {R : History} {calls : Calls} (covers : R.CoversEvaluation) (nested : calls.Follow R)

include covers nested

theorem Calls.Follow.tracking : Tracking (fun _ => True) R calls calls where
  toCoversEvaluation := covers
  toTrack := nested.track
  preserves _ _ _ _ _ := trivial

theorem evaluate_follows (expr : Expr) : Follows Activation.world R (evaluate calls expr) :=
  ((Composition.evaluate expr : Composition true _ _).tracks (nested.tracking covers)).follows

theorem eval_follows (frame : Frame) (expr : Expr) : Follows id R (eval calls frame expr) := by
  intro world after ends
  have follows := evaluate_follows covers nested expr ⟨frame, world⟩ ⟨frame, after⟩
  rw [evaluate_eq] at follows
  exact follows (state?_onWorld ends)

/-- A history follows a body if it covers evaluation and follows the calls. -/
theorem runBody_follows (frame : Frame) (body : List Stmt) :
    Follows id R (runBody calls frame body) :=
  (runBody_tracks (nested.tracking covers) frame body).follows

end Follow

end EntityScript
