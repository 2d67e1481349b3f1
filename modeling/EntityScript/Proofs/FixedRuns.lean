import EntityScript.Proofs.FramePhases

/-!
Runs with a fixed time between frames.  A run may be cut anywhere and resumed later, and it stops
at the first frame that fails, in the phase that fails.
-/

namespace EntityScript.Session

open Script

variable {session later : Session} {error : ScriptError}

/-- The frame breaks off in the phase that raises the error, and leaves the session as that phase
left its world. -/
inductive BreaksOff (elapsed : Float) (session : Session) (error : ScriptError) : Session → Prop
    where
  | ticking {left} :
      World.tickPhase (session.world.settings.clampDelta elapsed) session.world.pumpInput =
        .raised error left →
      BreaksOff elapsed session error ⟨left, session.frames, session.lastStart⟩
  | rendering {ticked left} :
      World.tickPhase (session.world.settings.clampDelta elapsed) session.world.pumpInput =
        .returned () ticked →
      World.renderPhase ticked = .raised error left →
      BreaksOff elapsed session error ⟨left, session.frames, session.lastStart⟩

/-- The frame has no end, because one of its phases has none. -/
inductive Hangs (elapsed : Float) (session : Session) : Prop where
  | ticking :
      World.tickPhase (session.world.settings.clampDelta elapsed) session.world.pumpInput =
        .endless →
      Hangs elapsed session
  | rendering {ticked} :
      World.tickPhase (session.world.settings.clampDelta elapsed) session.world.pumpInput =
        .returned () ticked →
      World.renderPhase ticked = .endless →
      Hangs elapsed session

theorem BreaksOff.frames {elapsed : Float} (breaks : BreaksOff elapsed session error later) :
    later.frames = session.frames := by
  cases breaks <;> rfl

/-- A frame that ends well is counted. -/
theorem frames_step {elapsed : Float} (completed : step elapsed session = .returned () later) :
    later.frames = session.frames + 1 := by
  rw [step_eq_phases] at completed
  cases ticks : World.tickPhase (session.world.settings.clampDelta elapsed)
      session.world.pumpInput with
  | raised | endless => simp [ticks] at completed
  | returned _ ticked =>
      rw [ticks] at completed
      dsimp only at completed
      cases renders : World.renderPhase ticked with
      | raised | endless => simp [renders] at completed
      | returned _ rendered =>
          rw [renders] at completed
          cases completed
          rfl

theorem step_eq_raised {elapsed : Float} :
    step elapsed session = .raised error later ↔ BreaksOff elapsed session error later := by
  rw [step_eq_phases]
  constructor
  · intro raised
    cases ticks : World.tickPhase (session.world.settings.clampDelta elapsed)
        session.world.pumpInput with
    | endless => simp [ticks] at raised
    | raised other left =>
        rw [ticks] at raised
        cases raised
        exact .ticking ticks
    | returned _ ticked =>
        rw [ticks] at raised
        dsimp only at raised
        cases renders : World.renderPhase ticked with
        | returned | endless => simp [renders] at raised
        | raised other left =>
            rw [renders] at raised
            cases raised
            exact .rendering ticks renders
  · rintro (ticks | ⟨ticks, renders⟩)
    · rw [ticks]
    · rw [ticks]
      dsimp only
      rw [renders]

theorem step_eq_endless {elapsed : Float} :
    step elapsed session = .endless ↔ Hangs elapsed session := by
  rw [step_eq_phases]
  constructor
  · intro hangs
    cases ticks : World.tickPhase (session.world.settings.clampDelta elapsed)
        session.world.pumpInput with
    | endless => exact .ticking ticks
    | raised => simp [ticks] at hangs
    | returned _ ticked =>
        rw [ticks] at hangs
        dsimp only at hangs
        cases renders : World.renderPhase ticked with
        | endless => exact .rendering ticks renders
        | returned | raised => simp [renders] at hangs
  · rintro (ticks | ⟨ticks, renders⟩)
    · rw [ticks]
    · rw [ticks]
      dsimp only
      rw [renders]

variable (elapsed : Float)

theorem fixedFrames_succ (index frames : Nat) (session : Session) :
    fixedFrames elapsed index (frames + 1) session =
      (do
        step (fixedTime elapsed index session.frames)
        fixedFrames elapsed (index + 1) frames) session := rfl

theorem frames_fixedFrames {index frames : Nat}
    (completed : fixedFrames elapsed index frames session = .returned () later) :
    later.frames = session.frames + frames := by
  induction frames generalizing index session with
  | zero =>
      cases completed
      rfl
  | succ frames inductionHypothesis =>
      rw [fixedFrames_succ] at completed
      obtain ⟨_, middle, first, rest⟩ := returned_bind completed
      rw [inductionHypothesis rest, frames_step first]
      omega

/-- Once a frame was completed the index does not matter any more. -/
theorem fixedFrames_resumed (frames : Nat) (index index' : Nat) (started : session.frames ≠ 0) :
    fixedFrames elapsed index frames session = fixedFrames elapsed index' frames session := by
  induction frames generalizing index index' session with
  | zero => rfl
  | succ frames inductionHypothesis =>
      have time (index : Nat) : fixedTime elapsed index session.frames = elapsed :=
        if_neg fun first => started first.2
      rw [fixedFrames_succ, fixedFrames_succ, time, time, bind_eq, bind_eq]
      cases first : step elapsed session with
      | raised | endless => rfl
      | returned _ middle =>
          have further := frames_step first
          exact inductionHypothesis (index + 1) (index' + 1) (by omega)

theorem fixedFrames_add (first more index : Nat) (session : Session) :
    fixedFrames elapsed index (first + more) session =
      (do
        fixedFrames elapsed index first
        fixedFrames elapsed (index + first) more) session := by
  induction first generalizing index session with
  | zero =>
      rw [Nat.zero_add]
      rfl
  | succ first inductionHypothesis =>
      have indices : index + (first + 1) = index + 1 + first := by omega
      rw [Nat.add_right_comm, fixedFrames_succ, bind_eq, bind_eq, fixedFrames_succ, bind_eq,
        indices]
      cases step (fixedTime elapsed index session.frames) session with
      | raised | endless => rfl
      | returned _ middle =>
          dsimp only
          rw [inductionHypothesis, bind_eq]

/-- A run that is resumed goes on as if it had not been interrupted. -/
theorem runFixed_add (first more : Nat) (session : Session) :
    runFixed elapsed (first + more) session =
      (do
        runFixed elapsed first
        runFixed elapsed more) session := by
  unfold runFixed
  rw [fixedFrames_add, bind_eq, bind_eq, Nat.zero_add]
  cases ran : fixedFrames elapsed 0 first session with
  | raised | endless => rfl
  | returned _ middle =>
      dsimp only
      cases first with
      | zero => rfl
      | succ first =>
          have counted := frames_fixedFrames elapsed ran
          exact fixedFrames_resumed elapsed more (first + 1) 0 (by omega)

/-- A run does not complete if it does not get past one of its frames, which is behind those that
were completed, and it ends as that frame does. -/
theorem fixedFrames_stops {index frames : Nat} {outcome : Outcome Session Unit}
    (stops : ∀ later, outcome ≠ .returned () later) :
    fixedFrames elapsed index frames session = outcome ↔
      ∃ completed < frames, ∃ middle,
        fixedFrames elapsed index completed session = .returned () middle ∧
          step (fixedTime elapsed (index + completed) middle.frames) middle = outcome := by
  constructor
  · intro ran
    induction frames generalizing index session with
    | zero => exact absurd ran.symm (stops session)
    | succ frames inductionHypothesis =>
        rw [fixedFrames_succ, bind_eq] at ran
        cases first : step (fixedTime elapsed index session.frames) session with
        | returned _ next =>
            rw [first] at ran
            obtain ⟨completed, within, middle, before, last⟩ := inductionHypothesis ran
            refine ⟨completed + 1, by omega, middle, ?_, ?_⟩
            · rw [fixedFrames_succ, bind_eq, first]
              exact before
            · rwa [← Nat.add_assoc, Nat.add_right_comm]
        | raised | endless =>
            rw [first] at ran
            exact ⟨0, by omega, session, rfl, first.trans ran⟩
  · rintro ⟨completed, within, middle, before, last⟩
    obtain ⟨more, rfl⟩ := Nat.exists_eq_add_of_lt within
    rw [Nat.add_assoc, fixedFrames_add, bind_eq, before]
    dsimp only
    rw [fixedFrames_succ, bind_eq, last]
    cases outcome with
    | returned _ later => exact absurd rfl (stops later)
    | raised | endless => rfl

theorem runFixed_stops {frames : Nat} {outcome : Outcome Session Unit}
    (stops : ∀ later, outcome ≠ .returned () later) :
    runFixed elapsed frames session = outcome ↔
      ∃ completed < frames, ∃ middle, runFixed elapsed completed session = .returned () middle ∧
        middle.frames = session.frames + completed ∧
          step (fixedTime elapsed completed middle.frames) middle = outcome := by
  unfold runFixed
  rw [fixedFrames_stops elapsed stops]
  constructor
  · rintro ⟨completed, within, middle, before, last⟩
    rw [Nat.zero_add] at last
    exact ⟨completed, within, middle, before, frames_fixedFrames elapsed before, last⟩
  · rintro ⟨completed, within, middle, before, _, last⟩
    rw [← Nat.zero_add completed] at last
    exact ⟨completed, within, middle, before, last⟩

/-- A run completes its frames one behind the other. -/
theorem runFixed_succ_eq_returned {frames : Nat} :
    runFixed elapsed (frames + 1) session = .returned () later ↔
      ∃ middle, runFixed elapsed frames session = .returned () middle ∧
        middle.frames = session.frames + frames ∧
          step (fixedTime elapsed frames middle.frames) middle = .returned () later := by
  unfold runFixed
  rw [fixedFrames_add, bind_eq, Nat.zero_add]
  cases ran : fixedFrames elapsed 0 frames session with
  | raised | endless => simp
  | returned _ middle =>
      have last : fixedFrames elapsed frames 1 middle =
          step (fixedTime elapsed frames middle.frames) middle := by
        rw [fixedFrames_succ, bind_eq]
        cases step (fixedTime elapsed frames middle.frames) middle <;> rfl
      simp only [last, Outcome.returned.injEq, true_and, exists_eq_left']
      exact (and_iff_right (frames_fixedFrames elapsed ran)).symm

/-- A run can be cut in two.  A run of no frames leaves the session as it is, and one more frame is
run behind those that were completed, which are all counted.  The run fails just if one of its
frames does, behind frames that are all counted, with the error and the session that the phase of
the frame leaves behind; and it has no end just if one of its frames has none. -/
theorem fixed_runs_compose (first more frames : Nat) (session : Session) :
    runFixed elapsed (first + more) session =
        (do
          runFixed elapsed first
          runFixed elapsed more) session ∧
      runFixed elapsed 0 session = .returned () session ∧
      (∀ later, runFixed elapsed (frames + 1) session = .returned () later ↔
        ∃ middle, runFixed elapsed frames session = .returned () middle ∧
          middle.frames = session.frames + frames ∧
            step (fixedTime elapsed frames middle.frames) middle = .returned () later) ∧
      (∀ later, runFixed elapsed frames session = .returned () later →
        later.frames = session.frames + frames) ∧
      (∀ error later, runFixed elapsed frames session = .raised error later ↔
        ∃ completed < frames, ∃ middle,
          runFixed elapsed completed session = .returned () middle ∧
            middle.frames = session.frames + completed ∧ later.frames = middle.frames ∧
              BreaksOff (fixedTime elapsed completed middle.frames) middle error later) ∧
      (runFixed elapsed frames session = .endless ↔
        ∃ completed < frames, ∃ middle,
          runFixed elapsed completed session = .returned () middle ∧
            middle.frames = session.frames + completed ∧
              Hangs (fixedTime elapsed completed middle.frames) middle) := by
  refine ⟨runFixed_add elapsed first more session, rfl,
    fun later => runFixed_succ_eq_returned elapsed, fun later => frames_fixedFrames elapsed,
    fun error later => ?_, ?_⟩
  · have fails : ∀ later', (.raised error later : Outcome Session Unit) ≠ .returned () later' :=
      nofun
    rw [runFixed_stops elapsed fails]
    constructor
    · rintro ⟨completed, within, middle, before, counted, last⟩
      have breaks := step_eq_raised.mp last
      exact ⟨completed, within, middle, before, counted, breaks.frames, breaks⟩
    · rintro ⟨completed, within, middle, before, counted, _, breaks⟩
      exact ⟨completed, within, middle, before, counted, step_eq_raised.mpr breaks⟩
  · have hangs : ∀ later', (.endless : Outcome Session Unit) ≠ .returned () later' := nofun
    simp only [runFixed_stops elapsed hangs, step_eq_endless]

end EntityScript.Session
