import EntityScript.Proofs.FramePhases
import EntityScript.Proofs.Trace

/-!
The courses that computations take: from a world, with so many levels of call depth left, such
moments and such an outcome.  There are few ways in which a course goes on, and what a history
covers it follows along every course.
-/

namespace EntityScript

open Script

namespace Outcome

variable {α : Type}

def registered (ref : EntityRef) : Outcome World Unit → Outcome World Unit
  | returned _ world => .returned () (world.register ref)
  | outcome => outcome

def left (activity : Activity) : Outcome World Unit → Outcome World Unit
  | returned _ world => .returned () (world.leave activity true)
  | raised error world => .raised error (world.leave activity false)
  | endless => endless

def isolated (ref : EntityRef) (phase : Phase) : Outcome World Unit → Outcome World Unit
  | raised error world =>
      if world.settings.isolateErrors then
        .returned () (world.log (.callFailed ref phase error))
      else .raised (error.within ref phase) world
  | outcome => outcome

/-- The outcome with the end of a phase noted. -/
def ended (phase : Phase) : Outcome World Unit → Outcome World Unit
  | returned _ world => .returned () (world.note (.ended phase))
  | raised error world => .raised error (world.note (.ended phase))
  | endless => endless

end Outcome

/-- The outcome of an activity that is not entered. -/
def World.refusal (world : World) (activity : Activity) : Outcome World Unit :=
  .raised (.recursionLimit maxCallDepth) (world.note (.refused activity))

inductive Course : Nat → World → List Moment → Outcome World Unit → Prop where
  | idle {levels world} : Course levels world [] (.returned () world)
  | endless {levels world} : Course levels world [] .endless
  | append {levels first second moments more outcome} :
      Course levels first moments (.returned () second) → Course levels second more outcome →
      Course levels first (moments ++ more) outcome
  | worked {levels world after} :
      History.Links Slight world after →
      Course levels world [⟨.work, world⟩] (.returned () after)
  | failed {levels world after error} :
      History.Links Slight world after → error.Plain →
      Course levels world [⟨.work, world⟩, ⟨.fail error, after⟩] (.raised error after)
  | executed {levels world stmt moments outcome} :
      Course levels world moments outcome →
      Course levels world (⟨.execute stmt, world⟩ :: moments) outcome
  | unspawned {levels world typeName arguments error} :
      world.constructible typeName arguments = .error error →
      Course levels world [⟨.spawn typeName arguments (.error error), world⟩]
        (.raised error world)
  | refusedSpawn {world typeName arguments type} :
      world.constructible typeName arguments = .ok type →
      Course 0 world
        [⟨.spawn typeName arguments (.error (.recursionLimit maxCallDepth)), world⟩]
        (world.refusal (.construction ⟨world.entities.size, type.name⟩))
  | spawned {levels world typeName arguments type ref moments outcome} :
      world.constructible typeName arguments = .ok type →
      ref = ⟨world.entities.size, type.name⟩ →
      setUp (.ofLevels levels) type ref arguments
        ((world.enter (.construction ref)).make type) = outcome →
      Course levels ((world.enter (.construction ref)).make type) moments outcome →
      Course (levels + 1) world
        (⟨.spawn typeName arguments (.ok ref), world⟩ :: moments ++
          (outcome.registered ref).leaving (.construction ref))
        ((outcome.registered ref).left (.construction ref))
  | refusedCall {world ref call} :
      ref.id ∈ world.registry → world.due call ref.id = true → world.ref? ref.id = some ref →
      Course 0 world
        (⟨.call ref call (.error (.recursionLimit maxCallDepth)), world⟩ ::
          (world.refusal (.call ref call)).isolating ref call.phase)
        ((world.refusal (.call ref call)).isolated ref call.phase)
  | called {levels world ref call moments outcome} :
      ref.id ∈ world.registry → world.due call ref.id = true → world.ref? ref.id = some ref →
      Course levels (world.enter (.call ref call)) moments outcome →
      Course (levels + 1) world
        (⟨.call ref call (.ok ()), world⟩ :: moments ++ outcome.leaving (.call ref call) ++
          (outcome.left (.call ref call)).isolating ref call.phase)
        ((outcome.left (.call ref call)).isolated ref call.phase)
  /-- The host does something that concerns no entity. -/
  | quiet {levels world after} :
      History.Links Quiet world after → Course levels world [] (.returned () after)
  | began {levels world phase} :
      Course levels world [] (.returned () (world.note (.began phase)))
  | ended {levels world moments outcome phase} :
      Course levels world moments outcome → Course levels world moments (outcome.ended phase)

/-- A history that covers frames follows every course. -/
theorem Course.links {R : History} (covers : R.CoversFrames) {levels : Nat} {world after : World}
    {moments : List Moment} {outcome : Outcome World Unit}
    (course : Course levels world moments outcome) (ends : outcome.state? = some after) :
    R.Links world after := by
  have composes := covers.toComposes
  induction course generalizing after with
  | idle | unspawned =>
      cases ends
      exact .refl composes _
  | endless => cases ends
  | append _ _ first rest => exact (first rfl).trans composes (rest ends)
  | worked slight | failed slight _ =>
      cases ends
      exact slight.imp fun _ => Slight.covered covers.toCoversEvaluation
  | executed _ inside => exact inside ends
  | refusedSpawn _ =>
      cases ends
      exact .noted rfl covers.refused
  | @spawned _ world _ _ type ref _ outcome _ named _ _ inside =>
      cases outcome with
      | returned _ ready =>
          cases ends
          obtain ⟨events, noted, related⟩ := inside rfl
          exact ⟨_, by simp [noted], covers.constructed named related⟩
      | raised error left =>
          cases ends
          obtain ⟨events, noted, related⟩ := inside rfl
          exact ⟨_, by simp [noted], covers.abandoned named related⟩
      | endless => cases ends
  | @refusedCall world ref call registered due known =>
      have attempted : Attempted R (.call ref call) world [.refused (.call ref call)]
          (world.note (.refused (.call ref call))) := .refused
      unfold Outcome.isolated World.refusal at ends
      dsimp only at ends
      split at ends
      · cases ends
        exact ⟨_, by simp, covers.turn registered (.failed due known attempted)⟩
      · cases ends
        exact .noted rfl (covers.turn registered (.called due known attempted))
  | @called _ world ref call _ outcome registered due known _ inside =>
      cases outcome with
      | returned _ last =>
          cases ends
          obtain ⟨events, noted, related⟩ := inside rfl
          exact ⟨_, by simp [noted], covers.turn registered (.called due known (.ran related))⟩
      | raised error last =>
          obtain ⟨events, noted, related⟩ := inside rfl
          have attempted : Attempted R (.call ref call) world
              (.entered (.call ref call) :: events ++ [.left (.call ref call) false])
              (last.leave (.call ref call) false) := .ran related
          unfold Outcome.isolated Outcome.left at ends
          dsimp only at ends
          split at ends
          · cases ends
            exact ⟨_, by simp [noted], covers.turn registered (.failed due known attempted)⟩
          · cases ends
            exact ⟨_, by simp [noted], covers.turn registered (.called due known attempted)⟩
      | endless => cases ends
  | quiet links =>
      cases ends
      exact covers.toCoversHost.quietly links
  | @began _ world phase =>
      cases ends
      refine .noted rfl (covers.unmoved ?_ rfl rfl rfl rfl)
      intro event member
      exact .inr ⟨phase, .inl (List.mem_singleton.mp member)⟩
  | @ended _ _ _ outcome phase _ inside =>
      have noted : ∀ last : World, R.Links last (last.note (.ended phase)) := by
        intro last
        refine .noted rfl (covers.unmoved ?_ rfl rfl rfl rfl)
        intro event member
        exact .inr ⟨phase, .inr (List.mem_singleton.mp member)⟩
      cases outcome with
      | returned _ last =>
          cases ends
          exact (inside rfl).trans composes (noted last)
      | raised error last =>
          cases ends
          exact (inside rfl).trans composes (noted last)
      | endless => cases ends

end EntityScript
