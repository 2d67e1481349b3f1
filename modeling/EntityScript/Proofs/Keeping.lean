import EntityScript.Proofs.Composition
import EntityScript.Proofs.Stock

/-!
Whatever scripts do, the code that a world has goes on meeting the demands that are made of it;
and if these exclude loops, scripts come to an end.  Constructions and broadcasts may start each
other, but each takes up a level of call depth, a broadcast is to the finitely many entities that
are registered when it starts, and all else follows the syntax.
-/

namespace EntityScript

open Script

theorem Outcome.of_state? {σ α : Type} {outcome : Outcome σ α} {after : σ}
    (ends : outcome.state? = some after) :
    (∃ value, outcome = .returned value after) ∨ ∃ error, outcome = .raised error after := by
  cases outcome with
  | returned value state =>
      cases ends
      exact .inl ⟨value, rfl⟩
  | raised error state =>
      cases ends
      exact .inr ⟨error, rfl⟩
  | endless => cases ends

/-- From states with a property the computation ends in one with the property.  It may have no
end only where loops are permitted. -/
def Keeps (loops : Bool) {σ α : Type} (view : σ → World) (P : World → Prop)
    (script : Script σ α) : Prop :=
  ∀ state, P (view state) →
    (loops = true ∧ script state = .endless) ∨
    ∃ after, (script state).state? = some after ∧ P (view after)

section Keeps

variable {loops : Bool} {σ α β : Type} {view : σ → World} {P : World → Prop}

theorem Keeps.after {script : Script σ α} (keeps : Keeps loops view P script) {state after : σ}
    (holds : P (view state)) (ends : (script state).state? = some after) : P (view after) := by
  rcases keeps state holds with ⟨_, ran⟩ | ⟨last, reached, holdsLast⟩
  · rw [ran] at ends
    cases ends
  · cases reached.symm.trans ends
    exact holdsLast

theorem Keeps.of_ends {script : Script σ α}
    (ends : ∀ state, P (view state) →
      ∃ after, (script state).state? = some after ∧ P (view after)) : Keeps loops view P script :=
  fun state holds => .inr (ends state holds)

theorem keeps_pure (value : α) : Keeps loops view P (pure value : Script σ α) :=
  .of_ends fun state holds => ⟨state, rfl, holds⟩

theorem keeps_raise (error : ScriptError) : Keeps loops view P (raise error : Script σ α) :=
  .of_ends fun state holds => ⟨state, rfl, holds⟩

theorem keeps_modify {change : σ → σ}
    (keeps : ∀ state, P (view state) → P (view (change state))) :
    Keeps loops view P (modify change) :=
  .of_ends fun state holds => ⟨change state, rfl, keeps state holds⟩

theorem keeps_get_bind {next : σ → Script σ α}
    (rest : ∀ state, P (view state) →
      (loops = true ∧ next state state = .endless) ∨
      ∃ after, (next state state).state? = some after ∧ P (view after)) :
    Keeps loops view P (get >>= next) := rest

theorem keeps_bind {script : Script σ α} {next : α → Script σ β}
    (first : Keeps loops view P script) (rest : ∀ value, Keeps loops view P (next value)) :
    Keeps loops view P (script >>= next) := by
  intro state holds
  rw [bind_eq]
  rcases first state holds with ⟨permitted, ran⟩ | ⟨middle, ends, holdsMiddle⟩
  · exact .inl ⟨permitted, by rw [ran]⟩
  · rcases Outcome.of_state? ends with ⟨value, ran⟩ | ⟨error, ran⟩ <;> rw [ran]
    · exact rest value middle holdsMiddle
    · exact .inr ⟨middle, rfl, holdsMiddle⟩

theorem keeps_andThen {script : Script σ α} {change : Bool → σ → σ}
    (first : Keeps loops view P script)
    (keeps : ∀ succeeded state, P (view state) → P (view (change succeeded state))) :
    Keeps loops view P (andThen script change) := by
  intro state holds
  unfold andThen
  rcases first state holds with ⟨permitted, ran⟩ | ⟨middle, ends, holdsMiddle⟩
  · exact .inl ⟨permitted, by rw [ran]⟩
  · rcases Outcome.of_state? ends with ⟨value, ran⟩ | ⟨error, ran⟩ <;> rw [ran]
    · exact .inr ⟨_, rfl, keeps true middle holdsMiddle⟩
    · exact .inr ⟨_, rfl, keeps false middle holdsMiddle⟩

theorem keeps_rescue {script : Script σ α} {handle : ScriptError → Script σ α}
    (first : Keeps loops view P script) (handled : ∀ error, Keeps loops view P (handle error)) :
    Keeps loops view P (rescue script handle) := by
  intro state holds
  unfold rescue
  rcases first state holds with ⟨permitted, ran⟩ | ⟨middle, ends, holdsMiddle⟩
  · exact .inl ⟨permitted, by rw [ran]⟩
  · rcases Outcome.of_state? ends with ⟨value, ran⟩ | ⟨error, ran⟩ <;> rw [ran]
    · exact .inr ⟨middle, rfl, holdsMiddle⟩
    · exact handled error middle holdsMiddle

theorem Simple.keeps {script : Script σ α} (simple : Simple view script)
    (slight : History.Preserves Slight P) : Keeps loops view P script := by
  refine .of_ends fun state holds => ?_
  have ended : ∃ after, (script state).state? = some after := by
    cases ran : script state with
    | returned value after => exact ⟨after, rfl⟩
    | raised error after => exact ⟨after, rfl⟩
    | endless => exact absurd ran (simple.ends state)
  obtain ⟨after, ends⟩ := ended
  obtain ⟨events, _, little⟩ := simple.follows state after ends
  exact ⟨after, ends, slight _ _ _ holds little⟩

theorem onWorld_keeps {script : Frame → Script World α}
    (keeps : ∀ frame, Keeps loops id P (script frame)) :
    Keeps loops Activation.world P (onWorld script) := by
  rintro ⟨frame, world⟩ holds
  rcases keeps frame world holds with ⟨permitted, ran⟩ | ⟨after, ends, holdsAfter⟩
  · exact .inl ⟨permitted, by simp only [onWorld, ran]⟩
  · refine .inr ⟨⟨frame, after⟩, ?_, holdsAfter⟩
    rcases Outcome.of_state? ends with ⟨value, ran⟩ | ⟨error, ran⟩ <;>
      simp only [onWorld, ran] <;> rfl

theorem inFrame_keeps {frame : Frame} {script : Script Activation Unit}
    (keeps : Keeps loops Activation.world P script) : Keeps loops id P (inFrame frame script) := by
  intro world holds
  rcases keeps ⟨frame, world⟩ holds with ⟨permitted, ran⟩ | ⟨after, ends, holdsAfter⟩
  · exact .inl ⟨permitted, by simp only [inFrame, ran]⟩
  · refine .inr ⟨after.world, ?_, holdsAfter⟩
    rcases Outcome.of_state? ends with ⟨value, ran⟩ | ⟨error, ran⟩ <;>
      simp only [inFrame, ran] <;> rfl

structure Calls.Keep (loops : Bool) (P : World → Prop) (calls : Calls) : Prop where
  spawn (typeName : String) (arguments : List Value) :
    Keeps loops id P (calls.spawn typeName arguments)
  emit (event : String) (payload : Value) : Keeps loops id P (calls.emit event payload)

theorem Composition.keeps {calls : Calls} (nested : calls.Keep loops P)
    (slight : History.Preserves Slight P) {script : Calls → Script σ α}
    (composition : Composition loops view script) : Keeps loops view P (script calls) := by
  induction composition with
  | simple simple => exact simple.keeps slight
  | endless permitted => exact fun _ _ => .inl ⟨permitted, rfl⟩
  | bind _ _ first rest => exact keeps_bind first rest
  | onWorld _ keeps => exact onWorld_keeps keeps
  | inScope _ keeps =>
      apply keeps_bind ((simple_changeFrame _).keeps slight)
      intro _
      exact keeps_andThen keeps fun _ _ holds => holds
  | statement _ _ keeps => exact keeps
  | inFrame frame _ keeps => exact inFrame_keeps keeps
  | spawn typeName arguments => exact nested.spawn typeName arguments
  | emit event payload => exact nested.emit event payload

end Keeps

/-- Code that meets the demands has loops only where they are permitted. -/
structure Stock.Permits (stock : Stock) (loops : Bool) : Prop where
  main {body} : stock.body body → Permitted loops (allLoopFree body)
  constructor {type} : stock.type type → Permitted loops (allLoopFree type.constructor.body)
  method {type call method} : stock.type type → EntityCall.method? type call = some method →
    Permitted loops (allLoopFree method.body)

theorem Stock.permits (stock : Stock) : stock.Permits true where
  main _ := .inl rfl
  constructor _ := .inl rfl
  method _ _ := .inl rfl

section Dispatch

variable {stock : Stock} {loops : Bool} (permits : stock.Permits loops)

theorem runBody_keeps {calls : Calls} (nested : calls.Keep loops (World.Stocked stock))
    (frame : Frame) {body : List Stmt} (permitted : Permitted loops (allLoopFree body)) :
    Keeps loops id (World.Stocked stock) (runBody calls frame body) :=
  (Composition.runBody frame body permitted).keeps nested World.Stocked.slight

include permits

theorem build_keeps {calls : Calls} (nested : calls.Keep loops (World.Stocked stock))
    {type : EntityType} (fits : stock.type type) (ref : EntityRef) (arguments : List Value) :
    Keeps loops id (World.Stocked stock) (build type ref arguments calls) := by
  apply keeps_bind (keeps_modify fun world stocked => stocked.make fits)
  intro _
  apply keeps_bind ((Composition.setUp type ref arguments (permits.constructor fits)).keeps nested
    World.Stocked.slight)
  intro _
  apply keeps_bind (keeps_modify fun world stocked => stocked.congr rfl rfl rfl)
  intro _
  exact keeps_pure _

omit permits in
theorem isolate_keeps {ref : EntityRef} {phase : Phase} {script : Script World Unit}
    (keeps : Keeps loops id (World.Stocked stock) script) :
    Keeps loops id (World.Stocked stock) (isolate ref phase script) := by
  apply keeps_rescue keeps
  intro error
  apply keeps_get_bind
  intro world stocked
  split
  · exact .inr ⟨_, rfl, stocked.log _⟩
  · exact .inr ⟨_, rfl, stocked⟩

variable {inner : Option Calls}
  (nested : ∀ calls ∈ inner, calls.Keep loops (World.Stocked stock))

include nested

omit permits in
theorem enter_keeps {α : Type} (activity : Activity) {body : Calls → Script World α}
    (keeps : ∀ calls ∈ inner, Keeps loops id (World.Stocked stock) (body calls)) :
    Keeps loops id (World.Stocked stock) (enter inner activity body) := by
  cases inner with
  | none =>
      apply keeps_bind (keeps_modify fun world stocked => stocked.congr rfl rfl rfl)
      intro _
      exact keeps_raise _
  | some calls =>
      apply keeps_bind (keeps_modify fun world stocked => stocked.congr rfl rfl rfl)
      intro _
      exact keeps_andThen (keeps calls rfl) fun _ world stocked => stocked.congr rfl rfl rfl

theorem construct_keeps (typeName : String) (arguments : List Value) :
    Keeps loops id (World.Stocked stock) (construct inner typeName arguments) := by
  apply keeps_get_bind
  intro world stocked
  cases known : world.types.get? typeName with
  | none => exact keeps_raise _ world stocked
  | some type =>
      dsimp only
      split
      · apply enter_keeps nested _ ?_ world stocked
        intro calls given
        exact build_keeps permits (nested calls given) (stocked.types known) _ arguments
      · exact keeps_raise _ world stocked

theorem deliver_keeps (call : EntityCall) (target : EntityId) :
    Keeps loops id (World.Stocked stock) (deliver inner call target) := by
  intro world stocked
  cases due : world.due call target with
  | false =>
      rw [deliver_of_not_due due]
      exact .inr ⟨world, rfl, stocked⟩
  | true =>
      obtain ⟨entity, method, found, answered, reached⟩ := World.method_of_due due
      have known : world.type? target = some entity.type := by simp [World.type?, found]
      have invoked : Keeps loops id (World.Stocked stock)
          (invoke inner ⟨target, entity.type.name⟩ call method) := by
        apply enter_keeps nested
        intro calls given
        exact runBody_keeps (nested calls given) _
          (permits.method (stocked.entities known) answered)
      unfold deliver
      rw [get_bind, found]
      simp only [reached, answered]
      apply keeps_bind (isolate_keeps invoked) _ world stocked
      exact fun _ => keeps_pure true

theorem deliverAll_keeps (call : EntityCall) (targets : List EntityId) :
    Keeps loops id (World.Stocked stock) (deliverAll inner call targets) := by
  induction targets with
  | nil => exact keeps_pure 0
  | cons target rest inductionHypothesis =>
      apply keeps_bind (deliver_keeps permits nested call target)
      intro _
      apply keeps_bind inductionHypothesis
      intro _
      exact keeps_pure _

theorem broadcast_keeps (call : EntityCall) :
    Keeps loops id (World.Stocked stock) (broadcast inner call) := by
  apply keeps_get_bind
  intro world stocked
  exact deliverAll_keeps permits nested call world.registry world stocked

theorem around_keep : (Calls.around inner).Keep loops (World.Stocked stock) where
  spawn := construct_keeps permits nested
  emit event payload := broadcast_keeps permits nested (.handler event payload)

omit nested in
theorem inside_keep (levels : Nat) :
    ∀ calls ∈ Calls.inside levels, calls.Keep loops (World.Stocked stock) := by
  induction levels with
  | zero => simp [Calls.inside]
  | succ levels inductionHypothesis =>
      intro calls given
      obtain rfl : Calls.around (Calls.inside levels) = calls := by
        simpa [Calls.inside] using given
      exact around_keep permits inductionHypothesis

end Dispatch

section Host

variable {stock : Stock} {loops : Bool} (permits : stock.Permits loops)

include permits

theorem ofLevels_keep (levels : Nat) : (Calls.ofLevels levels).Keep loops (World.Stocked stock) :=
  around_keep permits (inside_keep permits levels)

namespace World

theorem calls_keep (world : World) : world.calls.Keep loops (Stocked stock) :=
  ofLevels_keep permits _

theorem runMain_keeps : Keeps loops id (Stocked stock) runMain := by
  apply keeps_get_bind
  intro world stocked
  cases main : world.main with
  | none => exact .inr ⟨world, rfl, stocked⟩
  | some entry =>
      exact runBody_keeps (world.calls_keep permits) _ (permits.main (stocked.main main)) world
        stocked

theorem spawn_keeps (typeName : String) (arguments : List Value) :
    Keeps loops id (Stocked stock) (spawn typeName arguments) := by
  apply keeps_get_bind
  intro world stocked
  exact (world.calls_keep permits).spawn typeName arguments world stocked

theorem emit_keeps (event : String) (payload : Value) :
    Keeps loops id (Stocked stock) (emit event payload) := by
  apply keeps_get_bind
  intro world stocked
  exact (world.calls_keep permits).emit event payload world stocked

theorem runPhase_keeps (call : EntityCall) : Keeps loops id (Stocked stock) (runPhase call) := by
  have turns : Keeps loops id (Stocked stock) (do broadcast (← get).inner call) := by
    apply keeps_get_bind
    intro world stocked
    exact broadcast_keeps permits (inside_keep permits _) call world stocked
  refine keeps_bind (keeps_andThen turns ?_) fun _ => keeps_pure _
  exact fun _ _ stocked => stocked.congr rfl rfl rfl

theorem tickPhase_keeps (delta : Float) : Keeps loops id (Stocked stock) (tickPhase delta) := by
  refine keeps_bind (keeps_modify fun world stocked => ?_) fun _ => runPhase_keeps permits _
  have begun : (world.note (.began .tick)).Stocked stock := stocked.congr rfl rfl rfl
  exact begun.removeDestroyed

theorem renderPhase_keeps : Keeps loops id (Stocked stock) renderPhase :=
  keeps_bind (keeps_modify fun _ stocked => stocked.congr rfl rfl rfl) fun _ =>
    runPhase_keeps permits _

end World

namespace Session

omit permits in
theorem onWorld_keeps {α : Type} {script : Script World α}
    (keeps : Keeps loops id (World.Stocked stock) script) :
    Keeps loops Session.world (World.Stocked stock) (onWorld script) := by
  rintro ⟨world, frames, lastStart⟩ stocked
  rcases keeps world stocked with ⟨permitted, ran⟩ | ⟨after, ends, stockedAfter⟩
  · exact .inl ⟨permitted, by simp only [onWorld, ran]⟩
  · refine .inr ⟨⟨after, frames, lastStart⟩, ?_, stockedAfter⟩
    rcases Outcome.of_state? ends with ⟨value, ran⟩ | ⟨error, ran⟩ <;>
      simp only [onWorld, ran] <;> rfl

omit permits in
theorem run_keeps {α : Type} {script : Script World α}
    (keeps : Keeps loops id (World.Stocked stock) script) :
    Keeps loops Session.world (World.Stocked stock) (run script) :=
  keeps_bind (onWorld_keeps keeps) fun _ => keeps_pure ()

omit permits in
theorem change_keeps {change : World → World}
    (keeps : ∀ world, world.Stocked stock → (change world).Stocked stock) :
    Keeps loops Session.world (World.Stocked stock) (Session.change change) :=
  onWorld_keeps (keeps_modify keeps)

theorem step_keeps (elapsed : Float) :
    Keeps loops Session.world (World.Stocked stock) (step elapsed) := by
  intro session stocked
  rw [step_eq]
  have pumped : session.world.pumpInput.Stocked stock := stocked.congr rfl rfl rfl
  refine keeps_bind (onWorld_keeps (World.tickPhase_keeps permits _)) (fun _ => ?_) _ pumped
  apply keeps_bind (onWorld_keeps (World.renderPhase_keeps permits))
  intro _
  exact keeps_modify fun session stocked => stocked.log _

theorem frameAt_keeps (now : Nat) :
    Keeps loops Session.world (World.Stocked stock) (frameAt now) := by
  intro session stocked
  obtain ⟨elapsed, frame⟩ := frameAt_eq now session
  rw [frame]
  exact step_keeps permits elapsed _ stocked

end Session

open Session in
theorem Operation.keeps {operation : Operation} (fits : operation.Stocked stock) :
    Keeps loops Session.world (World.Stocked stock) operation.perform := by
  cases operation with
  | install program => exact change_keeps fun world stocked => stocked.install fits
  | load unit =>
      refine change_keeps fun world stocked => ?_
      split
      · exact stocked.load fits ‹_›
      · exact stocked
  | loadAll items => exact change_keeps fun world stocked => World.Stocked.loadFrom fits stocked _
  | registerImage name width height =>
      exact change_keeps fun world stocked => stocked.congr rfl rfl rfl
  | spawn typeName arguments => exact run_keeps (World.spawn_keeps permits typeName arguments)
  | destroy entity =>
      refine change_keeps fun world stocked => ?_
      obtain ⟨events, _, slight⟩ := Slight.covers.destroy world entity
      exact World.Stocked.slight _ _ _ stocked slight
  | setField id name value =>
      exact change_keeps fun world stocked => World.Stocked.slight _ _ _ stocked .wrote
  | emit event payload => exact run_keeps (World.emit_keeps permits event payload)
  | runMain => exact run_keeps (World.runMain_keeps permits)
  | pushKey event => exact change_keeps fun world stocked => stocked.congr rfl rfl rfl
  | pumpInput => exact change_keeps fun world stocked => stocked.congr rfl rfl rfl
  | tickPhase delta => exact run_keeps (World.tickPhase_keeps permits delta)
  | renderPhase => exact run_keeps (World.renderPhase_keeps permits)
  | step elapsed => exact step_keeps permits elapsed
  | frameAt now => exact frameAt_keeps permits now
  | cancel => exact keeps_modify fun session stocked => stocked.log _

end Host

/-- What the host installs meets the demands, and so does all the code that there is later. -/
theorem Session.stocked_through {stock : Stock} {operations : List Operation}
    {session after : Session} (fits : ∀ operation ∈ operations, operation.Stocked stock)
    (stocked : session.world.Stocked stock) (reached : through operations session = some after) :
    after.world.Stocked stock := by
  have kept (operation : Operation) (member : operation ∈ operations) (before next : Session)
      (leads : before.Leads operation next) (stocked : before.world.Stocked stock) :
      next.world.Stocked stock :=
    (Operation.keeps stock.permits (fits operation member)).after stocked leads
  exact preserved_through kept stocked reached

end EntityScript
