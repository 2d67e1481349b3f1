import EntityScript.Proofs.Account
import EntityScript.Proofs.Dispatch
import EntityScript.Session.Operation

/-!
What an operation of the host is made of.  `Performed` takes it apart: it lets scripts run, or
it is a phase of a frame in which one entity after another has its turn, or it is a whole
frame, of which the ticks come first.
-/

namespace EntityScript

open Script

/-- A change that concerns no entity. -/
structure Quiet (world : World) (events : List Event) (after : World) : Prop where
  plain : ∀ event ∈ events, event.Plain
  settings : after.settings = world.settings
  registry : after.registry = world.registry
  entities : after.entities = world.entities
  depth : after.depth = world.depth

theorem Quiet.still {world after : World} (settings : after.settings = world.settings)
    (registry : after.registry = world.registry) (entities : after.entities = world.entities)
    (depth : after.depth = world.depth) : Quiet world [] after :=
  ⟨by simp, settings, registry, entities, depth⟩

/-- A phase of a frame, from when its turns begin. -/
inductive PhaseRun (R : History) (call : EntityCall) : History where
  | run {world events after} :
      TurnsTaken R call world.registry world events after →
      PhaseRun R call world (events ++ [.ended call.phase]) (after.note (.ended call.phase))

/-- A tick phase; first of all the destroyed entities are taken out. -/
inductive Ticked (R : History) (delta : Float) : History where
  | ticked {world removal events after} : (∀ event ∈ removal, event.Plain) →
      PhaseRun R (.tick delta) (world.note (.began .tick)).removeDestroyed events after →
      Ticked R delta world (.began .tick :: removal ++ events) after

inductive Rendered (R : History) : History where
  | rendered {world events after} :
      PhaseRun R .render (world.note (.began .render)) events after →
      Rendered R world (.began .render :: events) after

/-- What is left of a frame after its tick phase: nothing if it fails. -/
inductive RestOfFrame (R : History) : History where
  | stopped {world} : RestOfFrame R world [] world
  | rendered {first second third events more} :
      Rendered R first events second → R second more third →
      RestOfFrame R first (events ++ more) third

/-- What an operation is made of; the flag says whether it ticks entities. -/
inductive Performed (R : History) : Bool → History where
  | scripts {world events after} :
      R world events after → Performed R false world events after
  | rendered {world events after} :
      Rendered R world events after → Performed R false world events after
  | frame {delta first second third last events more} :
      Quiet first [] second → Ticked R delta second events third →
      RestOfFrame R third more last → Performed R true first (events ++ more) last

theorem PhaseRun.imp {R S : History} {call : EntityCall} {world after : World}
    {events : List Event}
    (weaker : ∀ {world events after}, R world events after → S world events after)
    (run : PhaseRun R call world events after) : PhaseRun S call world events after := by
  cases run with
  | run taken => exact .run (taken.imp weaker)

theorem Ticked.imp {R S : History} {delta : Float} {world after : World} {events : List Event}
    (weaker : ∀ {world events after}, R world events after → S world events after)
    (ticked : Ticked R delta world events after) : Ticked S delta world events after := by
  cases ticked with
  | ticked plain phase => exact .ticked plain (phase.imp weaker)

theorem Rendered.imp {R S : History} {world after : World} {events : List Event}
    (weaker : ∀ {world events after}, R world events after → S world events after)
    (rendered : Rendered R world events after) : Rendered S world events after := by
  cases rendered with
  | rendered phase => exact .rendered (phase.imp weaker)

theorem RestOfFrame.imp {R S : History} {world after : World} {events : List Event}
    (weaker : ∀ {world events after}, R world events after → S world events after)
    (rest : RestOfFrame R world events after) : RestOfFrame S world events after := by
  cases rest with
  | stopped => exact .stopped
  | rendered phase complete => exact .rendered (phase.imp weaker) (weaker complete)

theorem Performed.imp {R S : History} {ticks : Bool} {world after : World} {events : List Event}
    (weaker : ∀ {world events after}, R world events after → S world events after)
    (performed : Performed R ticks world events after) :
    Performed S ticks world events after := by
  cases performed with
  | scripts related => exact .scripts (weaker related)
  | rendered phase => exact .rendered (phase.imp weaker)
  | frame quiet phase rest => exact .frame quiet (phase.imp weaker) (rest.imp weaker)

namespace History

/-- The history covers what the host does besides running scripts. -/
structure CoversHost (R : History) : Prop extends Covers R where
  quiet {world events after} : Quiet world events after → R world events after

theorem CoversHost.and {R S : History} (first : R.CoversHost) (second : S.CoversHost) :
    (R.And S).CoversHost where
  toCovers := first.toCovers.and second.toCovers
  quiet still := ⟨first.quiet still, second.quiet still⟩

variable {R : History}

theorem CoversHost.quietly (covers : R.CoversHost) {world after : World}
    (links : Links Quiet world after) : R.Links world after :=
  links.imp fun _ => covers.quiet

end History

/-! ### Changes that run no scripts -/

namespace Quiet

theorem composes : History.Composes Quiet where
  idle := .still rfl rfl rfl rfl
  append {_ _ _ _ _} first rest :=
    { plain := List.forall_mem_append.mpr ⟨first.plain, rest.plain⟩
      settings := rest.settings.trans first.settings
      registry := rest.registry.trans first.registry
      entities := rest.entities.trans first.entities
      depth := rest.depth.trans first.depth }

theorem logged {world : World} {entry : LogEntry} (plain : ∀ ref, entry ≠ .destroyed ref) :
    History.Links Quiet world (world.log entry) := by
  refine .noted rfl ⟨?_, rfl, rfl, rfl, rfl⟩
  intro event member
  rw [List.mem_singleton.mp member]
  exact ⟨entry, rfl, plain⟩

theorem silent {world after : World} (journal : after.journal = world.journal)
    (settings : after.settings = world.settings) (registry : after.registry = world.registry)
    (entities : after.entities = world.entities) (depth : after.depth = world.depth) :
    History.Links Quiet world after :=
  .silent journal (.still settings registry entities depth)

end Quiet

namespace World

theorem installType_quiet (world : World) (unit : String) (type : EntityType) :
    History.Links Quiet world (world.installType unit type) := by
  have noted : History.Links Quiet world (if world.types.contains type.name then
      world.log (.typeRedefined unit type.name) else world) := by
    split
    · exact Quiet.logged (by simp)
    · exact .refl Quiet.composes world
  exact noted.trans Quiet.composes (Quiet.silent rfl rfl rfl rfl rfl)

theorem installMain_quiet (world : World) (unit : String) (body : List Stmt) :
    History.Links Quiet world (world.installMain unit body) := by
  unfold World.installMain
  split
  · exact (Quiet.logged (by simp)).trans Quiet.composes (Quiet.silent rfl rfl rfl rfl rfl)
  · exact Quiet.silent rfl rfl rfl rfl rfl

theorem install_quiet (world : World) (program : Program) :
    History.Links Quiet world (world.install program) := by
  have types : ∀ (types : List EntityType) (world : World),
      History.Links Quiet world (types.foldl (·.installType program.name) world) := by
    intro types
    induction types with
    | nil => exact fun world => .refl Quiet.composes world
    | cons type rest inductionHypothesis =>
        intro world
        exact (world.installType_quiet program.name type).trans Quiet.composes
          (inductionHypothesis _)
  unfold World.install
  dsimp only
  split
  · exact (types _ _).trans Quiet.composes (installMain_quiet _ _ _)
  · exact types _ _

theorem load_quiet {world loaded : World} {unit : SourceUnit}
    (load : world.load unit = .ok loaded) : History.Links Quiet world loaded := by
  unfold World.load at load
  split at load
  · cases load
  · cases load
    exact (world.install_quiet _).trans Quiet.composes (Quiet.logged (by simp))

theorem loadFrom_quiet (items : List (Except SourceFailure SourceUnit)) (world : World)
    (report : LoadReport) : History.Links Quiet world (world.loadFrom report items).1 := by
  have composes := Quiet.composes
  induction items generalizing world report with
  | nil => exact .refl composes world
  | cons item rest inductionHypothesis =>
      cases item with
      | error failure =>
          exact (Quiet.logged (by simp)).trans composes (inductionHypothesis _ _)
      | ok unit =>
          unfold World.loadFrom
          cases load : world.load unit with
          | error problem =>
              simp only [load, Except.map]
              exact (Quiet.logged (by simp)).trans composes (inductionHypothesis _ _)
          | ok loaded =>
              simp only [load, Except.map]
              exact (load_quiet load).trans composes (inductionHypothesis _ _)

end World

variable {R : History}

namespace Session

variable {session after : Session}

theorem state?_change {change : World → World}
    (ends : (Session.change change session).state? = some after) :
    after.world = change session.world := by
  cases ends
  rfl

theorem state?_onWorld {α : Type} {script : Script World α}
    (ends : (onWorld script session).state? = some after) :
    (script session.world).state? = some after.world ∧ after.frames = session.frames := by
  unfold onWorld at ends
  cases ran : script session.world <;> simp only [ran] at ends <;> cases ends <;>
    exact ⟨rfl, rfl⟩

theorem state?_run {α : Type} {script : Script World α}
    (ends : (Session.run script session).state? = some after) :
    (script session.world).state? = some after.world := by
  rcases ends_bind ends with ⟨value, middle, ran, done⟩ | ⟨error, failed⟩
  · cases done
    exact (state?_onWorld (by rw [ran]; rfl)).1
  · exact (state?_onWorld (by rw [failed]; rfl)).1

end Session

namespace World

variable {world after : World}

theorem calls_follow (covers : R.Covers) (world : World) : world.calls.Follow R :=
  around_follow covers (inside_follow covers _)

theorem runMain_links (covers : R.Covers) (ends : (runMain world).state? = some after) :
    R.Links world after := by
  unfold runMain at ends
  rw [get_bind] at ends
  cases main : world.main with
  | none =>
      rw [main] at ends
      cases ends
      exact .refl covers.toComposes _
  | some entry =>
      rw [main] at ends
      exact runBody_follows covers.toCoversEvaluation (world.calls_follow covers) _ _ _ _ ends

theorem spawn_links (covers : R.Covers) {typeName : String} {arguments : List Value}
    (ends : (spawn typeName arguments world).state? = some after) : R.Links world after :=
  (world.calls_follow covers).spawn typeName arguments world after ends

theorem emit_links (covers : R.Covers) {event : String} {payload : Value}
    (ends : (emit event payload world).state? = some after) : R.Links world after :=
  (world.calls_follow covers).emit event payload world after ends

theorem runPhase_links (covers : R.Covers) {call : EntityCall}
    (ends : (runPhase call world).state? = some after) :
    (PhaseRun R call).Links world after := by
  have turns : ∀ {middle}, (deliverAll world.inner call world.registry world).state? =
      some middle → (PhaseRun R call).Links world (middle.note (.ended call.phase)) := by
    intro middle ends
    obtain ⟨events, noted, taken⟩ := deliverAll_links covers (inside_follow covers _) ends
    exact ⟨_, by simp [noted], .run taken⟩
  rcases ends_bind ends with ⟨count, middle, ran, done⟩ | ⟨error, failed⟩
  · cases done
    obtain ⟨middle, reached, rfl⟩ := ends_andThen (by rw [ran]; rfl)
    exact turns reached
  · obtain ⟨middle, reached, rfl⟩ := ends_andThen (by rw [failed]; rfl)
    exact turns reached

theorem removeDestroyed_notes (world : World) : ∃ removal,
    world.removeDestroyed.journal.toList = world.journal.toList ++ removal ∧
      ∀ event ∈ removal, event.Plain := by
  rcases world.journal_removeDestroyed with same | ⟨count, pushed⟩
  · exact ⟨[], by simp [same], by simp⟩
  · refine ⟨[.logged (.removed count)], by simp [pushed], ?_⟩
    intro event member
    exact ⟨.removed count, List.mem_singleton.mp member, by simp⟩

theorem tickPhase_links (covers : R.Covers) {delta : Float}
    (ends : (tickPhase delta world).state? = some after) :
    (Ticked R delta).Links world after := by
  obtain ⟨events, noted, phase⟩ := runPhase_links covers
    (show (runPhase (.tick delta) (world.note (.began .tick)).removeDestroyed).state? = some after
      from ends)
  obtain ⟨removal, removed, plain⟩ := (world.note (.began .tick)).removeDestroyed_notes
  exact ⟨_, by simp [noted, removed], .ticked plain phase⟩

theorem renderPhase_links (covers : R.Covers) (ends : (renderPhase world).state? = some after) :
    (Rendered R).Links world after := by
  obtain ⟨events, noted, phase⟩ := runPhase_links covers
    (show (runPhase .render (world.note (.began .render))).state? = some after from ends)
  exact ⟨_, by simp [noted], .rendered phase⟩

end World

namespace Session

variable {session after : Session}

/-- A frame first applies the waiting key events, which concerns no entity. -/
theorem step_eq (elapsed : Float) (session : Session) :
    step elapsed session =
      (do
        onWorld (World.tickPhase (session.world.settings.clampDelta elapsed))
        onWorld World.renderPhase
        modify (completeFrame (session.world.settings.clampDelta elapsed)))
      { session with world := session.world.pumpInput } := rfl

theorem step_links (covers : R.CoversHost) {elapsed : Float}
    (ends : (step elapsed session).state? = some after) :
    (Performed R true).Links session.world after.world := by
  have pumped : Quiet session.world [] session.world.pumpInput := .still rfl rfl rfl rfl
  have frame : ∀ {ticked : Session} {last : World},
      ((onWorld (World.tickPhase (session.world.settings.clampDelta elapsed)))
        { session with world := session.world.pumpInput }).state? = some ticked →
      (RestOfFrame R).Links ticked.world last →
      (Performed R true).Links session.world last := by
    rintro ticked last tickEnds ⟨rest, notedRest, restOfFrame⟩
    obtain ⟨more, notedMore, phase⟩ :=
      World.tickPhase_links covers.toCovers (state?_onWorld tickEnds).1
    exact ⟨_, by rw [notedRest, notedMore]; simp [World.pumpInput], .frame pumped phase restOfFrame⟩
  rw [step_eq] at ends
  rcases ends_bind ends with ⟨_, ticked, ran, endsRest⟩ | ⟨error, failed⟩
  · apply frame (by rw [ran]; rfl)
    rcases ends_bind endsRest with ⟨_, rendered, ranRender, done⟩ | ⟨error, failed⟩
    · obtain ⟨more, notedMore, phase⟩ := World.renderPhase_links covers.toCovers
        (state?_onWorld (by rw [ranRender]; rfl)).1
      cases done
      obtain ⟨last, notedLast, complete⟩ : R.Links rendered.world
          (completeFrame (session.world.settings.clampDelta elapsed) rendered).world :=
        covers.quietly (Quiet.logged (by simp))
      exact ⟨_, by rw [notedLast, notedMore, List.append_assoc], .rendered phase complete⟩
    · obtain ⟨more, notedMore, phase⟩ := World.renderPhase_links covers.toCovers
        (state?_onWorld (by rw [failed]; rfl)).1
      exact ⟨_, by rw [notedMore, List.append_nil], .rendered phase covers.idle⟩
  · exact frame (by rw [failed]; rfl) (.silent rfl .stopped)

theorem frameAt_eq (now : Nat) (session : Session) :
    ∃ elapsed, frameAt now session = step elapsed { session with lastStart := some now } := by
  obtain ⟨world, frames, lastStart⟩ := session
  cases lastStart with
  | none => exact ⟨0, rfl⟩
  | some start => exact ⟨Settings.secondsOfNanos (now - start), rfl⟩

theorem frameAt_links (covers : R.CoversHost) {now : Nat}
    (ends : (frameAt now session).state? = some after) :
    (Performed R true).Links session.world after.world := by
  obtain ⟨elapsed, frame⟩ := frameAt_eq now session
  rw [frame] at ends
  have links := step_links covers ends
  exact links

end Session

/-- Every operation that ends is made of scripts and phases. -/
theorem Session.Leads.links (covers : R.CoversHost) {session after : Session}
    {operation : Operation} (leads : session.Leads operation after) :
    (Performed R operation.ticks).Links session.world after.world := by
  have scripts : R.Links session.world after.world →
      (Performed R false).Links session.world after.world :=
    fun links => links.imp fun _ => .scripts
  have changed : ∀ {change : World → World}, R.Links session.world (change session.world) →
      (Session.change change session).state? = some after →
      (Performed R false).Links session.world after.world := by
    intro change links ends
    rw [state?_change ends]
    exact links.imp fun _ => .scripts
  cases operation with
  | install program => exact changed (covers.quietly (World.install_quiet _ _)) leads
  | load unit =>
      refine changed ?_ leads
      split
      · exact covers.quietly (World.load_quiet ‹_›)
      · exact .refl covers.toComposes _
  | loadAll items => exact changed (covers.quietly (World.loadFrom_quiet items _ _)) leads
  | registerImage name width height =>
      exact changed (covers.quietly (Quiet.silent rfl rfl rfl rfl rfl)) leads
  | spawn typeName arguments =>
      exact scripts (World.spawn_links covers.toCovers (state?_run leads))
  | destroy entity => exact changed (covers.toCoversEvaluation.destroy _ _) leads
  | setField id name value => exact changed (.silent rfl covers.wrote) leads
  | emit event payload => exact scripts (World.emit_links covers.toCovers (state?_run leads))
  | runMain => exact scripts (World.runMain_links covers.toCovers (state?_run leads))
  | pushKey event => exact changed (covers.quietly (Quiet.silent rfl rfl rfl rfl rfl)) leads
  | pumpInput => exact changed (covers.quietly (Quiet.silent rfl rfl rfl rfl rfl)) leads
  | tickPhase delta =>
      obtain ⟨more, noted, phase⟩ := World.tickPhase_links covers.toCovers (state?_run leads)
      have still : Quiet session.world [] session.world := .still rfl rfl rfl rfl
      exact ⟨_, by rw [noted, List.append_nil], .frame still phase .stopped⟩
  | renderPhase =>
      exact (World.renderPhase_links covers.toCovers (state?_run leads)).imp fun _ => .rendered
  | step elapsed => exact step_links covers leads
  | frameAt now => exact frameAt_links covers leads
  | cancel =>
      cases leads
      exact scripts (covers.quietly (Quiet.logged (by simp)))

/-! ### Histories that cover frames -/

namespace History

/-- The history covers all that operations are made of, up to the entities that a tick phase
takes out. -/
structure CoversFrames (R : History) : Prop extends Covers R where
  unmoved {world events after} :
    (∀ event ∈ events, event.Plain ∨ event.Boundary) → after.settings = world.settings →
    after.registry = world.registry → after.entities = world.entities →
    after.depth = world.depth → R world events after
  turn {world : World} {call id events after} :
    id ∈ world.registry → TurnTaken R call id world events after → R world events after

theorem CoversFrames.toCoversHost (covers : R.CoversFrames) : R.CoversHost where
  toCovers := covers.toCovers
  quiet still := covers.unmoved (fun event member => .inl (still.plain event member))
    still.settings still.registry still.entities still.depth

end History

theorem PhaseRun.covered (covers : R.CoversFrames) {call : EntityCall} {world after : World}
    {events : List Event} (run : PhaseRun R call world events after) : R world events after := by
  cases run with
  | run taken =>
      have turns := taken.covered covers.toComposes covers.registered covers.turn
        fun _ member => member
      refine covers.append turns (covers.unmoved ?_ rfl rfl rfl rfl)
      intro event member
      exact .inr ⟨call.phase, .inr (List.mem_singleton.mp member)⟩

theorem Rendered.covered (covers : R.CoversFrames) {world after : World} {events : List Event}
    (rendered : Rendered R world events after) : R world events after := by
  cases rendered with
  | rendered phase =>
      have begun : R world [.began .render] (world.note (.began .render)) := by
        refine covers.unmoved ?_ rfl rfl rfl rfl
        intro event member
        exact .inr ⟨.render, .inl (List.mem_singleton.mp member)⟩
      exact covers.append begun (phase.covered covers)

/-- A tick phase is covered from the world without the entities it takes out. -/
theorem Ticked.covered (covers : R.CoversFrames) {delta : Float} {world after : World}
    {events : List Event} (ticked : Ticked R delta world events after) :
    R world.removeDestroyed events after := by
  cases ticked with
  | ticked plain phase =>
      refine covers.append (covers.unmoved ?_ ?_ ?_ ?_ ?_) (phase.covered covers)
      · intro event member
        rcases List.mem_cons.mp member with rfl | removed
        · exact .inr ⟨.tick, .inl rfl⟩
        · exact .inl (plain event removed)
      all_goals simp

theorem RestOfFrame.covered (covers : R.CoversFrames) {world after : World}
    {events : List Event} (rest : RestOfFrame R world events after) : R world events after := by
  cases rest with
  | stopped => exact covers.idle
  | rendered phase complete => exact covers.append (phase.covered covers) complete

theorem Performed.covered (covers : R.CoversFrames) {ticks : Bool} {world after : World}
    {events : List Event} (performed : Performed R ticks world events after) :
    R (if ticks then world.removeDestroyed else world) events after := by
  cases performed with
  | scripts related => exact related
  | rendered phase => exact phase.covered covers
  | @frame _ _ second _ _ _ _ quiet phase rest =>
      have cleared : R world.removeDestroyed [] second.removeDestroyed := by
        refine covers.unmoved (by simp) ?_ ?_ ?_ ?_
        · simp [quiet.settings]
        · simp [quiet.registry, World.isDestroyed_congr quiet.entities]
        · simp [quiet.entities]
        · simp [quiet.depth]
      exact covers.append (covers.append cleared (phase.covered covers)) (rest.covered covers)

end EntityScript
