import EntityScript.Proofs.Activities
import EntityScript.Proofs.SettingsFiles

/-!
What ticks are told about the time that has passed.  Whatever time a host gives for a frame, and
whatever instants, ticks get a number that can be compared and is not beyond the bound that is set.
It is not negative either, unless the bound is: a negative bound is passed on to every tick.
-/

namespace EntityScript

open Script

/-! ### One frame -/

/-- The time that ticks may be told has passed. -/
structure Settings.Allows (settings : Settings) (delta : Float) : Prop where
  number : delta.isNaN = false
  bound {most} : settings.maxFrameDelta = some most → delta ≤ most
  least : 0 ≤ delta ∨ ∃ most, settings.maxFrameDelta = some most ∧ most < 0 ∧ delta = most

theorem Settings.Bounded.allows {settings : Settings} (bounded : settings.Bounded)
    (elapsed : Float) : settings.Allows (settings.clampDelta elapsed) := by
  obtain ⟨number, least⟩ := Number.le_greatest elapsed JsonNumber.isNaN_zero
  unfold clampDelta
  cases bound : settings.maxFrameDelta with
  | none => exact ⟨number, fun set => (nomatch bound.symm.trans set), .inl least⟩
  | some most =>
      have comparable := bounded most bound
      dsimp only
      by_cases beyond : most < Number.greatest elapsed 0
      · rw [if_pos beyond]
        refine ⟨comparable, fun set => ?_, ?_⟩
        · obtain rfl := Option.some.inj (bound.symm.trans set)
          exact Number.le_refl comparable
        · by_cases negative : most < 0
          · exact .inr ⟨most, bound, negative, rfl⟩
          · exact .inl (Number.le_of_not_lt comparable JsonNumber.isNaN_zero negative)
      · rw [if_neg beyond]
        refine ⟨number, fun set => ?_, .inl least⟩
        obtain rfl := Option.some.inj (bound.symm.trans set)
        exact Number.le_of_not_lt comparable number beyond

/-! ### What ticks are told -/

def EntityCall.delta? : EntityCall → Option Float
  | tick delta => some delta
  | render | handler .. => none

def Act.delta? : Act → Option Float
  | call _ made _ => made.delta?
  | _ => none

/-- What ticks are told at such moments, whether they run or are refused. -/
def deltas (moments : List Moment) : List Float := moments.filterMap (·.act.delta?)

@[simp]
theorem deltas_nil : deltas [] = [] := rfl

@[simp]
theorem deltas_append (moments more : List Moment) :
    deltas (moments ++ more) = deltas moments ++ deltas more :=
  List.filterMap_append

theorem deltas_cons (act : Act) (world : World) (moments : List Moment) :
    deltas (⟨act, world⟩ :: moments) = act.delta?.toList ++ deltas moments := by
  unfold deltas
  rw [List.filterMap_cons]
  cases act.delta? <;> rfl

@[simp]
theorem Outcome.deltas_leaving {α : Type} (outcome : Outcome World α) (activity : Activity) :
    deltas (outcome.leaving activity) = [] := by
  cases outcome <;> rfl

@[simp]
theorem Outcome.deltas_isolating {α : Type} (outcome : Outcome World α) (ref : EntityRef)
    (phase : Phase) : deltas (outcome.isolating ref phase) = [] := by
  cases outcome with
  | raised error world =>
      unfold isolating
      dsimp only
      rw [deltas_cons]
      split <;> rfl
  | returned | endless => rfl

theorem Outcome.deltas_andTrace {σ α : Type} {outcome : Outcome σ α}
    {next : α → σ → List Moment}
    (silent : ∀ value state, outcome = .returned value state → deltas (next value state) = []) :
    deltas (outcome.andTrace next) = [] := by
  cases outcome with
  | returned value state => exact silent value state rfl
  | raised | endless => rfl

/-- What starts calls starts no ticks. -/
structure Watched.Tickless (watched : Watched) : Prop where
  spawned (typeName : String) (arguments : List Value) (world : World) :
    deltas (watched.spawned typeName arguments world) = []
  emitted (event : String) (payload : Value) (world : World) :
    deltas (watched.emitted event payload world) = []

@[simp]
theorem Simple.deltas_trace {σ α : Type} {view : σ → World} {script : Script σ α}
    (simple : Simple view script) (state : σ) : deltas (simple.trace state) = [] := by
  unfold trace
  cases script state <;> rfl

theorem Composition.deltas_trace {watched : Watched} (tickless : watched.Tickless) {loops : Bool}
    {σ α : Type} {view : σ → World} {script : Calls → Script σ α}
    (composition : Composition loops view script) (state : σ) :
    deltas (composition.trace watched state) = [] := by
  induction composition with
  | simple simple => exact simple.deltas_trace state
  | endless => rfl
  | bind _ _ first rest =>
      rw [trace, deltas_append, first,
        Outcome.deltas_andTrace fun value after _ => rest value after, List.append_nil]
  | onWorld _ inside => exact inside state.frame state.world
  | inScope _ inside => exact inside { state with frame := state.frame.push }
  | statement stmt _ inside => exact inside state
  | inFrame frame _ inside => exact inside ⟨frame, state⟩
  | spawn typeName arguments => exact tickless.spawned typeName arguments state
  | emit event payload => exact tickless.emitted event payload state

section Dispatch

variable {inner : Option Watched} (nested : ∀ watched, inner = some watched → watched.Tickless)

include nested

theorem deltas_traceEnter {α : Type} {attempt : Attempt Unit → Act} {activity : Activity}
    {body : Calls → Script World α} {trace : Watched → World → List Moment} (told : Option Float)
    (starts : ∀ answer, (attempt answer).delta? = told)
    (silent : ∀ watched world, watched.Tickless → deltas (trace watched world) = [])
    (world : World) :
    deltas (traceEnter inner attempt activity body trace world) = told.toList := by
  unfold traceEnter
  cases inner with
  | none => rw [deltas_cons, starts, deltas_nil, List.append_nil]
  | some watched =>
      dsimp only
      rw [deltas_append, deltas_cons, starts, silent watched _ (nested watched rfl),
        Outcome.deltas_leaving, List.append_nil, List.append_nil]

theorem deltas_traceConstruct (typeName : String) (arguments : List Value) (world : World) :
    deltas (traceConstruct inner typeName arguments world) = [] := by
  unfold traceConstruct
  cases world.constructible typeName arguments with
  | error error => rfl
  | ok type =>
      dsimp only
      refine deltas_traceEnter nested none ?_ ?_ world
      · intro answer
        rfl
      · intro watched entered tickless
        exact Composition.deltas_trace tickless _ _

theorem deltas_traceInvoke (ref : EntityRef) (call : EntityCall) (method : Method)
    (world : World) : deltas (traceInvoke inner ref call method world) = call.delta?.toList := by
  unfold traceInvoke
  refine deltas_traceEnter nested call.delta? ?_ ?_ world
  · intro answer
    rfl
  · intro watched entered tickless
    exact Composition.deltas_trace tickless _ _

/-- A call tells the entity it reaches what it says, and nothing else is told. -/
theorem deltas_traceDeliver (call : EntityCall) (id : EntityId) (world : World) :
    deltas (traceDeliver inner call id world) ⊆ call.delta?.toList := by
  unfold traceDeliver
  split
  · exact List.nil_subset _
  · split
    · exact List.nil_subset _
    · split
      · exact List.nil_subset _
      next method _ =>
        rw [deltas_append, deltas_traceInvoke nested, Outcome.deltas_isolating, List.append_nil]
        exact List.Subset.refl _

theorem deltas_traceDeliverAll (call : EntityCall) (ids : List EntityId) (world : World) :
    deltas (traceDeliverAll inner call ids world) ⊆ call.delta?.toList := by
  induction ids generalizing world with
  | nil => exact List.nil_subset _
  | cons id rest inductionHypothesis =>
      unfold traceDeliverAll
      rw [deltas_append]
      apply List.append_subset.mpr
      refine ⟨deltas_traceDeliver nested call id world, ?_⟩
      cases deliver (inner.map Watched.calls) call id world with
      | returned _ after => exact inductionHypothesis after
      | raised | endless => exact List.nil_subset _

theorem deltas_traceBroadcast (call : EntityCall) (world : World) :
    deltas (traceBroadcast inner call world) ⊆ call.delta?.toList :=
  deltas_traceDeliverAll nested call world.registry world

theorem Watched.tickless_around : (Watched.around inner).Tickless where
  spawned := deltas_traceConstruct nested
  emitted event payload world :=
    List.subset_nil.mp (deltas_traceBroadcast nested (.handler event payload) world)

end Dispatch

theorem Watched.tickless_inside (levels : Nat) :
    ∀ watched, inside levels = some watched → watched.Tickless := by
  induction levels with
  | zero => nofun
  | succ levels inductionHypothesis =>
      rintro _ ⟨⟩
      exact tickless_around inductionHypothesis

theorem World.tickless_watched (world : World) : world.watched.Tickless :=
  Watched.tickless_around (Watched.tickless_inside _)

theorem World.deltas_traceTicks (delta : Float) (world : World) :
    deltas (world.traceTicks delta) ⊆ [delta] :=
  deltas_traceBroadcast (Watched.tickless_inside _) (.tick delta) _

theorem World.deltas_traceRenders (world : World) : deltas world.traceRenders = [] :=
  List.subset_nil.mp (deltas_traceBroadcast (Watched.tickless_inside _) .render _)

theorem Session.deltas_traceStep (elapsed : Float) (session : Session) :
    deltas (session.traceStep elapsed) ⊆ [session.world.settings.clampDelta elapsed] := by
  unfold traceStep
  dsimp only
  rw [deltas_append, Outcome.deltas_andTrace fun _ ticked _ => ticked.world.deltas_traceRenders,
    List.append_nil]
  exact World.deltas_traceTicks _ _

/-! ### What a host does -/

/-- What a host does that leaves ticks to frames: single frames, fixed runs, and anything else that
does not tick. -/
inductive Drive where
  | step (elapsed : Float)
  | frameAt (now : Nat)
  | runFixed (elapsed : Float) (frames : Nat)
  | between (operation : Operation) (tickless : operation.ticks = false)

namespace Session

/-- What happens while frames of a fixed run run. -/
def traceFixedFrames (elapsed : Float) : Nat → Nat → Session → List Moment
  | _, 0, _ => []
  | index, frames + 1, session =>
      let time := fixedTime elapsed index session.frames
      session.traceStep time ++
        (Session.step time session).andTrace fun _ => traceFixedFrames elapsed (index + 1) frames

end Session

namespace Drive

def perform : Drive → Script Session Unit
  | step elapsed => Session.step elapsed
  | frameAt now => Session.frameAt now
  | runFixed elapsed frames => Session.runFixed elapsed frames
  | between operation _ => operation.perform

/-- What happens meanwhile, in order. -/
def trace (drive : Drive) (session : Session) : List Moment :=
  match drive with
  | step elapsed => session.traceStep elapsed
  | frameAt now => session.traceFrame now
  | runFixed elapsed frames => session.traceFixedFrames elapsed 0 frames
  | between operation _ => operation.trace session

/-- What happens while a host goes on, up to something that has no end. -/
def traceAll : List Drive → Session → List Moment
  | [], _ => []
  | drive :: rest, session =>
      drive.trace session ++
        match (drive.perform session).state? with
        | some after => traceAll rest after
        | none => []

end Drive

/-- All that is told is the clamped time of some frame. -/
def Clamped (settings : Settings) (moments : List Moment) : Prop :=
  ∀ delta ∈ deltas moments, ∃ elapsed, delta = settings.clampDelta elapsed

namespace Clamped

variable {settings : Settings} {moments more : List Moment}

theorem silent (silent : deltas moments = []) : Clamped settings moments := by
  intro delta member
  rw [silent] at member
  cases member

theorem append (first : Clamped settings moments) (rest : Clamped settings more) :
    Clamped settings (moments ++ more) := by
  intro delta member
  rw [deltas_append] at member
  exact (List.mem_append.mp member).elim (first delta) (rest delta)

end Clamped

namespace Session

theorem clamped_traceStep (elapsed : Float) (session : Session) :
    Clamped session.world.settings (session.traceStep elapsed) := fun _ member =>
  ⟨elapsed, List.mem_singleton.mp (deltas_traceStep elapsed session member)⟩

theorem clamped_traceFrame (now : Nat) (session : Session) :
    Clamped session.world.settings (session.traceFrame now) := by
  obtain ⟨world, frames, lastStart⟩ := session
  cases lastStart with
  | none => exact clamped_traceStep 0 ⟨world, frames, some now⟩
  | some last =>
      exact clamped_traceStep (Settings.secondsOfNanos (now - last)) ⟨world, frames, some now⟩

theorem settings_step {elapsed : Float} {session after : Session}
    (ends : (step elapsed session).state? = some after) :
    after.world.settings = session.world.settings := by
  have leads : session.Leads (.step elapsed) after := ends
  exact leads.steady.settings

theorem clamped_traceFixedFrames (elapsed : Float) (index frames : Nat) (session : Session) :
    Clamped session.world.settings (session.traceFixedFrames elapsed index frames) := by
  induction frames generalizing index session with
  | zero => exact .silent rfl
  | succ frames inductionHypothesis =>
      apply Clamped.append (clamped_traceStep _ session)
      cases ran : step (fixedTime elapsed index session.frames) session with
      | returned _ after =>
          have settings : after.world.settings = session.world.settings :=
            settings_step (by rw [ran]; rfl)
          rw [← settings]
          exact inductionHypothesis (index + 1) after
      | raised | endless => exact .silent rfl

theorem settings_fixedFrames {elapsed : Float} {index frames : Nat} {session after : Session}
    (ends : (fixedFrames elapsed index frames session).state? = some after) :
    after.world.settings = session.world.settings := by
  induction frames generalizing index session with
  | zero =>
      cases ends
      rfl
  | succ frames inductionHypothesis =>
      unfold fixedFrames at ends
      change ((step (fixedTime elapsed index session.frames) >>= fun _ =>
        fixedFrames elapsed (index + 1) frames) session).state? = some after at ends
      rw [bind_eq] at ends
      cases ran : step (fixedTime elapsed index session.frames) session with
      | returned _ middle =>
          rw [ran] at ends
          exact (inductionHypothesis ends).trans (settings_step (by rw [ran]; rfl))
      | raised error left =>
          rw [ran] at ends
          cases ends
          exact settings_step (by rw [ran]; rfl)
      | endless =>
          rw [ran] at ends
          cases ends

end Session

theorem Operation.clamped_trace {operation : Operation} (tickless : operation.ticks = false)
    (session : Session) : Clamped session.world.settings (operation.trace session) := by
  apply Clamped.silent
  cases operation with
  | tickPhase | step | frameAt => cases tickless
  | spawn typeName arguments => exact session.world.tickless_watched.spawned _ _ _
  | emit event payload => exact session.world.tickless_watched.emitted _ _ _
  | runMain =>
      change deltas session.world.traceMain = []
      unfold World.traceMain
      split
      · rfl
      · exact Composition.deltas_trace session.world.tickless_watched _ _
  | renderPhase => exact session.world.deltas_traceRenders
  | install | load | loadAll | registerImage | destroy | setField | pushKey | pumpInput | cancel =>
      rfl

namespace Drive

theorem settings_perform {drive : Drive} {session after : Session}
    (ends : (drive.perform session).state? = some after) :
    after.world.settings = session.world.settings := by
  have operated (operation : Operation) (leads : session.Leads operation after) :=
    leads.steady.settings
  cases drive with
  | step elapsed => exact operated (.step elapsed) ends
  | frameAt now => exact operated (.frameAt now) ends
  | runFixed elapsed frames => exact Session.settings_fixedFrames ends
  | between operation _ => exact operated operation ends

theorem clamped_trace (drive : Drive) (session : Session) :
    Clamped session.world.settings (drive.trace session) := by
  cases drive with
  | step elapsed => exact session.clamped_traceStep elapsed
  | frameAt now => exact session.clamped_traceFrame now
  | runFixed elapsed frames => exact session.clamped_traceFixedFrames elapsed 0 frames
  | between operation tickless => exact Operation.clamped_trace tickless session

theorem clamped_traceAll (drives : List Drive) (session : Session) :
    Clamped session.world.settings (traceAll drives session) := by
  induction drives generalizing session with
  | nil => exact .silent rfl
  | cons drive rest inductionHypothesis =>
      apply Clamped.append (drive.clamped_trace session)
      cases ends : (drive.perform session).state? with
      | none => exact .silent rfl
      | some after =>
          have settings := settings_perform ends
          rw [← settings]
          exact inductionHypothesis after

end Drive

/-- Whatever frames a host asks for, with whatever times and instants, and whatever it does in
between: with settings that a command can run with ticks are told a number, at most the bound, and
at least zero unless the bound is negative, which is what they are told then. -/
theorem Session.ticks_told_in_range {files : FileTree} {config : Option String}
    {settings : Settings} (found : Command.settings? files config = some settings)
    (hasKeys : Bool) (drives : List Drive) :
    ∀ delta ∈ deltas (Drive.traceAll drives (start (World.initial settings hasKeys))),
      settings.Allows delta := by
  intro delta member
  obtain ⟨elapsed, rfl⟩ := Drive.clamped_traceAll drives _ delta member
  exact (Settings.bounded_of_settings found).allows elapsed

/-- A clock keeps what its last tick was told. -/
def clockwork : Program where
  name := "clockwork"
  main := none
  types :=
    let here : Source.Span := ⟨0, 0, 1⟩
    let keep : Stmt := .assign ⟨.this, ["last"]⟩ .set (.ident "dt" here) here
    [⟨"Clock", [⟨"last", none⟩], ⟨[], []⟩, some ⟨["dt"], [keep]⟩, none, .empty, here⟩]

/-- A clock is made, and then there are frames, the last of them at an instant before. -/
def winding : List Drive :=
  [.between (.install clockwork) rfl, .between (.spawn "Clock" []) rfl, .runFixed 0.5 3,
    .step (-1), .frameAt 2000000000, .frameAt 1000000000]

/-- A settings file that bounds the time of frames. -/
def boundedBy (bound : String) : FileTree :=
  .ofFiles [("settings.json", "\x7b\"max_frame_delta\": " ++ bound ++ "\x7d")]

namespace Session

theorem winding_told_in_range :
    ∃ settings run, Command.settings? (boundedBy "0.05") (some "settings.json") = some settings ∧
      run = Drive.traceAll winding (start (World.initial settings false)) ∧
      deltas run = [0, 0.05, 0.05, 0, 0, 0] ∧ ∀ delta ∈ deltas run, settings.Allows delta := by
  have seen : ((Command.settings? (boundedBy "0.05") (some "settings.json")).map fun settings =>
      deltas (Drive.traceAll winding (start (World.initial settings false)))) =
        some [0, 0.05, 0.05, 0, 0, 0] := by
    decide +kernel
  obtain ⟨settings, found, told⟩ := Option.map_eq_some_iff.mp seen
  exact ⟨settings, _, found, rfl, told, ticks_told_in_range found false winding⟩

/-- Where a settings file sets a negative bound, ticks are told that a negative time has passed. -/
theorem winding_told_negative :
    ∃ settings, Command.settings? (boundedBy "-1") (some "settings.json") = some settings ∧
      ∃ delta ∈ deltas (Drive.traceAll winding (start (World.initial settings false))),
        ¬0 ≤ delta := by
  have seen : ((Command.settings? (boundedBy "-1") (some "settings.json")).map fun settings =>
      deltas (Drive.traceAll winding (start (World.initial settings false)))) =
        some [-1, -1, -1, -1, -1, -1] := by
    decide +kernel
  obtain ⟨settings, found, told⟩ := Option.map_eq_some_iff.mp seen
  refine ⟨settings, found, -1, ?_, by decide +kernel⟩
  rw [told]
  exact List.mem_cons_self

end Session

end EntityScript
