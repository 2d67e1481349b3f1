import EntityScript.Proofs.KeyEvents
import EntityScript.Proofs.Loads
import EntityScript.Proofs.Reaching

/-!
Which keys scripts find held.  Only a poll changes them, so all the scripts that run between two
polls, and all that a frame runs, get the same answers, and these are the answers that the events
applied so far give.
-/

namespace EntityScript

open Script

namespace World

variable (world : World)

theorem keyboard_destroy (ref : EntityRef) : (world.destroy ref).keyboard = world.keyboard := by
  unfold destroy
  split <;> rfl

theorem keyboard_removeDestroyed : world.removeDestroyed.keyboard = world.keyboard := by
  unfold removeDestroyed
  dsimp only
  split <;> rfl

theorem keyboard_install (program : Program) :
    (world.install program).keyboard = world.keyboard := by
  have same := congrArg keyboard (world.silent_install program)
  exact same

variable {world}

theorem keyboard_load {loaded : World} {unit : SourceUnit} (load : world.load unit = .ok loaded) :
    loaded.keyboard = world.keyboard := by
  unfold World.load at load
  split at load
  · cases load
  · cases load
    exact world.keyboard_install _

theorem keyboard_loadAll (items : List Provided) :
    (world.loadAll items).1.keyboard = world.keyboard := by
  have installed := (loadFrom_outcomes items world ⟨[], []⟩).1.trans (world.silent_installAll _)
  have same := congrArg keyboard installed
  exact same

end World

/-- Scripts leave the keyboard alone. -/
def KeyboardKept : History := fun world _ after =>
  after.keyboard = world.keyboard ∧ ∀ id ∈ world.registry, id ∈ after.registry

namespace KeyboardKept

variable {world after : World} {events : List Event}

theorem of_same (keyboard : after.keyboard = world.keyboard)
    (registry : after.registry = world.registry) : KeyboardKept world events after :=
  ⟨keyboard, fun _ member => registry ▸ member⟩

theorem append {second third : World} {more : List Event}
    (first : KeyboardKept world events second) (rest : KeyboardKept second more third) :
    KeyboardKept world (events ++ more) third :=
  ⟨rest.1.trans first.1, fun id member => rest.2 id (first.2 id member)⟩

theorem composes : History.Composes KeyboardKept where
  idle := .of_same rfl rfl
  append := append

theorem turn {call : EntityCall} {id : EntityId}
    (taken : TurnTaken KeyboardKept call id world events after) :
    KeyboardKept world events after := by
  apply taken.covered composes (.of_same rfl rfl)
  intro ref events after _ attempted
  cases attempted with
  | refused => exact .of_same rfl rfl
  | ran inside => exact inside

theorem covers : History.Covers KeyboardKept where
  toComposes := composes
  wrote := .of_same rfl rfl
  painted := .of_same rfl rfl
  printed := .of_same rfl rfl
  destroyed _ _ := .of_same (World.keyboard_destroy _ _) (World.registry_destroy _ _)
  declared := .of_same rfl rfl
  refused := .of_same rfl rfl
  constructed _ inside := ⟨inside.1, fun id member => by simp [inside.2 id member]⟩
  abandoned _ inside := inside
  handled _ taken := turn taken
  registered related member := related.2 _ member

end KeyboardKept

/-- Code leaves the keyboard as it was, whatever it calls. -/
theorem Composition.keyboard {σ α : Type} {view : σ → World} {script : Calls → Script σ α}
    (composition : Composition true view script) {levels : Nat} {state after : σ} {value : α}
    (ran : script (.ofLevels levels) state = .returned value after) :
    (view after).keyboard = (view state).keyboard := by
  have covers := KeyboardKept.covers
  have nested : (Calls.ofLevels levels).Follow KeyboardKept :=
    around_follow covers (inside_follow covers levels)
  have tracks := composition.tracks (nested.tracking covers.toCoversEvaluation)
  obtain ⟨_, _, kept, _⟩ := tracks.follows state after (by rw [ran]; rfl)
  exact kept

section Kept

variable {levels : Nat} {frame : Frame} {world after : World}

theorem eval_keyboard {expr : Expr} {value : Value}
    (ran : eval (.ofLevels levels) frame expr world = .returned value after) :
    after.keyboard = world.keyboard :=
  (Composition.evaluate expr).keyboard (evaluate_of_eval ran)

theorem evalAll_keyboard {exprs : List Expr} {values : List Value}
    (ran : evalAll (.ofLevels levels) frame exprs world = .returned values after) :
    after.keyboard = world.keyboard :=
  (Composition.evaluateAll exprs).keyboard (evaluateAll_of_evalAll ran)

theorem execBranches_keyboard {branches : List (Expr × List Stmt)} {taken : Bool} {next : Frame}
    (ran : execBranches (.ofLevels levels) branches ⟨frame, world⟩ =
      .returned taken ⟨next, after⟩) : after.keyboard = world.keyboard :=
  (Composition.execBranches branches (.inl rfl)).keyboard ran

theorem runInitializers_keyboard {ref : EntityRef} {initializers : List Initializer}
    (ran : runInitializers (.ofLevels levels) frame ref initializers world = .returned () after) :
    after.keyboard = world.keyboard :=
  (Composition.declareProperties ref initializers).keyboard
    (declareProperties_of_runInitializers ran)

end Kept

/-- Whatever code starts finds the keyboard as the code did. -/
theorem Running.Starts.keyboard {first second : Running} (starts : first.Starts second) :
    second.world.keyboard = first.world.keyboard := by
  cases starts
  case right ran _ | methodArguments ran | otherExprs ran | bound ran _ | taken ran _ |
      otherBranches ran _ => exact eval_keyboard ran
  case spawn ran | builtin ran | global ran => exact evalAll_keyboard ran
  case otherwise ran => exact execBranches_keyboard ran
  case rounds first _ last _ => exact (eval_keyboard last).trans (eval_keyboard first)
  case otherRounds counter body _ _ count _ _ _ _ ran =>
    have loops : Composition true Activation.world (fun calls => withScope do
        changeFrame (·.define counter (.number count))
        withScope (execAll calls body)) :=
      .inScope (.bind (.simple (simple_changeFrame _)) fun _ =>
        .inScope (.execAll body (.inl rfl)))
    exact loops.keyboard ran
  case otherStmts stmt _ _ _ _ ran => exact (Composition.exec stmt (.inl rfl)).keyboard ran
  case otherInitializers ran => exact runInitializers_keyboard ran
  case constructor ran => exact (runInitializers_keyboard ran).trans rfl
  case otherTargets ran =>
    have covers := KeyboardKept.covers
    obtain ⟨_, _, taken⟩ := deliver_links covers (inside_follow covers _)
      (show (deliver _ _ _ _).state? = some _ by rw [ran]; rfl)
    exact (KeyboardKept.turn taken).1
  all_goals rfl

/-! ### Operations -/

section Phases

variable {world after : World} {events : List Event}

theorem PhaseRun.keyboard {call : EntityCall}
    (run : PhaseRun KeyboardKept call world events after) : after.keyboard = world.keyboard := by
  cases run with
  | run taken =>
      have kept := taken.covered KeyboardKept.composes (fun related => related.2 _)
        (fun _ => KeyboardKept.turn) fun _ member => member
      exact kept.1

theorem World.keyboard_tickPhase {delta : Float}
    (ends : (tickPhase delta world).state? = some after) : after.keyboard = world.keyboard := by
  obtain ⟨_, _, ticked⟩ := tickPhase_links KeyboardKept.covers ends
  cases ticked with
  | ticked _ phase => exact phase.keyboard.trans (keyboard_removeDestroyed _)

theorem World.keyboard_renderPhase (ends : (renderPhase world).state? = some after) :
    after.keyboard = world.keyboard := by
  obtain ⟨_, _, rendered⟩ := renderPhase_links KeyboardKept.covers ends
  cases rendered with
  | rendered phase => exact phase.keyboard

end Phases

/-- What an operation makes of the keyboard: a frame polls it. -/
def Operation.keys (operation : Operation) (keyboard : Keyboard) : Keyboard :=
  match operation with
  | pushKey event => keyboard.push event
  | pumpInput | step _ | frameAt _ => keyboard.poll
  | _ => keyboard

namespace Session

variable {session after : Session}

theorem keyboard_step {elapsed : Float} (ends : (step elapsed session).state? = some after) :
    after.world.keyboard = session.world.keyboard.poll := by
  rw [step_eq] at ends
  rcases ends_bind ends with ⟨_, ticked, ran, endsRest⟩ | ⟨error, failed⟩
  · have first := World.keyboard_tickPhase (state?_onWorld (by rw [ran]; rfl)).1
    rcases ends_bind endsRest with ⟨_, rendered, ranRender, done⟩ | ⟨error, failed⟩
    · have second : rendered.world.keyboard = ticked.world.keyboard :=
        World.keyboard_renderPhase (state?_onWorld (by rw [ranRender]; rfl)).1
      cases done
      exact second.trans first
    · exact (World.keyboard_renderPhase (state?_onWorld (by rw [failed]; rfl)).1).trans first
  · exact World.keyboard_tickPhase (state?_onWorld (by rw [failed]; rfl)).1

theorem Leads.keyboard {operation : Operation} (leads : session.Leads operation after) :
    after.world.keyboard = operation.keys session.world.keyboard := by
  have covers := KeyboardKept.covers
  have kept {world : World} (links : History.Links KeyboardKept session.world world) :
      world.keyboard = session.world.keyboard := links.elim fun _ related => related.2.1
  cases operation with
  | install program =>
      rw [state?_change leads]
      exact World.keyboard_install _ program
  | load unit =>
      rw [state?_change leads]
      split
      next loaded => exact World.keyboard_load loaded
      next => rfl
  | loadAll items =>
      rw [state?_change leads]
      exact World.keyboard_loadAll items
  | destroy entity =>
      rw [state?_change leads]
      exact World.keyboard_destroy _ entity
  | registerImage | setField | pushKey | pumpInput =>
      rw [state?_change leads]
      rfl
  | spawn => exact kept (World.spawn_links covers (state?_run leads))
  | emit => exact kept (World.emit_links covers (state?_run leads))
  | runMain => exact kept (World.runMain_links covers (state?_run leads))
  | tickPhase => exact World.keyboard_tickPhase (state?_run leads)
  | renderPhase => exact World.keyboard_renderPhase (state?_run leads)
  | step => exact keyboard_step leads
  | frameAt now =>
      obtain ⟨elapsed, frame⟩ := frameAt_eq now session
      rw [Leads, Operation.perform, frame] at leads
      have polled := keyboard_step leads
      exact polled
  | cancel =>
      cases leads
      rfl

/-- All the scripts of an operation find the keyboard as the operation makes it. -/
theorem Begins.keyboard {operation : Operation} {running : Running}
    (begins : session.Begins operation running) :
    running.world.keyboard = operation.keys session.world.keyboard := by
  induction begins with
  | scripts begins =>
      cases begins with
      | tickPhase cleared => exact cleared ▸ World.keyboard_removeDestroyed _
      | renderPhase noted => exact noted ▸ rfl
      | _ => rfl
  | ticks begins =>
      cases begins with
      | tickPhase cleared => exact cleared ▸ World.keyboard_removeDestroyed _
  | renders ticked begins =>
      cases begins with
      | renderPhase noted =>
          subst noted
          exact World.keyboard_tickPhase (by rw [ticked]; rfl)
  | frame _ _ inductionHypothesis => exact inductionHypothesis

end Session

/-! ### Scripts between polls -/

/-- While scripts run, one thing is started after the other, and events are pushed at any time. -/
inductive Running.Meanwhile : Running → Running → Prop where
  | starts {first second} : Starts first second → Meanwhile first second
  | pushed {running event} :
      Meanwhile running { running with world := running.world.pushKey event }

theorem Running.Meanwhile.held {first running : Running}
    (leads : Relation.ReflTransGen Meanwhile first running) :
    running.world.keyboard.held = first.world.keyboard.held := by
  induction leads with
  | refl => rfl
  | tail _ last inductionHypothesis =>
      cases last with
      | starts starts => exact (congrArg Keyboard.held starts.keyboard).trans inductionHypothesis
      | pushed => exact inductionHypothesis

namespace Operation

/-- The key event that the host pushes by an operation. -/
def pushed? : Operation → Option KeyEvent
  | pushKey event => some event
  | _ => none

def polls : Operation → Bool
  | pumpInput | step _ | frameAt _ => true
  | _ => false

/-- What an operation does to the keyboard, act by act. -/
def keyActs (operation : Operation) (keyboard : Keyboard) : List Keyboard.Act :=
  match operation with
  | pushKey event => [.push 0 event]
  | pumpInput | step _ | frameAt _ => .take :: keyboard.waiting.map .apply
  | _ => []

variable {operation : Operation} {keyboard : Keyboard}

theorem runs_keyActs (operation : Operation) (connected : keyboard.connected = true) :
    Keyboard.Intake.Runs ⟨keyboard, []⟩ (operation.keyActs keyboard)
      ⟨operation.keys keyboard, []⟩ := by
  cases operation with
  | pushKey event => exact .single .push
  | pumpInput | step | frameAt => exact Keyboard.Intake.runs_poll connected
  | _ => exact .nil

theorem pushed_keyActs :
    (operation.keyActs keyboard).filterMap Keyboard.Act.pushed? = operation.pushed?.toList := by
  have applied (events : List KeyEvent) :
      (events.map Keyboard.Act.apply).filterMap Keyboard.Act.pushed? = [] := by
    induction events with
    | nil => rfl
    | cons event rest inductionHypothesis => exact inductionHypothesis
  cases operation with
  | pumpInput | step | frameAt => exact applied keyboard.waiting
  | _ => rfl

theorem held_keys (still : operation.polls = false) :
    (operation.keys keyboard).held = keyboard.held := by
  cases operation <;> first | rfl | cases still

theorem keys_of_polls (polls : operation.polls = true) :
    operation.keys keyboard = keyboard.poll := by
  cases operation <;> first | rfl | cases polls

end Operation

namespace Session

variable {session after : Session} {operations : List Operation}

open Keyboard in
/-- What operations do to the keyboard is a run in which what they push is pushed. -/
theorem runs_through (connected : session.world.keyboard.connected = true)
    (reached : through operations session = some after) :
    ∃ acts, Intake.Runs ⟨session.world.keyboard, []⟩ acts ⟨after.world.keyboard, []⟩ ∧
      acts.filterMap Act.pushed? = operations.filterMap Operation.pushed? := by
  induction operations generalizing session with
  | nil =>
      cases reached
      exact ⟨[], .nil, rfl⟩
  | cons operation rest inductionHypothesis =>
      obtain ⟨middle, leads, reachedRest⟩ := Option.bind_eq_some_iff.mp reached
      have first := operation.runs_keyActs connected
      rw [← Leads.keyboard leads] at first
      obtain ⟨acts, runs, pushed⟩ :=
        inductionHypothesis (first.connected.trans connected) reachedRest
      refine ⟨_, first.append runs, ?_⟩
      rw [List.filterMap_append, Operation.pushed_keyActs, pushed, List.filterMap_cons]
      cases operation.pushed? <;> rfl

/-- An operation that polls leaves nothing waiting, whether or not its scripts fail. -/
theorem Leads.waiting_of_polls {operation : Operation} (leads : session.Leads operation after)
    (connected : session.world.keyboard.connected = true) (polls : operation.polls = true) :
    after.world.keyboard.waiting = [] := by
  rw [leads.keyboard, Operation.keys_of_polls polls, Keyboard.waiting_poll connected]

theorem held_through (still : ∀ operation ∈ operations, operation.polls = false)
    (reached : through operations session = some after) :
    after.world.keyboard.held = session.world.keyboard.held := by
  have kept (operation : Operation) (member : operation ∈ operations) (before next : Session)
      (leads : before.Leads operation next)
      (same : before.world.keyboard.held = session.world.keyboard.held) :
      next.world.keyboard.held = session.world.keyboard.held := by
    rw [Leads.keyboard leads, Operation.held_keys (still operation member), same]
  exact preserved_through kept rfl reached

end Session

theorem callBuiltin_isDown (key : String) (world : World) :
    callBuiltin .isDown [.text key] world =
      .returned (.bool (world.keyboard.isDown key)) world := rfl

open Keyboard in
/-- However pushes and polls are interleaved, the events applied and those still to be applied are
all that were pushed, in order, and the held keys are those last pressed; so how pushes are divided
among polls makes no difference in the end, and nothing changes between polls.  In a session every
operation that polls leaves nothing waiting, and whatever is pushed meanwhile, scripts are answered
from the keyboard that the last poll has left, which for the scripts of a frame is the poll that the
frame begins with. -/
theorem Session.keys_between_polls :
    (∀ acts last, Intake.Runs .initial acts last → Intake.Accounts acts last) ∧
      (∀ acts last others other, Intake.Runs .initial acts last →
        Intake.Runs .initial others other →
        acts.filterMap Act.pushed? = others.filterMap Act.pushed? →
        last.batch = [] ∧ last.keyboard.waiting = [] →
        other.batch = [] ∧ other.keyboard.waiting = [] →
        ∀ key, last.keyboard.isDown key = other.keyboard.isDown key) ∧
      (∀ first acts last, Intake.Runs first acts last → (∀ act ∈ acts, act.polls = false) →
        ∀ key answer, .ask key answer ∈ acts → answer = first.keyboard.isDown key) ∧
      (∀ settings operations session,
        through operations (start (World.initial settings true)) = some session →
        (∃ acts, Intake.Runs .initial acts ⟨session.world.keyboard, []⟩ ∧
          acts.filterMap Act.pushed? = operations.filterMap Operation.pushed?) ∧
        (∀ operation polled, operation.polls = true → session.Leads operation polled →
          polled.world.keyboard.waiting = []) ∧
        ∀ more later operation first running, through more session = some later →
          (∀ other ∈ more, other.polls = false) → later.Begins operation first →
          Relation.ReflTransGen Running.Meanwhile first running →
          ∀ key, callBuiltin .isDown [.text key] running.world =
            .returned (.bool ((if operation.polls then later.world.keyboard.poll
              else session.world.keyboard).isDown key)) running.world) := by
  refine ⟨fun acts last runs => runs.accounts, ?_, ?_, ?_⟩
  · intro acts last others other runs otherRuns same applied otherApplied key
    exact Intake.held_of_same_pushes runs otherRuns same applied otherApplied key
  · intro first acts last runs still
    exact (runs.between_polls still).2
  · intro settings operations session reached
    obtain ⟨acts, runs, pushed⟩ := runs_through rfl reached
    refine ⟨⟨acts, runs, pushed⟩,
      fun operation polled polls leads => leads.waiting_of_polls runs.connected polls, ?_⟩
    intro more later operation first running reachedLater still begins leads key
    have seen : running.world.keyboard.held = (operation.keys later.world.keyboard).held :=
      (Running.Meanwhile.held leads).trans (congrArg Keyboard.held begins.keyboard)
    rw [callBuiltin_isDown, isDown_congr seen]
    by_cases polls : operation.polls = true
    · rw [if_pos polls, Operation.keys_of_polls polls]
    · have quiet : operation.polls = false := by simpa using polls
      have kept := (Operation.held_keys quiet).trans (held_through still reachedLater)
      rw [if_neg polls, isDown_congr kept]

open Keyboard in
/-- A key that is pressed and released in one batch is not held, and what is pushed while the batch
is applied waits for the next poll. -/
theorem Session.keys_in_a_batch :
    (∃ last, Intake.Runs .initial
        [.push 0 (.down "left"), .push 1 (.up "left"), .take, .apply (.down "left"),
          .push 1 (.down "right"), .apply (.up "left")] last ∧
      last.keyboard.isDown "left" = false ∧ last.batch ++ last.keyboard.waiting = [.down "right"]) ∧
      ∃ session, through [.pushKey (.down "left"), .pumpInput]
          (start (World.initial .default true)) = some session ∧
        callBuiltin .isDown [.text "left"] session.world =
          .returned (.bool true) session.world := by
  obtain ⟨accounted, _, _, answered⟩ := keys_between_polls
  constructor
  · obtain ⟨last, runs⟩ : ∃ last, Intake.Runs .initial
        [.push 0 (.down "left"), .push 1 (.up "left"), .take, .apply (.down "left"),
          .push 1 (.down "right"), .apply (.up "left")] last :=
      ⟨_, .append (.single .push) (.append (.single .push) (.append (.single (.take rfl))
        (.append (.single .apply) (.append (.single .push) (.single .apply)))))⟩
    have accounts := accounted _ _ runs
    refine ⟨last, runs, ?_, ?_⟩
    · rw [Bool.eq_false_iff]
      intro held
      exact absurd ((accounts.held "left").mp held) (by decide)
    · have ordered := accounts.ordered
      simpa [List.filterMap_cons, Act.applied?, Act.pushed?] using ordered
  · obtain ⟨session, reached, held⟩ : ∃ session, through [.pushKey (.down "left"), .pumpInput]
        (start (World.initial .default true)) = some session ∧
          session.world.keyboard.isDown "left" = true := by
      apply Option.any_eq_true _ _ |>.mp
      decide +kernel
    have told := (answered .default _ session reached).2.2 [] session (.spawn "ball" []) _ _ rfl
      (List.forall_mem_nil _) (.scripts .spawn) .refl "left"
    refine ⟨session, reached, told.trans ?_⟩
    rw [if_neg (by decide), held]

end EntityScript
