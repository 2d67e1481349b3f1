import EntityScript.Proofs.Arity
import EntityScript.Proofs.Keeping
import Mathlib.Logic.Relation

/-!
What is run while something else runs.  Evaluation reaches the parts of an expression one after
the other, each in the world that the ones before it leave; a call reaches the body that it
leads to, one level deeper.  Where only accepted units are installed, all the code that is
reached is closed.
-/

namespace EntityScript

open Script

/-- What can be run: code in a frame, a call with its arguments, a construction or a broadcast. -/
inductive Task where
  | eval (frame : Frame) (expr : Expr)
  | evalAll (frame : Frame) (exprs : List Expr)
  | callBuiltin (builtin : Builtin) (arguments : List Value)
  | callGlobal (function : Global) (arguments : List Value)
  | exec (frame : Frame) (stmt : Stmt)
  | execAll (frame : Frame) (stmts : List Stmt)
  | execBranches (frame : Frame) (branches : List (Expr × List Stmt))
  /-- So many rounds of a loop at the most, the first of them with the counter as given. -/
  | countRounds (frame : Frame) (counter : String) (body : List Stmt) (bound : Float)
      (rounds : Nat) (count : Float)
  | runBody (frame : Frame) (stmts : List Stmt)
  | runInitializers (frame : Frame) (ref : EntityRef) (initializers : List Initializer)
  | construct (typeName : String) (arguments : List Value)
  | deliverAll (call : EntityCall) (targets : List EntityId)

/-- A task that is run in a world, with so many levels of call depth left. -/
structure Running where
  levels : Nat
  task : Task
  world : World

/-- Whether a value of the left operand leaves the right one to be evaluated. -/
def BinaryOp.needsRight : BinaryOp → Value → Bool
  | .and, left => left.holds
  | .or, left => !left.holds
  | _, _ => true

/-- Running the first starts the second. -/
inductive Running.Starts : Running → Running → Prop where
  -- Operands and arguments, and the calls that are made with their values
  | left {levels frame op left right span world} :
      Starts ⟨levels, .eval frame (.binary op left right span), world⟩
        ⟨levels, .eval frame left, world⟩
  | right {levels frame op left right span world value after} :
      eval (.ofLevels levels) frame left world = .returned value after →
      op.needsRight value = true →
      Starts ⟨levels, .eval frame (.binary op left right span), world⟩
        ⟨levels, .eval frame right, after⟩
  | operand {levels frame op operand span world} :
      Starts ⟨levels, .eval frame (.unary op operand span), world⟩
        ⟨levels, .eval frame operand, world⟩
  | field {levels frame object name span world} :
      Starts ⟨levels, .eval frame (.field object name span), world⟩
        ⟨levels, .eval frame object, world⟩
  | target {levels frame object name arguments span world} :
      Starts ⟨levels, .eval frame (.method object name arguments span), world⟩
        ⟨levels, .eval frame object, world⟩
  | methodArguments {levels frame object name arguments span world value after} :
      eval (.ofLevels levels) frame object world = .returned value after →
      Starts ⟨levels, .eval frame (.method object name arguments span), world⟩
        ⟨levels, .evalAll frame arguments, after⟩
  | spawnArguments {levels frame typeName arguments span world} :
      Starts ⟨levels, .eval frame (.spawn typeName arguments span), world⟩
        ⟨levels, .evalAll frame arguments, world⟩
  | spawn {levels frame typeName arguments span world values after} :
      evalAll (.ofLevels levels) frame arguments world = .returned values after →
      Starts ⟨levels, .eval frame (.spawn typeName arguments span), world⟩
        ⟨levels, .construct typeName values, after⟩
  | builtinArguments {levels frame builtin arguments span world} :
      Starts ⟨levels, .eval frame (.builtin builtin arguments span), world⟩
        ⟨levels, .evalAll frame arguments, world⟩
  | builtin {levels frame builtin arguments span world values after} :
      evalAll (.ofLevels levels) frame arguments world = .returned values after →
      Starts ⟨levels, .eval frame (.builtin builtin arguments span), world⟩
        ⟨levels, .callBuiltin builtin values, after⟩
  | globalArguments {levels frame function arguments span world} :
      Starts ⟨levels, .eval frame (.global function arguments span), world⟩
        ⟨levels, .evalAll frame arguments, world⟩
  | global {levels frame function arguments span world values after} :
      evalAll (.ofLevels levels) frame arguments world = .returned values after →
      Starts ⟨levels, .eval frame (.global function arguments span), world⟩
        ⟨levels, .callGlobal function values, after⟩
  | emit {levels arguments event world} :
      textArgument Global.emit.name arguments 0 = .ok event →
      Starts ⟨levels, .callGlobal .emit arguments, world⟩
        ⟨levels, .deliverAll (.handler event (arguments[1]?.getD .unset)) world.registry, world⟩
  | firstExpr {levels frame expr rest world} :
      Starts ⟨levels, .evalAll frame (expr :: rest), world⟩ ⟨levels, .eval frame expr, world⟩
  | otherExprs {levels frame expr rest world value after} :
      eval (.ofLevels levels) frame expr world = .returned value after →
      Starts ⟨levels, .evalAll frame (expr :: rest), world⟩ ⟨levels, .evalAll frame rest, after⟩
  -- Statements
  | defined {levels frame name value span world} :
      Starts ⟨levels, .exec frame (.define name value span), world⟩
        ⟨levels, .eval frame value, world⟩
  | assigned {levels frame target op value span world} :
      Starts ⟨levels, .exec frame (.assign target op value span), world⟩
        ⟨levels, .eval frame value, world⟩
  | expr {levels frame value world} :
      Starts ⟨levels, .exec frame (.expr value), world⟩ ⟨levels, .eval frame value, world⟩
  | branches {levels frame branches otherwise span world} :
      Starts ⟨levels, .exec frame (.choice branches otherwise span), world⟩
        ⟨levels, .execBranches frame branches, world⟩
  | otherwise {levels frame branches otherwise span world next after} :
      execBranches (.ofLevels levels) branches ⟨frame, world⟩ = .returned false ⟨next, after⟩ →
      Starts ⟨levels, .exec frame (.choice branches (some otherwise) span), world⟩
        ⟨levels, .execAll next.push otherwise, after⟩
  | start {levels frame counter start bound body span world} :
      Starts ⟨levels, .exec frame (.loop counter start bound body span), world⟩
        ⟨levels, .eval frame start, world⟩
  | bound {levels frame counter start bound body span world first count after} :
      eval (.ofLevels levels) frame start world = .returned first after →
      first.asNumber = .ok count →
      Starts ⟨levels, .exec frame (.loop counter start bound body span), world⟩
        ⟨levels, .eval frame bound, after⟩
  | rounds {levels frame counter start bound body span world first count after last limit
      reached} :
      eval (.ofLevels levels) frame start world = .returned first after →
      first.asNumber = .ok count →
      eval (.ofLevels levels) frame bound after = .returned last reached →
      last.asNumber = .ok limit →
      Starts ⟨levels, .exec frame (.loop counter start bound body span), world⟩
        ⟨levels, .countRounds frame counter body limit maxRounds count, reached⟩
  | round {levels frame counter body bound rounds count world} :
      count < bound →
      Starts ⟨levels, .countRounds frame counter body bound (rounds + 1) count, world⟩
        ⟨levels, .execAll (frame.push.define counter (.number count)).push body, world⟩
  | otherRounds {levels frame counter body bound rounds count world next after} :
      count < bound →
      withScope (do
        changeFrame (·.define counter (.number count))
        withScope (execAll (.ofLevels levels) body)) ⟨frame, world⟩ = .returned () ⟨next, after⟩ →
      Starts ⟨levels, .countRounds frame counter body bound (rounds + 1) count, world⟩
        ⟨levels, .countRounds next counter body bound rounds (count + 1), after⟩
  | firstStmt {levels frame stmt rest world} :
      Starts ⟨levels, .execAll frame (stmt :: rest), world⟩ ⟨levels, .exec frame stmt, world⟩
  | otherStmts {levels frame stmt rest world next after} :
      exec (.ofLevels levels) stmt ⟨frame, world⟩ = .returned () ⟨next, after⟩ →
      Starts ⟨levels, .execAll frame (stmt :: rest), world⟩ ⟨levels, .execAll next rest, after⟩
  | condition {levels frame condition body rest world} :
      Starts ⟨levels, .execBranches frame ((condition, body) :: rest), world⟩
        ⟨levels, .eval frame condition, world⟩
  | taken {levels frame condition body rest world value after} :
      eval (.ofLevels levels) frame condition world = .returned value after →
      value.holds = true →
      Starts ⟨levels, .execBranches frame ((condition, body) :: rest), world⟩
        ⟨levels, .execAll frame.push body, after⟩
  | otherBranches {levels frame condition body rest world value after} :
      eval (.ofLevels levels) frame condition world = .returned value after →
      value.holds = false →
      Starts ⟨levels, .execBranches frame ((condition, body) :: rest), world⟩
        ⟨levels, .execBranches frame rest, after⟩
  | body {levels frame stmts world} :
      Starts ⟨levels, .runBody frame stmts, world⟩ ⟨levels, .execAll frame.push stmts, world⟩
  -- Constructions and calls into entities, which run a level deeper
  | initializer {levels frame ref name expr rest world} :
      Starts ⟨levels, .runInitializers frame ref (⟨name, some expr⟩ :: rest), world⟩
        ⟨levels, .eval frame expr, world⟩
  | otherInitializers {levels frame ref initializer rest world after} :
      runInitializers (.ofLevels levels) frame ref [initializer] world = .returned () after →
      Starts ⟨levels, .runInitializers frame ref (initializer :: rest), world⟩
        ⟨levels, .runInitializers frame ref rest, after⟩
  | initializers {levels typeName arguments world type ref} :
      world.types.get? typeName = some type → arguments.length = type.arity →
      ref = ⟨world.entities.size, type.name⟩ →
      Starts ⟨levels + 1, .construct typeName arguments, world⟩
        ⟨levels, .runInitializers (.ofCall ref type.constructor.parameters arguments) ref
          type.initializers, (world.enter (.construction ref)).make type⟩
  | constructor {levels typeName arguments world type ref after} :
      world.types.get? typeName = some type → arguments.length = type.arity →
      ref = ⟨world.entities.size, type.name⟩ →
      runInitializers (.ofLevels levels) (.ofCall ref type.constructor.parameters arguments) ref
        type.initializers ((world.enter (.construction ref)).make type) = .returned () after →
      Starts ⟨levels + 1, .construct typeName arguments, world⟩
        ⟨levels, .runBody (.ofCall ref type.constructor.parameters arguments)
          type.constructor.body, after⟩
  | method {levels call id rest world entity method ref} :
      world.entity? id = some entity →
      (entity.destroyed && !call.reachesDestroyed) = false →
      call.method? entity.type = some method → ref = ⟨id, entity.type.name⟩ →
      Starts ⟨levels + 1, .deliverAll call (id :: rest), world⟩
        ⟨levels, .runBody (.ofCall ref method.parameters call.arguments) method.body,
          world.enter (.call ref call)⟩
  | otherTargets {levels call id rest world answered after} :
      deliver (Calls.inside levels) call id world = .returned answered after →
      Starts ⟨levels, .deliverAll call (id :: rest), world⟩
        ⟨levels, .deliverAll call rest, after⟩

/-- What an operation that runs scripts starts with in a world. -/
inductive Operation.Begins (world : World) : Operation → Running → Prop where
  | runMain {entry} : world.main = some entry →
      Begins world .runMain
        ⟨maxCallDepth - world.depth, .runBody (.of none) entry.body, world⟩
  | spawn {typeName arguments} :
      Begins world (.spawn typeName arguments)
        ⟨maxCallDepth - world.depth, .construct typeName arguments, world⟩
  | emit {event payload} :
      Begins world (.emit event payload)
        ⟨maxCallDepth - world.depth, .deliverAll (.handler event payload) world.registry, world⟩
  | tickPhase {delta cleared} : cleared = (world.note (.began .tick)).removeDestroyed →
      Begins world (.tickPhase delta)
        ⟨maxCallDepth - cleared.depth, .deliverAll (.tick delta) cleared.registry, cleared⟩
  | renderPhase {noted} : noted = world.note (.began .render) →
      Begins world .renderPhase
        ⟨maxCallDepth - noted.depth, .deliverAll .render noted.registry, noted⟩

/-- What an operation of a session starts scripts with.  A frame ticks with the waiting key events
applied, and then renders. -/
inductive Session.Begins : Session → Operation → Running → Prop where
  | scripts {session operation running} :
      operation.Begins session.world running → Begins session operation running
  | ticks {session elapsed running} :
      (Operation.tickPhase (session.world.settings.clampDelta elapsed)).Begins
        session.world.pumpInput running →
      Begins session (.step elapsed) running
  | renders {session elapsed ticked running} :
      World.tickPhase (session.world.settings.clampDelta elapsed) session.world.pumpInput =
        .returned () ticked →
      Operation.Begins ticked .renderPhase running →
      Begins session (.step elapsed) running
  | frame {session now elapsed running} :
      frameAt now session = step elapsed { session with lastStart := some now } →
      Begins { session with lastStart := some now } (.step elapsed) running →
      Begins session (.frameAt now) running

/-! ### Closed code -/

/-- Code is to be closed. -/
def Stock.closed : Stock :=
  ⟨fun body => everyStmt Expr.closed body = true, fun type => type.every Expr.closed = true⟩

theorem Program.stocked_of_accepted {name text : String} {program : Program}
    (accepted : Program.ofText name text = .ok program) : program.Stocked .closed := by
  have closed := closed_of_ofText accepted
  simp only [Program.every, Bool.and_eq_true, Option.all_eq_true, List.all_eq_true] at closed
  exact ⟨closed.1, closed.2⟩

/-- Whatever the operation installs was accepted. -/
def Operation.Accepted : Operation → Prop
  | .install program => ∃ name text, Program.ofText name text = .ok program
  | _ => True

theorem Operation.Accepted.stocked {operation : Operation} (accepted : operation.Accepted) :
    operation.Stocked .closed := by
  cases operation with
  | install program =>
      obtain ⟨name, text, accepted⟩ := accepted
      exact Program.stocked_of_accepted accepted
  | load unit => exact fun program => Program.stocked_of_accepted
  | loadAll items => exact fun unit _ program => Program.stocked_of_accepted
  | _ => trivial

def Task.closed : Task → Bool
  | eval _ expr => expr.closed
  | evalAll _ exprs => allClosed exprs
  | callBuiltin builtin arguments => builtin.admits arguments.length
  | callGlobal function arguments => function.admits arguments.length
  | exec _ stmt => stmt.every Expr.closed
  | execAll _ stmts | runBody _ stmts | countRounds _ _ stmts _ _ _ => everyStmt Expr.closed stmts
  | execBranches _ branches => everyBranch Expr.closed branches
  | runInitializers _ _ initializers => initializers.all (·.every Expr.closed)
  | construct .. | deliverAll .. => true

/-- What is run is closed, and so is all the code that it may lead to. -/
structure Running.Closed (running : Running) : Prop where
  task : running.task.closed = true
  world : running.world.Stocked .closed

/-- What returns leaves no other code behind than it found. -/
theorem Composition.stocked {σ α : Type} {view : σ → World} {script : Calls → Script σ α}
    (composition : Composition true view script) {stock : Stock} {levels : Nat}
    {state after : σ} {value : α}
    (ran : script (.ofLevels levels) state = .returned value after)
    (stocked : (view state).Stocked stock) :
    (view after).Stocked stock :=
  (composition.keeps (ofLevels_keep stock.permits levels) World.Stocked.slight).after stocked
    (by rw [ran]; rfl)

theorem length_of_evalAll {calls : Calls} {frame : Frame} {exprs : List Expr} {world after : World}
    {values : List Value} (ran : evalAll calls frame exprs world = .returned values after) :
    values.length = exprs.length := by
  induction exprs generalizing world values with
  | nil =>
      cases ran
      rfl
  | cons expr rest inductionHypothesis =>
      rw [evalAll] at ran
      obtain ⟨value, middle, _, more⟩ := returned_bind ran
      obtain ⟨others, last, ranRest, done⟩ := returned_bind more
      cases done
      rw [List.length_cons, List.length_cons, inductionHypothesis ranRest]

theorem EntityType.closed_method {type : EntityType} {call : EntityCall} {method : Method}
    (closed : type.every Expr.closed = true) (found : call.method? type = some method) :
    method.every Expr.closed = true := by
  simp only [every, Bool.and_eq_true] at closed
  exact all_method closed.1.1.2 closed.1.2 closed.2 found

section Stocked

variable {stock : Stock} {levels : Nat} {frame : Frame} {world after : World}
  (stocked : world.Stocked stock)

include stocked

theorem eval_stocked {expr : Expr} {value : Value}
    (ran : eval (.ofLevels levels) frame expr world = .returned value after) :
    after.Stocked stock :=
  (Composition.evaluate expr).stocked (evaluate_of_eval ran) stocked

theorem evalAll_stocked {exprs : List Expr} {values : List Value}
    (ran : evalAll (.ofLevels levels) frame exprs world = .returned values after) :
    after.Stocked stock :=
  (Composition.evaluateAll exprs).stocked (evaluateAll_of_evalAll ran) stocked

theorem exec_stocked {stmt : Stmt} {next : Frame}
    (ran : exec (.ofLevels levels) stmt ⟨frame, world⟩ = .returned () ⟨next, after⟩) :
    after.Stocked stock :=
  (Composition.exec stmt (.inl rfl)).stocked ran stocked

theorem execBranches_stocked {branches : List (Expr × List Stmt)} {taken : Bool} {next : Frame}
    (ran : execBranches (.ofLevels levels) branches ⟨frame, world⟩ =
      .returned taken ⟨next, after⟩) : after.Stocked stock :=
  (Composition.execBranches branches (.inl rfl)).stocked ran stocked

theorem runInitializers_stocked {ref : EntityRef} {initializers : List Initializer}
    (ran : runInitializers (.ofLevels levels) frame ref initializers world = .returned () after) :
    after.Stocked stock :=
  (Composition.declareProperties ref initializers).stocked
    (declareProperties_of_runInitializers ran) stocked

end Stocked

/-- What closed code starts is closed, and the code that there is stays closed. -/
theorem Running.Starts.closed {first second : Running} (starts : first.Starts second)
    (closed : first.Closed) : second.Closed := by
  obtain ⟨task, stocked⟩ := closed
  cases starts
  case branches otherwise _ _ =>
    cases otherwise with
    | none => exact ⟨task, stocked⟩
    | some otherwise => exact ⟨(Bool.and_eq_true_iff.mp task).1, stocked⟩
  all_goals
    simp only [Task.closed, Expr.closed, allClosed, Stmt.every, everyStmt, everyBranch,
      Bool.and_eq_true, List.all_cons] at task stocked
  case left => exact ⟨task.1, stocked⟩
  case right ran _ => exact ⟨task.2, eval_stocked stocked ran⟩
  case operand | field => exact ⟨task, stocked⟩
  case target => exact ⟨task.1, stocked⟩
  case methodArguments ran => exact ⟨task.2, eval_stocked stocked ran⟩
  case spawnArguments => exact ⟨task, stocked⟩
  case spawn ran => exact ⟨rfl, evalAll_stocked stocked ran⟩
  case builtinArguments | globalArguments => exact ⟨task.2, stocked⟩
  case builtin ran | global ran =>
    refine ⟨?_, evalAll_stocked stocked ran⟩
    rw [Task.closed, length_of_evalAll ran]
    exact task.1
  case emit => exact ⟨rfl, stocked⟩
  case firstExpr => exact ⟨task.1, stocked⟩
  case otherExprs ran => exact ⟨task.2, eval_stocked stocked ran⟩
  case defined | assigned | expr => exact ⟨task, stocked⟩
  case otherwise ran => exact ⟨task.2, execBranches_stocked stocked ran⟩
  case start => exact ⟨task.1.1, stocked⟩
  case bound ran _ => exact ⟨task.1.2, eval_stocked stocked ran⟩
  case rounds first _ last _ => exact ⟨task.2, eval_stocked (eval_stocked stocked first) last⟩
  case round => exact ⟨task, stocked⟩
  case otherRounds counter body _ _ count _ _ _ _ ran =>
    have loops : Composition true Activation.world (fun calls => withScope do
        changeFrame (·.define counter (.number count))
        withScope (execAll calls body)) :=
      .inScope (.bind (.simple (simple_changeFrame _)) fun _ =>
        .inScope (.execAll body (.inl rfl)))
    exact ⟨task, loops.stocked ran stocked⟩
  case firstStmt => exact ⟨task.1, stocked⟩
  case otherStmts ran => exact ⟨task.2, exec_stocked stocked ran⟩
  case condition => exact ⟨task.1.1, stocked⟩
  case taken ran _ => exact ⟨task.1.2, eval_stocked stocked ran⟩
  case otherBranches ran _ => exact ⟨task.2, eval_stocked stocked ran⟩
  case body => exact ⟨task, stocked⟩
  case initializer => exact ⟨task.1, stocked⟩
  case otherInitializers ran => exact ⟨task.2, runInitializers_stocked stocked ran⟩
  case initializers type ref found _ _ =>
    have fits : type.every Expr.closed = true := stocked.types found
    have entered : (World.enter _ (.construction ref)).Stocked .closed :=
      stocked.congr rfl rfl rfl
    simp only [EntityType.every, Bool.and_eq_true] at fits
    exact ⟨fits.1.1.1.1, entered.make (stocked.types found)⟩
  case constructor type ref _ found _ _ ran =>
    have fits : type.every Expr.closed = true := stocked.types found
    have entered : (World.enter _ (.construction ref)).Stocked .closed :=
      stocked.congr rfl rfl rfl
    simp only [EntityType.every, Bool.and_eq_true] at fits
    exact ⟨fits.1.1.1.2,
      runInitializers_stocked (entered.make (stocked.types found)) ran⟩
  case method entity method ref found _ answered _ =>
    have known := congrArg (·.map Entity.type) found
    exact ⟨EntityType.closed_method (stocked.entities known) answered, stocked.congr rfl rfl rfl⟩
  case otherTargets ran =>
    refine ⟨rfl, ?_⟩
    exact (deliver_keeps Stock.closed.permits (inside_keep Stock.closed.permits _) _ _).after
      stocked (by rw [ran]; rfl)

/-! ### Accepted units -/

theorem Operation.Begins.closed {world : World} {operation : Operation} {running : Running}
    (begins : operation.Begins world running) (stocked : world.Stocked .closed) :
    running.Closed := by
  cases begins with
  | runMain found => exact ⟨stocked.main found, stocked⟩
  | spawn | emit => exact ⟨rfl, stocked⟩
  | tickPhase cleared =>
      have noted : (world.note (.began .tick)).Stocked .closed := stocked.congr rfl rfl rfl
      exact ⟨rfl, cleared ▸ noted.removeDestroyed⟩
  | renderPhase noted => exact ⟨rfl, noted ▸ stocked.congr rfl rfl rfl⟩

/-- A unit that prints a color. -/
def chalk : SourceUnit := ⟨"chalk", "main ->\n print(Color::fromHex('#fff'))\nend\n"⟩

/-- A session whose main body prints the color of such a text. -/
def Session.printsColor (text : String) (session : Session) : Bool :=
  match session.world.main with
  | some ⟨_, [.expr (.global .print [.builtin .colorFromHex [.text content _] _] _)]⟩ =>
      content = text
  | _ => false

end EntityScript
