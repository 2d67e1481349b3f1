import EntityScript.Program.Resolution
import EntityScript.Proofs.Accounts
import EntityScript.Proofs.BlockTrees
import EntityScript.Proofs.Printing

/-!
Closed code: every reference in it is resolved, and what is referred to takes as many arguments
as it is given.  A unit is accepted only as closed code.
-/

namespace EntityScript

/-! ### All expressions of some code -/

section Every

variable (P : Expr → Bool)

mutual

/-- Whether every expression of the statement meets a demand, on whole expressions. -/
def Stmt.every : Stmt → Bool
  | .define _ value _ | .assign _ _ value _ | .expr value => P value
  | .choice branches none _ => everyBranch branches
  | .choice branches (some otherwise) _ => everyBranch branches && everyStmt otherwise
  | .loop _ start bound body _ => P start && P bound && everyStmt body

def everyStmt : List Stmt → Bool
  | [] => true
  | stmt :: rest => stmt.every && everyStmt rest

def everyBranch : List (Expr × List Stmt) → Bool
  | [] => true
  | (condition, body) :: rest => P condition && everyStmt body && everyBranch rest

end

def Method.every (method : Method) : Bool := everyStmt P method.body

def Initializer.every (initializer : Initializer) : Bool := initializer.value.all P

def EntityType.every (type : EntityType) : Bool :=
  type.initializers.all (·.every P) && type.constructor.every P && type.tick.all (·.every P) &&
    type.render.all (·.every P) && type.handlers.entries.all (·.2.every P)

def Program.every (program : Program) : Bool :=
  program.main.all (everyStmt P) && program.types.all (·.every P)

end Every

/-! ### Closed expressions -/

/-- Whether the member is given as many arguments as it takes. -/
def Builtin.admits (builtin : Builtin) (count : Nat) : Bool :=
  match builtin.shape with
  | .property => count = 0
  | .function least most => least ≤ count && count ≤ most

def Global.admits (function : Global) (count : Nat) : Bool :=
  function.entry.least ≤ count && count ≤ function.entry.most

mutual

def Expr.closed : Expr → Bool
  | .number .. | .text .. | .bool .. | .unset _ | .this _ | .ident .. => true
  | .binary _ left right _ => left.closed && right.closed
  | .unary _ operand _ => operand.closed
  | .field object _ _ => object.closed
  | .method object _ arguments _ => object.closed && allClosed arguments
  | .spawn _ arguments _ => allClosed arguments
  | .call .. | .member .. => false
  | .builtin found arguments _ => found.admits arguments.length && allClosed arguments
  | .global function arguments _ => function.admits arguments.length && allClosed arguments

def allClosed : List Expr → Bool
  | [] => true
  | expr :: rest => expr.closed && allClosed rest

end

/-! ### Resolution closes -/

theorem Global.admits_of_resolve {name : String} {count : Nat} {span : Source.Span}
    {function : Global} (resolved : Global.resolve name count span = .ok function) :
    function.admits count = true := by
  unfold resolve at resolved
  split at resolved
  · cases resolved
  · dsimp only at resolved
    split at resolved
    · cases resolved
    · cases resolved
      simp only [admits, Bool.and_eq_true, decide_eq_true_eq]
      omega

theorem Builtin.admits_of_resolve {library name : String} {count : Option Nat}
    {span : Source.Span} {builtin : Builtin}
    (resolved : Builtin.resolve library name count span = .ok builtin) :
    builtin.admits (count.getD 0) = true := by
  unfold resolve at resolved
  split at resolved
  · cases resolved
  · rename_i builtin' _
    dsimp only at resolved
    split at resolved
    next shape => cases resolved; simp [admits, shape]
    next => cases resolved
    next => cases resolved
    next shape =>
      split at resolved
      · cases resolved
      · cases resolved
        simp only [admits, shape, Option.getD_some, Bool.and_eq_true, decide_eq_true_eq]
        omega

namespace Expr

mutual

theorem closed_of_resolve (expr : Expr) {resolved : Expr} (named : expr.unresolved = true)
    (resolves : expr.resolve = .ok resolved) : resolved.closed = true := by
  cases expr with
  | number | text | bool | unset | this | ident =>
      cases resolves
      rfl
  | binary op left right span =>
      simp only [resolve, bind_eq_ok, pure_eq_ok] at resolves
      obtain ⟨left', first, right', second, rfl⟩ := resolves
      rw [Expr.unresolved, Bool.and_eq_true] at named
      rw [closed, closed_of_resolve left named.1 first, closed_of_resolve right named.2 second]
      rfl
  | unary op operand span =>
      simp only [resolve, bind_eq_ok, pure_eq_ok] at resolves
      obtain ⟨operand', inner, rfl⟩ := resolves
      rw [Expr.unresolved] at named
      rw [closed]
      exact closed_of_resolve operand named inner
  | field object name span =>
      simp only [resolve, bind_eq_ok, pure_eq_ok] at resolves
      obtain ⟨object', inner, rfl⟩ := resolves
      rw [Expr.unresolved] at named
      rw [closed]
      exact closed_of_resolve object named inner
  | method object name arguments span =>
      simp only [resolve, bind_eq_ok, pure_eq_ok] at resolves
      obtain ⟨object', inner, arguments', all, rfl⟩ := resolves
      rw [Expr.unresolved, Bool.and_eq_true] at named
      rw [closed, closed_of_resolve object named.1 inner,
        (closed_of_resolveAll arguments named.2 all).1]
      rfl
  | spawn type arguments span =>
      simp only [resolve, bind_eq_ok, pure_eq_ok] at resolves
      obtain ⟨arguments', all, rfl⟩ := resolves
      rw [Expr.unresolved] at named
      rw [closed]
      exact (closed_of_resolveAll arguments named all).1
  | call name arguments span =>
      simp only [resolve, bind_eq_ok, pure_eq_ok] at resolves
      obtain ⟨function, found, arguments', all, rfl⟩ := resolves
      rw [Expr.unresolved] at named
      obtain ⟨closedAll, same⟩ := closed_of_resolveAll arguments named all
      rw [closed, closedAll, same, Global.admits_of_resolve found]
      rfl
  | member library name arguments span =>
      cases arguments with
      | none =>
          simp only [resolve, bind_eq_ok, pure_eq_ok] at resolves
          obtain ⟨builtin, found, rfl⟩ := resolves
          have admitted : builtin.admits 0 = true := Builtin.admits_of_resolve found
          rw [closed, List.length_nil, admitted]
          rfl
      | some arguments =>
          simp only [resolve, bind_eq_ok, pure_eq_ok] at resolves
          obtain ⟨builtin, found, arguments', all, rfl⟩ := resolves
          rw [Expr.unresolved] at named
          obtain ⟨closedAll, same⟩ := closed_of_resolveAll arguments named all
          have admitted : builtin.admits arguments.length = true :=
            Builtin.admits_of_resolve found
          rw [closed, closedAll, same, admitted]
          rfl
  | builtin | global => cases named

theorem closed_of_resolveAll (arguments : List Expr) {resolved : List Expr}
    (named : allUnresolved arguments = true) (resolves : resolveAll arguments = .ok resolved) :
    allClosed resolved = true ∧ resolved.length = arguments.length := by
  cases arguments with
  | nil =>
      cases resolves
      exact ⟨rfl, rfl⟩
  | cons expr rest =>
      simp only [resolveAll, bind_eq_ok, pure_eq_ok] at resolves
      obtain ⟨expr', one, rest', others, rfl⟩ := resolves
      rw [allUnresolved, Bool.and_eq_true] at named
      obtain ⟨closedRest, same⟩ := closed_of_resolveAll rest named.2 others
      rw [allClosed, closed_of_resolve expr named.1 one, closedRest, List.length_cons, same]
      exact ⟨rfl, rfl⟩

end

end Expr

/-! ### Resolved programs -/

section Resolution

variable {P Q : Expr → Bool} {fails : Diagnostic → Prop}

/-- What is made of items that meet a demand meets another one. -/
theorem meets_mapM {α β : Type} {good : α → Prop} {Q : β → Bool} {change : α → Reading β}
    (changes : ∀ item, good item → Meets fails (Q · = true) (change item)) {items : List α}
    (all : ∀ item ∈ items, good item) : Meets fails (·.all Q = true) (items.mapM change) := by
  induction items with
  | nil => exact rfl
  | cons item rest inductionHypothesis =>
      obtain ⟨here, others⟩ := List.forall_mem_cons.mp all
      rw [List.mapM_cons]
      refine (changes item here).bind fun changed one => ?_
      refine (inductionHypothesis others).bind fun others last => ?_
      change (changed :: others).all Q = true
      rw [List.all_cons, one, last]
      rfl

/-- Expressions that meet a demand meet another one when they are resolved. -/
abbrev ResolvesTo (fails : Diagnostic → Prop) (P Q : Expr → Bool) : Prop :=
  ∀ expr, P expr = true → Meets fails (Q · = true) expr.resolve

mutual

/-- Resolution goes through all expressions of a statement, and so what it does to expressions
decides what it does to statements. -/
theorem Stmt.meets_resolve (exprs : ResolvesTo fails P Q) (stmt : Stmt)
    (all : stmt.every P = true) :
    Meets fails (·.every Q = true) stmt.resolve := by
  cases stmt with
  | define name value span | assign target op value span | expr value =>
      rw [resolve]
      exact (exprs value all).bind fun _ inner => inner
  | choice branches otherwise span =>
      cases otherwise with
      | none =>
          rw [resolve]
          exact (meets_resolveBranches exprs branches all).bind fun _ inner => inner
      | some otherwise =>
          rw [Stmt.every, Bool.and_eq_true] at all
          rw [resolve]
          refine (meets_resolveBranches exprs branches all.1).bind fun branches' inner => ?_
          refine (meets_resolveAll exprs otherwise all.2).bind fun otherwise' last => ?_
          change Stmt.every Q (.choice branches' (some otherwise') span) = true
          rw [Stmt.every, inner, last]
          rfl
  | loop counter start bound body span =>
      rw [Stmt.every, Bool.and_eq_true, Bool.and_eq_true] at all
      rw [resolve]
      refine (exprs start all.1.1).bind fun start' first => ?_
      refine (exprs bound all.1.2).bind fun bound' second => ?_
      refine (meets_resolveAll exprs body all.2).bind fun body' inner => ?_
      change Stmt.every Q (.loop counter start' bound' body' span) = true
      rw [Stmt.every, first, second, inner]
      rfl

theorem Stmt.meets_resolveAll (exprs : ResolvesTo fails P Q) (stmts : List Stmt)
    (all : everyStmt P stmts = true) :
    Meets fails (everyStmt Q · = true) (Stmt.resolveAll stmts) := by
  cases stmts with
  | nil => exact rfl
  | cons stmt rest =>
      rw [everyStmt, Bool.and_eq_true] at all
      rw [resolveAll]
      refine (stmt.meets_resolve exprs all.1).bind fun stmt' one => ?_
      refine (meets_resolveAll exprs rest all.2).bind fun rest' others => ?_
      change everyStmt Q (stmt' :: rest') = true
      rw [everyStmt, one, others]
      rfl

theorem Stmt.meets_resolveBranches (exprs : ResolvesTo fails P Q)
    (branches : List (Expr × List Stmt)) (all : everyBranch P branches = true) :
    Meets fails (everyBranch Q · = true) (Stmt.resolveBranches branches) := by
  match branches with
  | [] => exact rfl
  | (condition, body) :: rest =>
      rw [everyBranch, Bool.and_eq_true, Bool.and_eq_true] at all
      rw [resolveBranches]
      refine (exprs condition all.1.1).bind fun condition' first => ?_
      refine (meets_resolveAll exprs body all.1.2).bind fun body' inner => ?_
      refine (meets_resolveBranches exprs rest all.2).bind fun rest' others => ?_
      change everyBranch Q ((condition', body') :: rest') = true
      rw [everyBranch, first, inner, others]
      rfl

end

namespace Method

theorem meets_resolve (exprs : ResolvesTo fails P Q) (method : Method)
    (all : method.every P = true) :
    Meets fails (·.every Q = true) method.resolve :=
  (Stmt.meets_resolveAll exprs method.body all).bind fun _ inner => inner

theorem meets_resolve? (exprs : ResolvesTo fails P Q) (method : Option Method)
    (all : method.all (·.every P) = true) :
    Meets fails (·.all (·.every Q) = true) (resolve? method) := by
  cases method with
  | none => exact rfl
  | some method => exact (meets_resolve exprs method all).map fun _ inner => inner

theorem meets_resolveEntries (exprs : ResolvesTo fails P Q) (entries : List (String × Method))
    (all : entries.all (·.2.every P) = true) :
    Meets fails (·.all (·.2.every Q) = true) (resolveEntries entries) := by
  induction entries with
  | nil => exact rfl
  | cons entry rest inductionHypothesis =>
      rw [List.all_cons, Bool.and_eq_true] at all
      rw [resolveEntries]
      refine (meets_resolve exprs entry.2 all.1).bind fun method one => ?_
      refine (inductionHypothesis all.2).bind fun others last => ?_
      change List.all ((entry.1, method) :: others) _ = true
      rw [List.all_cons, one, last]
      rfl

end Method

theorem Initializer.meets_resolve (exprs : ResolvesTo fails P Q) (initializer : Initializer)
    (all : initializer.every P = true) :
    Meets fails (·.every Q = true) initializer.resolve := by
  obtain ⟨name, value⟩ := initializer
  cases value with
  | none => exact rfl
  | some value => exact (exprs value all).bind fun _ inner => inner

theorem EntityType.meets_resolve (exprs : ResolvesTo fails P Q) (type : EntityType)
    (all : type.every P = true) :
    Meets fails (·.every Q = true) type.resolve := by
  simp only [EntityType.every, Bool.and_eq_true] at all
  obtain ⟨⟨⟨⟨initializer, construction⟩, ticks⟩, renders⟩, handled⟩ := all
  rw [resolve]
  refine (meets_mapM (Initializer.meets_resolve exprs) (List.all_eq_true.mp initializer)).bind
    fun initializers first => ?_
  refine (Method.meets_resolve exprs _ construction).bind fun constructor second => ?_
  refine (Method.meets_resolve? exprs _ ticks).bind fun tick third => ?_
  refine (Method.meets_resolve? exprs _ renders).bind fun render fourth => ?_
  refine (Method.meets_resolveEntries exprs _ handled).bind fun handlers fifth => ?_
  simp only [Meets, pure, Except.pure, EntityType.every, Bool.and_eq_true]
  exact ⟨⟨⟨⟨first, second⟩, third⟩, fourth⟩, fifth⟩

theorem Program.meets_resolve (exprs : ResolvesTo fails P Q) (program : Program)
    (all : program.every P = true) :
    Meets fails (·.every Q = true) program.resolve := by
  rw [Program.every, Bool.and_eq_true] at all
  obtain ⟨name, main, types⟩ := program
  cases main with
  | none =>
      refine (meets_mapM (EntityType.meets_resolve exprs) (List.all_eq_true.mp all.2)).bind
        fun types' second => ?_
      simp only [Meets, pure, Except.pure, Program.every, second]
      rfl
  | some body =>
      rw [resolve]
      have resolved : Meets fails (·.all (everyStmt Q) = true) (some <$> Stmt.resolveAll body) :=
        (Stmt.meets_resolveAll exprs body all.1).map fun _ inner => inner
      refine resolved.bind fun main' first => ?_
      refine (meets_mapM (EntityType.meets_resolve exprs) (List.all_eq_true.mp all.2)).bind
        fun types' second => ?_
      simp only [Meets, pure, Except.pure, Program.every, second, first]
      rfl

end Resolution

/-! ### Lowered programs -/

section Lowering

variable {P : Expr → Bool} {fails : Diagnostic → Prop}

/-- What is read of the payload meets a demand. -/
structure Payload.Lowers (fails : Diagnostic → Prop) (P : Expr → Bool) (payload : Payload) :
    Prop where
  expr : Meets fails (P · = true) payload.toExpr
  stmt : Meets fails (·.every P = true) payload.toStmt

/-- Where one of the nodes belongs at the top level, it is as it should be that this is a
problem. -/
def Tolerates (fails : Diagnostic → Prop) (nodes : List NodeKind) : Prop :=
  ∀ node ∈ nodes, node.isTop = true → ∀ span, fails ⟨.structural .topLevelInside, span⟩

theorem tolerates_cons {node : NodeKind} {nodes : List NodeKind} :
    Tolerates fails (node :: nodes) ↔
      (node.isTop = true → ∀ span, fails ⟨.structural .topLevelInside, span⟩) ∧
        Tolerates fails nodes :=
  List.forall_mem_cons

theorem tolerates_append {nodes others : List NodeKind} :
    Tolerates fails (nodes ++ others) ↔ Tolerates fails nodes ∧ Tolerates fails others :=
  List.forall_mem_append

theorem Inside.tolerates {nodes : List NodeKind} (inside : Inside nodes) :
    Tolerates fails nodes := by
  intro node among top
  rw [inside node among] at top
  cases top

/-- The payloads of the body are read as they should be, and it holds what it may. -/
structure BodyLowers (fails : Diagnostic → Prop) (P : Expr → Bool) (body : List Block) : Prop where
  payloads : SlotsHold (Payload.Lowers fails P) (bodySlots body)
  tolerates : Tolerates fails (bodyNodes body)

namespace Block

mutual

/-- Lowering goes through all payloads of a block, and so what is read of payloads decides what is
read of blocks. -/
theorem meets_toStmt (block : Block) (lower : SlotsHold (Payload.Lowers fails P) block.slots)
    (tolerates : Tolerates fails (block.node :: block.inner)) :
    Meets fails (·.every P = true) block.toStmt := by
  obtain ⟨misplaced, tolerates⟩ := tolerates_cons.mp tolerates
  cases block with
  | main body span => exact misplaced rfl span
  | entity definition => exact misplaced rfl definition.span
  | statement payload => exact (slotsHold_cons.mp lower).1.stmt
  | choice branches otherwise span =>
      rw [Block.slots, slotsHold_append, slotsHold_append] at lower
      obtain ⟨⟨guarded, last⟩, _⟩ := lower
      rw [inner, tolerates_append] at tolerates
      cases otherwise with
      | none =>
          rw [toStmt]
          exact (meets_toBranches branches guarded tolerates.1).bind fun _ inner => inner
      | some otherwise =>
          rw [otherwiseSlots, slotsHold_cons] at last
          rw [toStmt]
          refine (meets_toBranches branches guarded tolerates.1).bind fun branches' inner => ?_
          refine (meets_toStmts otherwise ⟨last.2, tolerates.2⟩).bind fun otherwise' last => ?_
          change Stmt.every P (.choice branches' (some otherwise') span) = true
          rw [Stmt.every, inner, last]
          rfl
  | loop counter start bound body span =>
      simp only [Block.slots, slotsHold_append, slotsHold_cons] at lower
      obtain ⟨⟨_, _, _, lower, _, upper, _, inside⟩, _⟩ := lower
      rw [toStmt]
      refine lower.expr.bind fun start' first => ?_
      refine upper.expr.bind fun bound' second => ?_
      refine (meets_toStmts body ⟨inside, tolerates⟩).bind fun body' inner => ?_
      change Stmt.every P (.loop counter start' bound' body' span) = true
      rw [Stmt.every, first, second, inner]
      rfl

theorem meets_toStmts (blocks : List Block) (lower : BodyLowers fails P blocks) :
    Meets fails (everyStmt P · = true) (toStmts blocks) := by
  cases blocks with
  | nil => exact rfl
  | cons block rest =>
      obtain ⟨lower, tolerates⟩ := lower
      rw [bodySlots, slotsHold_append, slotsHold_cons] at lower
      obtain ⟨here, further⟩ := tolerates_append.mp tolerates
      rw [toStmts]
      refine (meets_toStmt block lower.1.2 here).bind fun stmt one => ?_
      refine (meets_toStmts rest ⟨lower.2, further⟩).bind fun stmts others => ?_
      change everyStmt P (stmt :: stmts) = true
      rw [everyStmt, one, others]
      rfl

theorem meets_toBranches {lead : List Slot} (branches : List (Payload × List Block))
    (lower : SlotsHold (Payload.Lowers fails P) (branchSlots lead branches))
    (tolerates : Tolerates fails (branchNodes branches)) :
    Meets fails (everyBranch P · = true) (toBranches branches) := by
  match branches with
  | [] => exact rfl
  | (condition, body) :: rest =>
      obtain ⟨_, guard, inside, further⟩ := slotsHold_branch.mp lower
      obtain ⟨here, tolerates⟩ := tolerates_append.mp tolerates
      rw [toBranches]
      refine guard.expr.bind fun condition' first => ?_
      refine (meets_toStmts body ⟨inside, here⟩).bind fun body' inner => ?_
      refine (meets_toBranches rest further tolerates).bind fun rest' others => ?_
      change everyBranch P ((condition', body') :: rest') = true
      rw [everyBranch, first, inner, others]
      rfl

end

end Block

theorem Procedure.meets_toMethod (procedure : Procedure)
    (lower : BodyLowers fails P procedure.body) :
    Meets fails (·.every P = true) procedure.toMethod :=
  (Block.meets_toStmts procedure.body lower).bind fun _ inner => inner

theorem Procedure.meets_toMethod? (procedure : Option Procedure)
    (lower : ∀ found ∈ procedure, BodyLowers fails P found.body) :
    Meets fails (·.all (·.every P) = true) (toMethod? procedure) := by
  cases procedure with
  | none => exact rfl
  | some procedure =>
      exact (procedure.meets_toMethod (lower procedure rfl)).map fun _ inner => inner

theorem Property.meets_toInitializer (property : Property)
    (lower : ∀ payload ∈ property.initializer, payload.Lowers fails P) :
    Meets fails (·.every P = true) property.toInitializer := by
  unfold toInitializer
  split
  next => exact rfl
  next payload found => exact (lower payload found).expr.bind fun _ inner => inner

theorem Bindings.all_insertEntry {α : Type} {P : α → Bool} {name : String} {value : α}
    {entries : List (String × α)} (fits : P value = true) (all : entries.all (P ·.2) = true) :
    (insertEntry name value entries).all (P ·.2) = true := by
  induction entries with
  | nil => simp [insertEntry, fits]
  | cons entry rest inductionHypothesis =>
      rw [List.all_cons, Bool.and_eq_true] at all
      rw [insertEntry]
      split
      · rw [List.all_cons, fits, all.2]
        rfl
      · rw [List.all_cons, all.1, inductionHypothesis all.2]
        rfl

theorem Handler.meets_toMethods (handlers : List Handler) {methods : Bindings Method}
    (lower : ∀ handler ∈ handlers, BodyLowers fails P handler.body)
    (all : methods.entries.all (·.2.every P) = true) :
    Meets fails (·.entries.all (·.2.every P) = true) (toMethods handlers methods) := by
  induction handlers generalizing methods with
  | nil => exact all
  | cons handler rest inductionHypothesis =>
      obtain ⟨here, others⟩ := List.forall_mem_cons.mp lower
      rw [toMethods]
      exact (Block.meets_toStmts handler.body here).bind fun body inner =>
        inductionHypothesis others (Bindings.all_insertEntry inner all)

/-- The payloads of the entity are read as they should be. -/
structure EntityBlock.Lowers (fails : Diagnostic → Prop) (P : Expr → Bool) (entity : EntityBlock) :
    Prop where
  properties : ∀ property ∈ entity.properties, ∀ payload ∈ property.initializer,
    payload.Lowers fails P
  init : ∀ procedure ∈ entity.init, BodyLowers fails P procedure.body
  tick : ∀ procedure ∈ entity.tick, BodyLowers fails P procedure.body
  render : ∀ procedure ∈ entity.render, BodyLowers fails P procedure.body
  handlers : ∀ handler ∈ entity.handlers, BodyLowers fails P handler.body

theorem EntityBlock.meets_toType (entity : EntityBlock) (lower : entity.Lowers fails P) :
    Meets fails (·.every P = true) entity.toType := by
  rw [toType]
  refine (meets_mapM Property.meets_toInitializer lower.properties).bind
    fun initializers first => ?_
  refine (Procedure.meets_toMethod? _ lower.init).bind fun constructor second => ?_
  refine (Procedure.meets_toMethod? _ lower.tick).bind fun tick third => ?_
  refine (Procedure.meets_toMethod? _ lower.render).bind fun render fourth => ?_
  refine (Handler.meets_toMethods _ lower.handlers rfl).bind fun handlers fifth => ?_
  have constructed : (constructor.getD ⟨[], []⟩).every P = true := by
    cases constructor with
    | none => rfl
    | some constructor => exact second
  simp only [Meets, pure, Except.pure, EntityType.every, Bool.and_eq_true]
  exact ⟨⟨⟨⟨first, constructed⟩, third⟩, fourth⟩, fifth⟩

/-- The payloads of the declaration are read as they should be, and it is as it should be that it
may be one `main` too many or may not stand where it does. -/
def Declaration.Lowers (fails : Diagnostic → Prop) (P : Expr → Bool) : Declaration → Prop
  | .main body span => BodyLowers fails P body ∧ fails ⟨.structural .secondMain, span⟩
  | .entity definition => definition.Lowers fails P
  | .choice _ _ _ | .loop _ _ _ _ _ | .statement _ =>
      ∀ span, fails ⟨.structural .statementOutside, span⟩

theorem Program.meets_extend (declarations : List Declaration) {program : Program}
    (lower : ∀ declaration ∈ declarations, declaration.Lowers fails P)
    (all : program.every P = true) :
    Meets fails (·.every P = true) (program.extend declarations) := by
  induction declarations generalizing program with
  | nil => exact all
  | cons declaration rest inductionHypothesis =>
      obtain ⟨here, others⟩ := List.forall_mem_cons.mp lower
      rw [Program.every, Bool.and_eq_true] at all
      cases declaration with
      | main body span =>
          rw [extend]
          split
          next => exact here.2
          next =>
            refine (Block.meets_toStmts body here.1).bind fun stmts inner => ?_
            refine inductionHypothesis others ?_
            rw [Program.every, all.2, Bool.and_true]
            exact inner
      | entity definition =>
          rw [extend]
          refine (definition.meets_toType here).bind fun type inner => ?_
          refine inductionHypothesis others ?_
          rw [Program.every, all.1, List.all_append, all.2]
          simpa using inner
      | choice | loop | statement => exact here _

theorem EntityBlock.lowers_of_slots {entity : EntityBlock}
    (lower : SlotsHold (Payload.Lowers fails P) (Declaration.slots (.entity entity)))
    (tolerates : Tolerates fails entity.nodes) : entity.Lowers fails P := by
  have inside : ∀ member ∈ entity.members, member.Holds (Payload.Lowers fails P) := by
    simpa only [Declaration.slots, Item.slots, slotsHold_append, slotsHold_cons, slotsHold_linesOf,
      slotsHold_member, List.forall_mem_map, Slot.Holds, true_and, slotsHold_nil,
      and_true] using lower
  have within (member : Member) (among : member ∈ entity.members) :
      Tolerates fails member.nodes := fun node one =>
    tolerates node (EntityBlock.mem_nodes.mpr ⟨member, among, one⟩)
  refine ⟨fun property among => inside (.property property) ?_,
    fun procedure found => ⟨inside (.init procedure) ?_, within (.init procedure) ?_⟩,
    fun procedure found => ⟨inside (.tick procedure) ?_, within (.tick procedure) ?_⟩,
    fun procedure found => ⟨inside (.render procedure) ?_, within (.render procedure) ?_⟩,
    fun handler among => ⟨inside (.handler handler) ?_, within (.handler handler) ?_⟩⟩
  all_goals simpa [EntityBlock.members]

theorem Declaration.lowers_of_slots {declaration : Declaration}
    (lower : SlotsHold (Payload.Lowers fails P) declaration.slots)
    (tolerates : Tolerates fails declaration.inner)
    (second : ∀ body span, declaration = .main body span → fails ⟨.structural .secondMain, span⟩)
    (outside : declaration.node.isTop = false →
      ∀ span, fails ⟨.structural .statementOutside, span⟩) :
    declaration.Lowers fails P := by
  cases declaration with
  | main body span =>
      exact ⟨⟨slotsHold_procedureSlots.mp (slotsHold_cons.mp lower).2, tolerates⟩,
        second body span rfl⟩
  | entity definition => exact EntityBlock.lowers_of_slots lower tolerates
  | choice | loop | statement => exact outside rfl

end Lowering

/-! ### Closed programs -/

theorem Expr.unresolved_of_ofLexemes {payload : Source.Span} {lexemes : List Lexeme} {expr : Expr}
    (accepted : Expr.ofLexemes payload lexemes = .ok expr) : expr.unresolved = true := by
  obtain ⟨rest, reads, _⟩ := exprOfLexemes_eq_ok.mp accepted
  obtain ⟨tokens, _, spelled⟩ := spelled_of_readTier reads
  exact spelled.unresolved

theorem Stmt.unresolved_of_ofLexemes {payload : Source.Span} {lexemes : List Lexeme} {stmt : Stmt}
    (accepted : Stmt.ofLexemes payload lexemes = .ok stmt) :
    stmt.every Expr.unresolved = true := by
  obtain ⟨rest, reads, _⟩ := stmtOfLexemes_eq_ok.mp accepted
  obtain ⟨tokens, _, spelled⟩ := spelled_of_readStmt reads
  cases spelled with
  | define _ value | assign _ value | expr value => exact value.unresolved

theorem Payload.lowers_unresolved (payload : Payload) :
    payload.Lowers (fun _ => True) Expr.unresolved :=
  ⟨.of_forall fun _ => Expr.unresolved_of_ofLexemes,
    .of_forall fun _ => Stmt.unresolved_of_ofLexemes⟩

/-- Whatever text is accepted, every expression of the program is closed. -/
theorem Program.closed_of_ofText {name text : String} {program : Program}
    (accepted : Program.ofText name text = .ok program) : program.every Expr.closed = true := by
  simp only [ofText, bind_eq_ok] at accepted
  obtain ⟨declarations, _, lowered, lowers, resolves⟩ := accepted
  have lower : ∀ declaration ∈ declarations,
      declaration.Lowers (fun _ => True) Expr.unresolved := fun declaration _ =>
    Declaration.lowers_of_slots (slotsHold_iff.mpr fun payload _ => payload.lowers_unresolved)
      (fun _ _ _ _ => trivial) (fun _ _ _ => trivial) fun _ _ => trivial
  have named : lowered.every Expr.unresolved = true :=
    (meets_extend declarations lower rfl).of_ok lowers
  have exprs : ResolvesTo (fun _ => True) Expr.unresolved Expr.closed := fun expr named =>
    .of_forall fun _ => expr.closed_of_resolve named
  exact (meets_resolve exprs lowered named).of_ok resolves

end EntityScript
