import Mathlib.Data.List.Nodup
import EntityScript.Proofs.Closed

/-!
References.  A program is resolved exactly when each reference in it, however deep, names
something of the shape it is used in; and resolution puts what is named in the place of each
reference and changes nothing else.
-/

namespace EntityScript

/-! ### What references name -/

/-- Whether the member is used as its shape asks: read without parentheses, or called with as many
arguments as it takes. -/
def MemberShape.fits : MemberShape → Option Nat → Bool
  | .property, none => true
  | .function least most, some count => least ≤ count && count ≤ most
  | _, _ => false

namespace Expr

/-- Whether the expression, taken without its parts, is a reference by name. -/
def isReference : Expr → Bool
  | .call .. | .member .. => true
  | _ => false

/-- Whether the expression, taken without its parts, names what it refers to, if it is a reference:
a call a global function that takes as many arguments, a member one of a library that is used
like this. -/
def refers : Expr → Bool
  | .call name arguments _ =>
      Global.all.any fun function => function.name = name && function.admits arguments.length
  | .member library name arguments _ =>
      Builtin.all.any fun builtin =>
        (builtin.entry.library.name = library && builtin.name = name) &&
          builtin.shape.fits (arguments.map List.length)
  | _ => true

section EveryNode

variable (P : Expr → Bool)

mutual

/-- Whether the expression and every expression in it, at any depth, meets a demand. -/
def everyNode : Expr → Bool
  | .number value span => P (.number value span)
  | .text content span => P (.text content span)
  | .bool value span => P (.bool value span)
  | .unset span => P (.unset span)
  | .this span => P (.this span)
  | .ident name span => P (.ident name span)
  | .binary op left right span =>
      P (.binary op left right span) && (left.everyNode && right.everyNode)
  | .unary op operand span => P (.unary op operand span) && operand.everyNode
  | .field object name span => P (.field object name span) && object.everyNode
  | .method object name arguments span =>
      P (.method object name arguments span) && (object.everyNode && everyNodeIn arguments)
  | .spawn type arguments span => P (.spawn type arguments span) && everyNodeIn arguments
  | .call name arguments span => P (.call name arguments span) && everyNodeIn arguments
  | .member library name none span => P (.member library name none span)
  | .member library name (some arguments) span =>
      P (.member library name (some arguments) span) && everyNodeIn arguments
  | .builtin found arguments span => P (.builtin found arguments span) && everyNodeIn arguments
  | .global function arguments span =>
      P (.global function arguments span) && everyNodeIn arguments

def everyNodeIn : List Expr → Bool
  | [] => true
  | expr :: rest => expr.everyNode && everyNodeIn rest

end

end EveryNode

mutual

/-- The expression with what references name in their places. -/
def bound : Expr → Expr
  | .number value span => .number value span
  | .text content span => .text content span
  | .bool value span => .bool value span
  | .unset span => .unset span
  | .this span => .this span
  | .ident name span => .ident name span
  | .binary op left right span => .binary op left.bound right.bound span
  | .unary op operand span => .unary op operand.bound span
  | .field object name span => .field object.bound name span
  | .method object name arguments span => .method object.bound name (boundAll arguments) span
  | .spawn type arguments span => .spawn type (boundAll arguments) span
  | .call name arguments span =>
      match Global.find? name with
      | some function => .global function (boundAll arguments) span
      | none => .call name (boundAll arguments) span
  | .member library name none span =>
      match Builtin.find? library name with
      | some found => .builtin found [] span
      | none => .member library name none span
  | .member library name (some arguments) span =>
      match Builtin.find? library name with
      | some found => .builtin found (boundAll arguments) span
      | none => .member library name (some (boundAll arguments)) span
  | .builtin found arguments span => .builtin found (boundAll arguments) span
  | .global function arguments span => .global function (boundAll arguments) span

def boundAll : List Expr → List Expr
  | [] => []
  | expr :: rest => expr.bound :: boundAll rest

end

end Expr

/-! ### Changing the expressions of a program -/

section MapExprs

variable (change : Expr → Expr)

mutual

/-- The statement with each of its expressions, taken whole, changed. -/
def Stmt.mapExprs : Stmt → Stmt
  | .define name value span => .define name (change value) span
  | .assign target op value span => .assign target op (change value) span
  | .expr value => .expr (change value)
  | .choice branches none span => .choice (mapBranches branches) none span
  | .choice branches (some otherwise) span =>
      .choice (mapBranches branches) (some (mapStmts otherwise)) span
  | .loop counter start bound body span =>
      .loop counter (change start) (change bound) (mapStmts body) span

def mapStmts : List Stmt → List Stmt
  | [] => []
  | stmt :: rest => stmt.mapExprs :: mapStmts rest

def mapBranches : List (Expr × List Stmt) → List (Expr × List Stmt)
  | [] => []
  | (condition, body) :: rest => (change condition, mapStmts body) :: mapBranches rest

end

def Method.mapExprs (method : Method) : Method :=
  { method with body := mapStmts change method.body }

def Initializer.mapExprs (initializer : Initializer) : Initializer :=
  { initializer with value := initializer.value.map change }

def EntityType.mapExprs (type : EntityType) : EntityType :=
  { type with
    initializers := type.initializers.map (·.mapExprs change)
    constructor := type.constructor.mapExprs change
    tick := type.tick.map (·.mapExprs change)
    render := type.render.map (·.mapExprs change)
    handlers := ⟨type.handlers.entries.map fun entry => (entry.1, entry.2.mapExprs change)⟩ }

def Program.mapExprs (program : Program) : Program :=
  { program with
    main := program.main.map (mapStmts change)
    types := program.types.map (·.mapExprs change) }

end MapExprs

/-! ### Readings that succeed under one condition -/

/-- The reading succeeds just if the condition holds, and then with the value. -/
def YieldsIf {α : Type} (condition : Bool) (value : α) (reading : Reading α) : Prop :=
  ∀ result, reading = .ok result ↔ condition = true ∧ result = value

section YieldsIf

variable {α β : Type} {first second : Bool} {value : α} {result : β}

theorem yieldsIf_ok (value : α) : YieldsIf true value (.ok value) := by
  intro result
  rw [Except.ok.injEq, eq_comm]
  exact (and_iff_right rfl).symm

theorem yieldsIf_error (diagnostic : Diagnostic) (value : α) :
    YieldsIf false value (.error diagnostic) := by
  intro result
  constructor
  · intro yields
    cases yields
  · intro holds
    cases holds.1

theorem YieldsIf.bind {reading : Reading α} {next : α → Reading β}
    (here : YieldsIf first value reading) (later : YieldsIf second result (next value)) :
    YieldsIf (first && second) result (reading >>= next) := by
  intro found
  rw [bind_eq_ok, Bool.and_eq_true]
  constructor
  · rintro ⟨middle, yields, continues⟩
    obtain ⟨holds, rfl⟩ := (here middle).mp yields
    obtain ⟨holdsLater, same⟩ := (later found).mp continues
    exact ⟨⟨holds, holdsLater⟩, same⟩
  · rintro ⟨⟨holds, holdsLater⟩, same⟩
    exact ⟨value, (here value).mpr ⟨holds, rfl⟩, (later found).mpr ⟨holdsLater, same⟩⟩

theorem YieldsIf.map {reading : Reading α} (here : YieldsIf first value reading)
    (change : α → β) : YieldsIf first (change value) (do pure (change (← reading))) := by
  rw [← Bool.and_true first]
  exact here.bind (yieldsIf_ok _)

theorem YieldsIf.mapM {items : List α} {condition : α → Bool} {change : α → β}
    {reading : α → Reading β}
    (each : ∀ item, YieldsIf (condition item) (change item) (reading item)) :
    YieldsIf (items.all condition) (items.map change) (items.mapM reading) := by
  induction items with
  | nil => exact yieldsIf_ok _
  | cons item rest inductionHypothesis =>
      rw [List.mapM_cons, List.all_cons]
      apply (each item).bind
      exact inductionHypothesis.map _

end YieldsIf

/-! ### Looking up names -/

section Lookup

/-- When only one item meets a demand, it is the one that is found. -/
theorem any_eq_find?_any {α : Type} {items : List α} {P : α → Bool} (Q : α → Bool)
    (single : ∀ item ∈ items, ∀ other ∈ items, P item = true → P other = true → item = other) :
    (items.any fun item => P item && Q item) = (items.find? P).any Q := by
  cases found : items.find? P with
  | none =>
      rw [List.find?_eq_none] at found
      rw [Option.any_none, List.any_eq_false]
      intro item member
      simp [found item member]
  | some item =>
      have member : item ∈ items := List.mem_of_find?_eq_some found
      have meets : P item = true := List.find?_some found
      rw [Option.any_some, Bool.eq_iff_iff, List.any_eq_true]
      constructor
      · rintro ⟨other, among, both⟩
        rw [Bool.and_eq_true] at both
        rw [single item member other among meets both.1]
        exact both.2
      · intro also
        exact ⟨item, member, by simp [meets, also]⟩

theorem Global.any_named (name : String) (Q : Global → Bool) :
    (Global.all.any fun function => function.name = name && Q function) =
      (Global.find? name).any Q := by
  apply any_eq_find?_any
  have apart : (Global.all.map Global.name).Nodup := by decide
  intro function member other among named namedOther
  apply List.inj_on_of_nodup_map apart member among
  rw [of_decide_eq_true named, of_decide_eq_true namedOther]

theorem Library.ofName?_name (library : Library) :
    Library.ofName? library.name = some library := by
  cases library <;> rfl

theorem Library.name_of_ofName? {name : String} {library : Library}
    (found : Library.ofName? name = some library) : library.name = name :=
  of_decide_eq_true (List.find?_some (p := fun library : Library => library.name = name) found)

theorem Builtin.any_named (library name : String) (Q : Builtin → Bool) :
    (Builtin.all.any fun builtin =>
      (builtin.entry.library.name = library && builtin.name = name) && Q builtin) =
      (Builtin.find? library name).any Q := by
  cases found : Library.ofName? library with
  | none =>
      have absent : ∀ builtin : Builtin, builtin.entry.library.name ≠ library := by
        intro builtin same
        rw [← same, Library.ofName?_name] at found
        cases found
      simp [Builtin.find?, found, absent]
  | some home =>
      have here (builtin : Builtin) :
          builtin.entry.library.name = library ↔ builtin.entry.library = home := by
        constructor
        · intro same
          rw [← same, Library.ofName?_name] at found
          exact Option.some.inj found
        · intro same
          rw [same, Library.name_of_ofName? found]
      simp only [Builtin.find?, found, here]
      apply any_eq_find?_any
      have apart : (Builtin.all.map fun builtin =>
          (builtin.entry.library, builtin.entry.name)).Nodup := by decide +kernel
      intro builtin member other among named namedOther
      simp only [Bool.and_eq_true, decide_eq_true_eq] at named namedOther
      apply List.inj_on_of_nodup_map apart member among
      rw [named.1, namedOther.1]
      exact congrArg _ (named.2.trans namedOther.2.symm)

end Lookup

/-! ### Resolution of expressions -/

theorem Global.yieldsIf_resolve {name : String} {function : Global}
    (found : Global.find? name = some function) (count : Nat) (span : Source.Span) :
    YieldsIf (function.admits count) function (Global.resolve name count span) := by
  have range : function.admits count = true ↔
      ¬(count < function.entry.least ∨ function.entry.most < count) := by
    simp only [admits, Bool.and_eq_true, decide_eq_true_eq]
    omega
  simp only [resolve, found]
  by_cases outside : count < function.entry.least ∨ function.entry.most < count
  · have refused : function.admits count = false := by
      simpa [outside] using range
    rw [if_pos outside, refused]
    apply yieldsIf_error
  · rw [if_neg outside, range.mpr outside]
    apply yieldsIf_ok

theorem Builtin.yieldsIf_resolve {library name : String} {builtin : Builtin}
    (found : Builtin.find? library name = some builtin) (count : Option Nat)
    (span : Source.Span) :
    YieldsIf (builtin.shape.fits count) builtin (Builtin.resolve library name count span) := by
  simp only [resolve, found]
  cases builtin.shape with
  | property =>
      cases count with
      | none => apply yieldsIf_ok
      | some count => apply yieldsIf_error
  | function least most =>
      cases count with
      | none => apply yieldsIf_error
      | some count =>
          by_cases outside : count < least ∨ most < count
          · have refused : MemberShape.fits (.function least most) (some count) = false := by
              simp only [MemberShape.fits, Bool.and_eq_false_iff, decide_eq_false_iff_not]
              omega
            simp only [if_pos outside, refused]
            apply yieldsIf_error
          · have admitted : MemberShape.fits (.function least most) (some count) = true := by
              simp only [MemberShape.fits, Bool.and_eq_true, decide_eq_true_eq]
              omega
            simp only [if_neg outside, admitted]
            apply yieldsIf_ok

namespace Expr

mutual

theorem yieldsIf_resolve (expr : Expr) :
    YieldsIf (expr.everyNode refers) expr.bound expr.resolve := by
  cases expr with
  | number | text | bool | unset | this | ident => apply yieldsIf_ok
  | binary op left right span =>
      rw [resolve, everyNode, bound]
      apply (yieldsIf_resolve left).bind
      exact (yieldsIf_resolve right).map _
  | unary op operand span =>
      rw [resolve, everyNode, bound]
      exact (yieldsIf_resolve operand).map _
  | field object name span =>
      rw [resolve, everyNode, bound]
      exact (yieldsIf_resolve object).map _
  | method object name arguments span =>
      rw [resolve, everyNode, bound]
      apply (yieldsIf_resolve object).bind
      exact (yieldsIf_resolveAll arguments).map _
  | spawn type arguments span =>
      rw [resolve, everyNode, bound]
      exact (yieldsIf_resolveAll arguments).map _
  | call name arguments span =>
      rw [resolve, everyNode, bound, refers, Global.any_named]
      cases found : Global.find? name with
      | none =>
          simp only [Global.resolve, found]
          apply yieldsIf_error
      | some _ =>
          apply (Global.yieldsIf_resolve found _ _).bind
          exact (yieldsIf_resolveAll arguments).map _
  | member library name arguments span =>
      cases arguments with
      | none =>
          rw [resolve, everyNode, bound, refers, Builtin.any_named]
          cases found : Builtin.find? library name with
          | none =>
              simp only [Builtin.resolve, found]
              apply yieldsIf_error
          | some _ => exact (Builtin.yieldsIf_resolve found _ _).map _
      | some arguments =>
          rw [resolve, everyNode, bound, refers, Builtin.any_named]
          cases found : Builtin.find? library name with
          | none =>
              simp only [Builtin.resolve, found]
              apply yieldsIf_error
          | some _ =>
              apply (Builtin.yieldsIf_resolve found _ _).bind
              exact (yieldsIf_resolveAll arguments).map _
  | builtin found arguments span =>
      rw [resolve, everyNode, bound]
      exact (yieldsIf_resolveAll arguments).map _
  | global function arguments span =>
      rw [resolve, everyNode, bound]
      exact (yieldsIf_resolveAll arguments).map _

theorem yieldsIf_resolveAll (exprs : List Expr) :
    YieldsIf (everyNodeIn refers exprs) (boundAll exprs) (resolveAll exprs) := by
  cases exprs with
  | nil => apply yieldsIf_ok
  | cons expr rest =>
      rw [resolveAll, everyNodeIn, boundAll]
      apply (yieldsIf_resolve expr).bind
      exact (yieldsIf_resolveAll rest).map _

end

section Bound

variable {Q : Expr → Bool}

mutual

/-- Where everything names what it refers to, no reference is left: what holds of any other node
holds of all there are. -/
theorem everyNode_bound (fits : ∀ node : Expr, node.isReference = false → Q node = true)
    (expr : Expr) (named : expr.everyNode refers = true) : expr.bound.everyNode Q = true := by
  cases expr with
  | number | text | bool | unset | this | ident =>
      rw [bound, everyNode]
      exact fits _ rfl
  | binary op left right span =>
      simp only [everyNode, Bool.and_eq_true] at named
      rw [bound, everyNode, fits _ rfl, everyNode_bound fits left named.2.1,
        everyNode_bound fits right named.2.2]
      rfl
  | unary op operand span =>
      simp only [everyNode, Bool.and_eq_true] at named
      rw [bound, everyNode, fits _ rfl, everyNode_bound fits operand named.2]
      rfl
  | field object name span =>
      simp only [everyNode, Bool.and_eq_true] at named
      rw [bound, everyNode, fits _ rfl, everyNode_bound fits object named.2]
      rfl
  | method object name arguments span =>
      simp only [everyNode, Bool.and_eq_true] at named
      rw [bound, everyNode, fits _ rfl, everyNode_bound fits object named.2.1,
        everyNodeIn_boundAll fits arguments named.2.2]
      rfl
  | call name arguments span =>
      simp only [everyNode, refers, Global.any_named, Bool.and_eq_true] at named
      cases found : Global.find? name with
      | none => simp [found] at named
      | some function =>
          simp only [bound, found]
          rw [everyNode, fits _ rfl, everyNodeIn_boundAll fits arguments named.2]
          rfl
  | member library name arguments span =>
      cases found : Builtin.find? library name with
      | none => cases arguments <;> simp [everyNode, refers, Builtin.any_named, found] at named
      | some builtin =>
          cases arguments with
          | none =>
              simp only [bound, found]
              rw [everyNode, fits _ rfl]
              rfl
          | some arguments =>
              rw [everyNode, Bool.and_eq_true] at named
              simp only [bound, found]
              rw [everyNode, fits _ rfl, everyNodeIn_boundAll fits arguments named.2]
              rfl
  | spawn _ arguments span | builtin _ arguments span | global _ arguments span =>
      simp only [everyNode, Bool.and_eq_true] at named
      rw [bound, everyNode, fits _ rfl, everyNodeIn_boundAll fits arguments named.2]
      rfl

theorem everyNodeIn_boundAll (fits : ∀ node : Expr, node.isReference = false → Q node = true)
    (exprs : List Expr) (named : everyNodeIn refers exprs = true) :
    everyNodeIn Q (boundAll exprs) = true := by
  cases exprs with
  | nil => rfl
  | cons expr rest =>
      rw [everyNodeIn, Bool.and_eq_true] at named
      rw [boundAll, everyNodeIn, everyNode_bound fits expr named.1,
        everyNodeIn_boundAll fits rest named.2]
      rfl

end

end Bound

mutual

/-- What references name is no reference itself. -/
theorem bound_bound (expr : Expr) : expr.bound.bound = expr.bound := by
  cases expr with
  | number | text | bool | unset | this | ident => rfl
  | binary op left right span => simp only [bound, bound_bound left, bound_bound right]
  | unary op operand span => simp only [bound, bound_bound operand]
  | field object name span => simp only [bound, bound_bound object]
  | method object name arguments span =>
      simp only [bound, bound_bound object, boundAll_boundAll arguments]
  | call name arguments span =>
      cases found : Global.find? name <;> simp only [bound, found, boundAll_boundAll arguments]
  | member library name arguments span =>
      cases arguments with
      | none => cases found : Builtin.find? library name <;> simp only [bound, found, boundAll]
      | some arguments =>
          cases found : Builtin.find? library name <;>
            simp only [bound, found, boundAll_boundAll arguments]
  | spawn _ arguments span | builtin _ arguments span | global _ arguments span =>
      simp only [bound, boundAll_boundAll arguments]

theorem boundAll_boundAll (exprs : List Expr) :
    boundAll (boundAll exprs) = boundAll exprs := by
  cases exprs with
  | nil => rfl
  | cons expr rest => simp only [boundAll, bound_bound expr, boundAll_boundAll rest]

end

theorem refers_of_not_isReference {node : Expr} (other : node.isReference = false) :
    node.refers = true := by
  cases node with
  | call | member => cases other
  | _ => rfl

end Expr

/-! ### Resolution of programs -/

section Programs

variable {P : Expr → Bool} {change : Expr → Expr}

/-- Resolution of an expression succeeds just if it meets the demand, and changes it like this. -/
abbrev ResolvesBy (P : Expr → Bool) (change : Expr → Expr) : Prop :=
  ∀ expr : Expr, YieldsIf (P expr) (change expr) expr.resolve

mutual

/-- Resolution goes through all expressions of a statement, and so what it makes of expressions
decides what it makes of statements. -/
theorem Stmt.yieldsIf_resolve (exprs : ResolvesBy P change) (stmt : Stmt) :
    YieldsIf (stmt.every P) (stmt.mapExprs change) stmt.resolve := by
  cases stmt with
  | define _ value span | assign _ _ value span | expr value =>
      rw [resolve, Stmt.every, Stmt.mapExprs]
      exact (exprs value).map _
  | choice branches otherwise span =>
      cases otherwise with
      | none =>
          rw [resolve, Stmt.every, Stmt.mapExprs]
          exact (yieldsIf_resolveBranches exprs branches).map _
      | some otherwise =>
          rw [resolve, Stmt.every, Stmt.mapExprs]
          apply (yieldsIf_resolveBranches exprs branches).bind
          exact (yieldsIf_resolveStmts exprs otherwise).map _
  | loop counter start bound body span =>
      rw [resolve, Stmt.every, Stmt.mapExprs, Bool.and_assoc]
      apply (exprs start).bind
      apply (exprs bound).bind
      exact (yieldsIf_resolveStmts exprs body).map _

theorem Stmt.yieldsIf_resolveStmts (exprs : ResolvesBy P change) (stmts : List Stmt) :
    YieldsIf (everyStmt P stmts) (mapStmts change stmts) (Stmt.resolveAll stmts) := by
  cases stmts with
  | nil => apply yieldsIf_ok
  | cons stmt rest =>
      rw [resolveAll, everyStmt, mapStmts]
      apply (stmt.yieldsIf_resolve exprs).bind
      exact (yieldsIf_resolveStmts exprs rest).map _

theorem Stmt.yieldsIf_resolveBranches (exprs : ResolvesBy P change)
    (branches : List (Expr × List Stmt)) :
    YieldsIf (everyBranch P branches) (mapBranches change branches)
      (Stmt.resolveBranches branches) := by
  match branches with
  | [] => apply yieldsIf_ok
  | (condition, body) :: rest =>
      rw [resolveBranches, everyBranch, mapBranches, Bool.and_assoc]
      apply (exprs condition).bind
      apply (yieldsIf_resolveStmts exprs body).bind
      exact (yieldsIf_resolveBranches exprs rest).map _

end

theorem Method.yieldsIf_resolve (exprs : ResolvesBy P change) (method : Method) :
    YieldsIf (method.every P) (method.mapExprs change) method.resolve :=
  (Stmt.yieldsIf_resolveStmts exprs method.body).map _

theorem Method.yieldsIf_resolve? (exprs : ResolvesBy P change) (method : Option Method) :
    YieldsIf (method.all (·.every P)) (method.map (·.mapExprs change)) (resolve? method) := by
  cases method with
  | none => apply yieldsIf_ok
  | some method => exact (method.yieldsIf_resolve exprs).map some

theorem Method.yieldsIf_resolveEntries (exprs : ResolvesBy P change)
    (entries : List (String × Method)) :
    YieldsIf (entries.all (·.2.every P))
      (entries.map fun entry => (entry.1, entry.2.mapExprs change)) (resolveEntries entries) := by
  induction entries with
  | nil => apply yieldsIf_ok
  | cons entry rest inductionHypothesis =>
      rw [resolveEntries, List.all_cons, List.map_cons]
      apply (entry.2.yieldsIf_resolve exprs).bind
      exact inductionHypothesis.map _

theorem Initializer.yieldsIf_resolve (exprs : ResolvesBy P change) (initializer : Initializer) :
    YieldsIf (initializer.every P) (initializer.mapExprs change) initializer.resolve := by
  obtain ⟨name, value⟩ := initializer
  cases value with
  | none => apply yieldsIf_ok
  | some value => exact (exprs value).map _

theorem EntityType.yieldsIf_resolve (exprs : ResolvesBy P change) (type : EntityType) :
    YieldsIf (type.every P) (type.mapExprs change) type.resolve := by
  simp only [resolve, EntityType.every, Bool.and_assoc]
  apply (YieldsIf.mapM (Initializer.yieldsIf_resolve exprs)).bind
  apply (Method.yieldsIf_resolve exprs _).bind
  apply (Method.yieldsIf_resolve? exprs _).bind
  apply (Method.yieldsIf_resolve? exprs _).bind
  exact (Method.yieldsIf_resolveEntries exprs _).map _

theorem Program.yieldsIf_resolve (exprs : ResolvesBy P change) (program : Program) :
    YieldsIf (program.every P) (program.mapExprs change) program.resolve := by
  obtain ⟨name, main, types⟩ := program
  have typed : YieldsIf (types.all (·.every P)) (types.map (·.mapExprs change))
      (types.mapM EntityType.resolve) := .mapM (EntityType.yieldsIf_resolve exprs)
  cases main with
  | none => exact (yieldsIf_ok none).bind (typed.map _)
  | some body =>
      apply ((Stmt.yieldsIf_resolveStmts exprs body).map some).bind
      exact typed.map _

end Programs

section MapExprs

variable (change next : Expr → Expr)

mutual

theorem Stmt.mapExprs_mapExprs (stmt : Stmt) :
    (stmt.mapExprs change).mapExprs next = stmt.mapExprs (next ∘ change) := by
  cases stmt with
  | define | assign | expr => rfl
  | choice branches otherwise span =>
      cases otherwise with
      | none => simp only [Stmt.mapExprs, mapBranches_mapBranches branches]
      | some otherwise =>
          simp only [Stmt.mapExprs, mapBranches_mapBranches branches, mapStmts_mapStmts otherwise]
  | loop counter start bound body span =>
      simp only [Stmt.mapExprs, mapStmts_mapStmts body, Function.comp_apply]

theorem mapStmts_mapStmts (stmts : List Stmt) :
    mapStmts next (mapStmts change stmts) = mapStmts (next ∘ change) stmts := by
  cases stmts with
  | nil => rfl
  | cons stmt rest => simp only [mapStmts, stmt.mapExprs_mapExprs, mapStmts_mapStmts rest]

theorem mapBranches_mapBranches (branches : List (Expr × List Stmt)) :
    mapBranches next (mapBranches change branches) = mapBranches (next ∘ change) branches := by
  match branches with
  | [] => rfl
  | (condition, body) :: rest =>
      simp only [mapBranches, mapStmts_mapStmts body, mapBranches_mapBranches rest,
        Function.comp_apply]

end

theorem Method.mapExprs_mapExprs (method : Method) :
    (method.mapExprs change).mapExprs next = method.mapExprs (next ∘ change) := by
  simp only [mapExprs, mapStmts_mapStmts]

theorem Initializer.mapExprs_mapExprs (initializer : Initializer) :
    (initializer.mapExprs change).mapExprs next = initializer.mapExprs (next ∘ change) := by
  simp only [mapExprs, Option.map_map]

theorem EntityType.mapExprs_mapExprs (type : EntityType) :
    (type.mapExprs change).mapExprs next = type.mapExprs (next ∘ change) := by
  simp [mapExprs, Method.mapExprs_mapExprs, Initializer.mapExprs_mapExprs, Function.comp_def]

theorem Program.mapExprs_mapExprs (program : Program) :
    (program.mapExprs change).mapExprs next = program.mapExprs (next ∘ change) := by
  simp [mapExprs, EntityType.mapExprs_mapExprs, mapStmts_mapStmts, Function.comp_def]

end MapExprs

/-- A program is resolved exactly when every node of every expression in it names what it refers
to, a call a global function and a member one of a library, used with fitting arguments.  The
result has what is named in the place of each reference, with the same arguments, resolved and in
order, and is the program otherwise; no reference is left in it, and to resolve it again changes
nothing. -/
theorem Program.resolution_exact (program : Program) :
    ((∃ resolved, program.resolve = .ok resolved) ↔
      program.every (·.everyNode Expr.refers) = true) ∧
    ∀ resolved, program.resolve = .ok resolved →
      resolved = program.mapExprs Expr.bound ∧
      resolved.every (·.everyNode fun node => !node.isReference) = true ∧
      resolved.resolve = .ok resolved := by
  have exactly (other : Program) := other.yieldsIf_resolve Expr.yieldsIf_resolve
  constructor
  · constructor
    · rintro ⟨resolved, resolves⟩
      exact ((exactly program resolved).mp resolves).1
    · intro named
      exact ⟨_, (exactly program _).mpr ⟨named, rfl⟩⟩
  · intro resolved resolves
    obtain ⟨named, rfl⟩ := (exactly program resolved).mp resolves
    -- What holds of every node that is no reference holds of every node of the result.
    have all {Q : Expr → Bool} (fits : ∀ node : Expr, node.isReference = false → Q node = true) :
        (program.mapExprs Expr.bound).every (·.everyNode Q) = true := by
      have exprs : ResolvesTo (fun _ => True) (·.everyNode Expr.refers) (·.everyNode Q) := by
        intro expr named
        apply Meets.of_forall
        intro bound resolves
        obtain ⟨_, rfl⟩ := (expr.yieldsIf_resolve bound).mp resolves
        exact expr.everyNode_bound fits named
      exact (program.meets_resolve exprs named).of_ok resolves
    refine ⟨rfl, all fun node other => by simp [other], ?_⟩
    apply (exactly _ _).mpr
    refine ⟨all fun node => Expr.refers_of_not_isReference, ?_⟩
    rw [mapExprs_mapExprs, funext Expr.bound_bound (f := Expr.bound ∘ Expr.bound)]

/-- A call in a loop, and a member among its arguments. -/
def Program.ofCallInLoop (call : List Expr → Expr) (member : Expr) : Program :=
  ⟨"unit", some [.loop "i" (.unset .none) member [.expr (call [.text "go" .none, member])] .none],
    []⟩

theorem callInLoop_resolved :
    let named := Program.ofCallInLoop (.call "emit" · .none) (.member "Gfx" "width" none .none)
    let found := Program.ofCallInLoop (.global .emit · .none) (.builtin .width [] .none)
    named.resolve = .ok found ∧ found = named.mapExprs Expr.bound ∧
      found.every (·.everyNode fun node => !node.isReference) = true ∧
      found.resolve = .ok found := by
  let named := Program.ofCallInLoop (.call "emit" · .none) (.member "Gfx" "width" none .none)
  let found := Program.ofCallInLoop (.global .emit · .none) (.builtin .width [] .none)
  have resolves : named.resolve = .ok found := rfl
  exact ⟨resolves, named.resolution_exact.2 found resolves⟩

end EntityScript
