import Mathlib.Data.List.Forall2
import EntityScript.Proofs.Expressions
import EntityScript.World.Operations

/-!
Scopes.  A block runs in a scope of its own, and however it ends that scope is gone.  The scopes
around it have the same names as before, and of these only the ones that the block assigns to may
stand for other values.
-/

namespace EntityScript

open Script

/-- The local that a place starts from, if it does. -/
def PlaceRoot.locals : PlaceRoot → List String
  | .ident name => [name]
  | .this => []

mutual

/-- The locals that a statement assigns to, at any depth in it. -/
def Stmt.assigned : Stmt → List String
  | .define .. | .expr _ => []
  | .assign target _ _ _ => target.root.locals
  | .choice branches none _ => assignedInBranches branches
  | .choice branches (some otherwise) _ => assignedInBranches branches ++ assignedIn otherwise
  | .loop _ _ _ body _ => assignedIn body

def assignedIn : List Stmt → List String
  | [] => []
  | stmt :: rest => stmt.assigned ++ assignedIn rest

def assignedInBranches : List (Expr × List Stmt) → List String
  | [] => []
  | (_, body) :: rest => assignedIn body ++ assignedInBranches rest

end

/-- The later scope has the same names, and those that are not listed stand for the same values. -/
structure Bindings.SameBut (listed : List String) (scope later : Bindings Value) : Prop where
  names : later.names = scope.names
  values : ∀ name, name ∉ listed → later.get? name = scope.get? name

/-- The later scopes are as many, and each has the names and the unlisted values of the one
before. -/
abbrev ScopesSameBut (listed : List String) (scopes later : List (Bindings Value)) : Prop :=
  List.Forall₂ (Bindings.SameBut listed) scopes later

/-- The later frame is the frame, except for the values of listed names. -/
structure Frame.SameBut (listed : List String) (frame later : Frame) : Prop where
  receiver : later.receiver = frame.receiver
  scopes : ScopesSameBut listed frame.scopes later.scopes

/-- Around the innermost scope the later frame is the frame, except for the values of listed
names. -/
structure Frame.SameAroundBut (listed : List String) (frame later : Frame) : Prop where
  receiver : later.receiver = frame.receiver
  outer : ScopesSameBut listed frame.outer later.outer

section SameBut

variable {listed more : List String} {name : String}

theorem Bindings.sameBut_refl (scope : Bindings Value) : scope.SameBut listed scope :=
  ⟨rfl, fun _ _ => rfl⟩

theorem Bindings.SameBut.trans {first second third : Bindings Value}
    (before : first.SameBut listed second) (after : second.SameBut listed third) :
    first.SameBut listed third where
  names := after.names.trans before.names
  values name unlisted := (after.values name unlisted).trans (before.values name unlisted)

theorem Bindings.SameBut.mono {scope later : Bindings Value} (same : scope.SameBut listed later)
    (fewer : listed ⊆ more) : scope.SameBut more later where
  names := same.names
  values name unlisted := same.values name fun among => unlisted (fewer among)

theorem Bindings.sameBut_insert {scope : Bindings Value} (bound : scope.contains name = true)
    (value : Value) : scope.SameBut [name] (scope.insert name value) where
  names := by
    rw [names_insert, if_pos (mem_names.mpr bound)]
  values other unlisted := by
    have apart : name ≠ other := fun same => unlisted (by simp [same])
    rw [get?_insert, if_neg apart]

theorem scopesSameBut_refl (scopes : List (Bindings Value)) : ScopesSameBut listed scopes scopes :=
  List.forall₂_same.mpr fun scope _ => scope.sameBut_refl

theorem scopesSameBut_trans {first second third : List (Bindings Value)}
    (before : ScopesSameBut listed first second) (after : ScopesSameBut listed second third) :
    ScopesSameBut listed first third := by
  induction before generalizing third with
  | nil => exact after
  | cons same _ inductionHypothesis =>
      cases after with
      | cons sameAgain rest => exact .cons (same.trans sameAgain) (inductionHypothesis rest)

theorem scopesSameBut_assignIn (value : Value) (scopes : List (Bindings Value)) :
    ScopesSameBut [name] scopes (Frame.assignIn name value scopes) := by
  induction scopes with
  | nil => exact .nil
  | cons scope rest inductionHypothesis =>
      by_cases bound : scope.contains name = true
      · rw [Frame.assignIn, if_pos bound]
        exact .cons (Bindings.sameBut_insert bound value) (scopesSameBut_refl rest)
      · rw [Frame.assignIn, if_neg bound]
        exact .cons scope.sameBut_refl inductionHypothesis

theorem Frame.sameAroundBut_refl (frame : Frame) : frame.SameAroundBut listed frame :=
  ⟨rfl, scopesSameBut_refl _⟩

theorem Frame.SameAroundBut.trans {first second third : Frame}
    (before : first.SameAroundBut listed second) (after : second.SameAroundBut listed third) :
    first.SameAroundBut listed third where
  receiver := after.receiver.trans before.receiver
  outer := scopesSameBut_trans before.outer after.outer

theorem Frame.SameAroundBut.mono {frame later : Frame} (same : frame.SameAroundBut listed later)
    (fewer : listed ⊆ more) : frame.SameAroundBut more later where
  receiver := same.receiver
  outer := same.outer.imp fun _ _ agree => agree.mono fewer

theorem Frame.SameBut.around {frame later : Frame} (same : frame.SameBut listed later) :
    frame.SameAroundBut listed later where
  receiver := same.receiver
  outer := by
    cases same.scopes with
    | cons _ rest => exact rest

/-- What stays the same around a new scope is all there was before it. -/
theorem Frame.SameAroundBut.pop {frame later : Frame}
    (same : frame.push.SameAroundBut listed later) : frame.SameBut listed later.pop := by
  obtain ⟨received, outer⟩ := same
  obtain ⟨receiver, innermost, around⟩ := later
  cases outer with
  | cons agree rest => exact ⟨received, .cons agree rest⟩

theorem Frame.sameBut_assign (frame : Frame) (name : String) (value : Value) :
    frame.SameBut [name] (frame.assign name value) where
  receiver := frame.receiver_assign name value
  scopes := by
    rw [scopes_assign]
    exact scopesSameBut_assignIn value frame.scopes

end SameBut

namespace Script

variable {α β : Type} {listed more : List String}

/-- However a script ends, around the innermost scope it has changed nothing but values of listed
names. -/
def Spares (listed : List String) (script : Script Activation α) : Prop :=
  ∀ activation left, (script activation).state? = some left →
    activation.frame.SameAroundBut listed left.frame

/-- However a script ends, it has changed nothing in the frame but values of listed names. -/
def SparesAll (listed : List String) (script : Script Activation α) : Prop :=
  ∀ activation left, (script activation).state? = some left →
    activation.frame.SameBut listed left.frame

theorem SparesAll.spares {script : Script Activation α} (spared : SparesAll listed script) :
    Spares listed script :=
  fun activation left ends => (spared activation left ends).around

theorem Spares.mono {script : Script Activation α} (spared : Spares listed script)
    (fewer : listed ⊆ more) : Spares more script :=
  fun activation left ends => (spared activation left ends).mono fewer

theorem spares_pure (value : α) : Spares listed (pure value : Script Activation α) := by
  intro activation left ends
  cases ends
  apply Frame.sameAroundBut_refl

theorem spares_raise (error : ScriptError) :
    Spares listed (raise error : Script Activation α) := by
  intro activation left ends
  cases ends
  apply Frame.sameAroundBut_refl

theorem spares_ofAttempt (attempt : Attempt α) :
    Spares listed (ofAttempt attempt : Script Activation α) := by
  cases attempt with
  | ok value => exact spares_pure value
  | error error => exact spares_raise error

theorem spares_endless : Spares listed (endless : Script Activation α) := by
  intro activation left ends
  cases ends

theorem spares_bind {script : Script Activation α} {next : α → Script Activation β}
    (first : Spares listed script) (rest : ∀ value, Spares listed (next value)) :
    Spares listed (script >>= next) := by
  intro activation left ends
  rcases ends_bind ends with ⟨value, middle, ran, endsRest⟩ | ⟨error, failed⟩
  · apply (first activation middle (by rw [ran]; rfl)).trans
    exact rest value middle left endsRest
  · exact first activation left (by rw [failed]; rfl)

/-- What is computed on the world leaves the frame as it is. -/
theorem frame_onWorld {script : Frame → Script World α} {activation left : Activation}
    (ends : (onWorld script activation).state? = some left) : left.frame = activation.frame := by
  cases ran : script activation.frame activation.world <;> simp only [onWorld, ran] at ends <;>
    cases ends <;> rfl

theorem spares_onWorld (script : Frame → Script World α) : Spares listed (onWorld script) := by
  intro activation left ends
  rw [frame_onWorld ends]
  apply Frame.sameAroundBut_refl

theorem spares_changeFrame {change : Frame → Frame}
    (same : ∀ frame : Frame, frame.SameAroundBut listed (change frame)) :
    Spares listed (changeFrame change) := by
  intro activation left ends
  cases ends
  exact same activation.frame

theorem spares_define (name : String) (value : Value) :
    Spares listed (changeFrame (·.define name value)) :=
  spares_changeFrame fun frame => ⟨rfl, scopesSameBut_refl frame.outer⟩

theorem spares_assign (name : String) (value : Value) :
    Spares [name] (changeFrame (·.assign name value)) :=
  spares_changeFrame fun frame => (frame.sameBut_assign name value).around

theorem sparesAll_withScope {script : Script Activation α} (spared : Spares listed script) :
    SparesAll listed (withScope script) := by
  intro activation left ends
  rcases ends_bind ends with ⟨_, pushed, entered, endsRest⟩ | ⟨error, failed⟩
  · cases entered
    obtain ⟨inside, reached, rfl⟩ := ends_andThen endsRest
    apply Frame.SameAroundBut.pop
    exact spared _ inside reached
  · cases failed

theorem spares_withScope {script : Script Activation α} (spared : Spares listed script) :
    Spares listed (withScope script) :=
  (sparesAll_withScope spared).spares

theorem spares_writePlace (place : Place) (value : Value) :
    Spares place.root.locals (writePlace place value) := by
  obtain ⟨root, fields⟩ := place
  cases root with
  | this =>
      cases fields with
      | nil => apply spares_raise
      | cons field rest =>
          apply spares_bind (spares_onWorld _)
          intro updated
          apply spares_pure
  | ident name =>
      cases fields with
      | nil =>
          apply spares_bind (spares_onWorld _)
          intro old
          apply spares_assign
      | cons field rest =>
          apply spares_bind (spares_onWorld _)
          intro updated
          apply spares_assign

theorem spares_countRounds {body : Float → Script Activation Unit} (bound : Float)
    (spared : ∀ count, Spares listed (body count)) :
    ∀ rounds counter, Spares listed (countRounds body bound rounds counter)
  | 0, _ => spares_endless
  | rounds + 1, counter => by
      by_cases below : counter < bound
      · rw [countRounds, if_pos below]
        apply spares_bind (spared counter)
        intro _
        exact spares_countRounds bound spared rounds (counter + 1)
      · rw [countRounds, if_neg below]
        apply spares_pure

end Script

section Statements

variable (calls : Calls)

/-- However evaluation ends, the frame is the one that it was handed. -/
theorem frame_evaluate {expr : Expr} {activation left : Activation}
    (ends : (evaluate calls expr activation).state? = some left) :
    left.frame = activation.frame := by
  rw [evaluate_eq] at ends
  exact frame_onWorld ends

theorem spares_evaluate {listed : List String} (expr : Expr) :
    Spares listed (evaluate calls expr) := by
  intro activation left ends
  rw [frame_evaluate calls ends]
  apply Frame.sameAroundBut_refl

mutual

theorem spares_exec : ∀ stmt, Spares stmt.assigned (exec calls stmt)
  | .define name value _ => by
      rw [exec]
      apply spares_bind (spares_evaluate calls value)
      intro value
      apply spares_define
  | .assign target op value _ => by
      rw [exec, Stmt.assigned]
      apply spares_bind (spares_evaluate calls value)
      intro value
      split
      · apply spares_writePlace
      · apply spares_bind (spares_onWorld _)
        intro current
        apply spares_bind (spares_ofAttempt _)
        intro combined
        apply spares_writePlace
  | .expr value => by
      rw [exec]
      apply spares_bind (spares_evaluate calls value)
      intro _
      apply spares_pure
  | .choice branches none _ => by
      rw [exec, Stmt.assigned]
      apply spares_bind (spares_execBranches branches)
      intro _
      apply spares_pure
  | .choice branches (some otherwise) _ => by
      rw [exec, Stmt.assigned]
      apply spares_bind ((spares_execBranches branches).mono (List.subset_append_left _ _))
      intro taken
      by_cases found : taken = true
      · rw [if_pos found]
        apply spares_pure
      · rw [if_neg found]
        apply spares_withScope
        exact (spares_execAll otherwise).mono (List.subset_append_right _ _)
  | .loop counter start bound body _ => by
      rw [exec, Stmt.assigned]
      apply spares_bind (spares_evaluate calls start)
      intro start
      apply spares_bind (spares_ofAttempt _)
      intro first
      apply spares_bind (spares_evaluate calls bound)
      intro bound
      apply spares_bind (spares_ofAttempt _)
      intro last
      apply spares_countRounds
      intro count
      apply spares_withScope
      apply spares_bind (spares_define counter _)
      intro _
      exact spares_withScope (spares_execAll body)

theorem spares_execAll : ∀ stmts, Spares (assignedIn stmts) (execAll calls stmts)
  | [] => by
      rw [execAll]
      apply spares_pure
  | stmt :: rest => by
      rw [execAll, assignedIn]
      apply spares_bind ((spares_exec stmt).mono (List.subset_append_left _ _))
      intro _
      exact (spares_execAll rest).mono (List.subset_append_right _ _)

theorem spares_execBranches :
    ∀ branches, Spares (assignedInBranches branches) (execBranches calls branches)
  | [] => by
      rw [execBranches]
      apply spares_pure
  | (condition, body) :: rest => by
      rw [execBranches, assignedInBranches]
      apply spares_bind (spares_evaluate calls condition)
      intro condition
      by_cases holds : condition.holds = true
      · rw [if_pos holds]
        apply spares_bind
        · apply spares_withScope
          exact (spares_execAll body).mono (List.subset_append_left _ _)
        · intro _
          apply spares_pure
      · rw [if_neg holds]
        exact (spares_execBranches rest).mono (List.subset_append_right _ _)

end

variable (stmts : List Stmt) (frame : Frame) (world : World)

/-- However a block ends, the frame has the same receiver and as many scopes, which have the names
they had; only names that the block assigns to may stand for other values.  However the evaluation
of an expression ends, the frame is what it was. -/
theorem scopes_restored :
    (∀ left, (execBlock calls stmts ⟨frame, world⟩).state? = some left →
      frame.SameBut (assignedIn stmts) left.frame) ∧
    ∀ expr left, (evaluate calls expr ⟨frame, world⟩).state? = some left →
      left.frame = frame := by
  constructor
  · intro left ends
    exact sparesAll_withScope (spares_execAll calls stmts) _ left ends
  · intro expr left ends
    exact frame_evaluate calls ends

end Statements

/-- A block that hides a local, assigns to another one and fails in a branch. -/
def breakingBlock : List Stmt :=
  [.define "hidden" (.text "inner" .none) .none,
    .assign ⟨.ident "shared", []⟩ .set (.text "new" .none) .none,
    .choice [(.bool true .none, [.define "branch" (.bool true .none) .none, .expr (.this .none)])]
      none .none]

def Frame.ofHiddenAndShared (shared : String) : Frame :=
  ((Frame.of none).define "hidden" (.text "outer")).define "shared" (.text shared)

/-- The failure in the branch leaves the frame with the value that was assigned before, and to
evaluate what fails changes nothing. -/
theorem breakingBlock_restored :
    let world := World.initial .default false
    ∃ error left failed,
      execBlock world.calls breakingBlock ⟨.ofHiddenAndShared "old", world⟩ = .raised error left ∧
      (Frame.ofHiddenAndShared "old").SameBut ["shared"] left.frame ∧
      left.frame = .ofHiddenAndShared "new" ∧
      evaluate world.calls (.this .none) left = .raised error failed ∧
      failed.frame = left.frame := by
  let world := World.initial .default false
  have ran : execBlock world.calls breakingBlock ⟨.ofHiddenAndShared "old", world⟩ =
      .raised .thisOutsideEntity ⟨.ofHiddenAndShared "new", world⟩ := rfl
  refine ⟨_, _, ⟨.ofHiddenAndShared "new", world⟩, ran, ?_, rfl, rfl, ?_⟩
  · apply (scopes_restored world.calls breakingBlock (.ofHiddenAndShared "old") world).1
    rw [ran]
    rfl
  · apply (scopes_restored world.calls [] (.ofHiddenAndShared "new") world).2 (.this .none)
    rfl

end EntityScript
