import Mathlib.Data.List.Forall2
import EntityScript.Proofs.Expressions
import EntityScript.Proofs.StuckCounters
import EntityScript.World.Operations

/-!
Counting loops.  The bounds are evaluated once, and the counter of a run does not depend on what
the runs before it did.  Between whole numbers up to `2^53` in magnitude a loop counts through all
of them; beyond that it counts in rounded steps of one, until the counter is stuck.
-/

namespace EntityScript

open Script

/-- The runs of a loop body, one for each count in order until one of them fails.  Each starts in a
scope of its own in which the counter is the count, and this scope is gone when it ends. -/
inductive Runs (calls : Calls) (counter : String) (body : List Stmt) :
    List Float → Activation → Outcome Activation Unit → Prop where
  | ended {activation} : Runs calls counter body [] activation (.returned () activation)
  | next {count rest frame world left outcome} :
      execBlock calls body ⟨frame.push.define counter (.number count), world⟩ =
        .returned () left →
      Runs calls counter body rest ⟨left.frame.pop, left.world⟩ outcome →
      Runs calls counter body (count :: rest) ⟨frame, world⟩ outcome
  | fails {count rest frame world error left} :
      execBlock calls body ⟨frame.push.define counter (.number count), world⟩ =
        .raised error left →
      Runs calls counter body (count :: rest) ⟨frame, world⟩
        (.raised error ⟨left.frame.pop, left.world⟩)
  | endless {count rest frame world} :
      execBlock calls body ⟨frame.push.define counter (.number count), world⟩ = .endless →
      Runs calls counter body (count :: rest) ⟨frame, world⟩ .endless

/-- So many counts, each the one before it and one. -/
def countsFrom (first : Float) : Nat → List Float
  | 0 => []
  | more + 1 => first :: countsFrom (first + 1) more

/-- One round of a loop. -/
def loopRound (calls : Calls) (counter : String) (body : List Stmt) (count : Float) :
    Script Activation Unit :=
  withScope do
    changeFrame (·.define counter (.number count))
    execBlock calls body

section Rounds

variable {calls : Calls} {counter : String} {body : List Stmt} {frame : Frame} {world : World}
variable {first bound count : Float} {a b : Int} {rounds : Nat}

theorem loopRound_eq (calls : Calls) (counter : String) (body : List Stmt) (count : Float)
    (frame : Frame) (world : World) :
    loopRound calls counter body count ⟨frame, world⟩ =
      match execBlock calls body ⟨frame.push.define counter (.number count), world⟩ with
      | .returned () left => .returned () ⟨left.frame.pop, left.world⟩
      | .raised error left => .raised error ⟨left.frame.pop, left.world⟩
      | .endless => .endless := by
  simp only [loopRound, withScope, bind_eq, changeFrame, Script.modify, andThen]
  cases execBlock calls body ⟨frame.push.define counter (.number count), world⟩ <;> rfl

theorem exec_loop {start end_ : Expr} {span : Source.Span} {middle after : World}
    (starts : eval calls frame start world = .returned (.number first) middle)
    (ends : eval calls frame end_ middle = .returned (.number bound) after) :
    exec calls (.loop counter start end_ body span) ⟨frame, world⟩ =
      countRounds (loopRound calls counter body) bound maxRounds first ⟨frame, after⟩ := by
  have numeric (number : Float) (activation : Activation) :
      ofAttempt (Value.number number).asNumber activation = .returned number activation := rfl
  rw [exec]
  simp only [bind_eq, evaluate_eq, onWorld, starts, ends, numeric]
  rfl

theorem countRounds_below {body : Float → Script Activation Unit} (below : count < bound) :
    countRounds body bound (rounds + 1) count =
      (do body count; countRounds body bound rounds (count + 1)) := by
  rw [countRounds, if_pos below]

theorem countRounds_beyond {body : Float → Script Activation Unit} (beyond : ¬count < bound) :
    countRounds body bound (rounds + 1) count = pure () := by
  rw [countRounds, if_neg beyond]

/-- Between whole numbers a loop counts through those from the first on, one after the other. -/
theorem runs_countRounds {count : Nat} (wholeFirst : Number.IsWhole first a)
    (wholeBound : Number.IsWhole bound b) (range : b ≤ a ∨ -2 ^ 53 ≤ a ∧ b ≤ 2 ^ 53)
    (many : count = (b - a).toNat) (enough : count < rounds) (activation : Activation) :
    Runs calls counter body (countsFrom first count) activation
      (countRounds (loopRound calls counter body) bound rounds first activation) := by
  obtain ⟨rounds, rfl⟩ := Nat.exists_eq_add_of_lt enough
  induction count generalizing first a activation with
  | zero =>
      have beyond : ¬first < bound := by
        rw [wholeFirst.lt_iff wholeBound]
        omega
      rw [countRounds_beyond beyond]
      exact .ended
  | succ count inductionHypothesis =>
      have below : first < bound := by
        rw [wholeFirst.lt_iff wholeBound]
        omega
      have further (left : Activation) := inductionHypothesis (wholeFirst.add_one (by omega))
        (by omega) (by omega) left (by omega)
      obtain ⟨frame, world⟩ := activation
      rw [show count + 1 + rounds + 1 = count + rounds + 1 + 1 by omega, countRounds_below below,
        bind_eq, loopRound_eq, countsFrom]
      cases ran : execBlock calls body ⟨frame.push.define counter (.number first), world⟩ with
      | returned _ left => exact .next ran (further _)
      | raised error left => exact .fails ran
      | endless => exact .endless ran

/-- A run that fails is the last one. -/
theorem countRounds_fails {count : Nat} {error : ScriptError} {activation left : Activation}
    (enough : count ≤ rounds) (below : ∀ number ∈ countsFrom first count, number < bound)
    (runs : Runs calls counter body (countsFrom first count) activation (.raised error left)) :
    countRounds (loopRound calls counter body) bound rounds first activation =
      .raised error left := by
  obtain ⟨rounds, rfl⟩ := Nat.exists_eq_add_of_le enough
  induction count generalizing first activation with
  | zero => cases runs
  | succ count inductionHypothesis =>
      obtain ⟨here, others⟩ := List.forall_mem_cons.mp below
      obtain ⟨frame, world⟩ := activation
      rw [show count + 1 + rounds = count + rounds + 1 by omega, countRounds_below here, bind_eq,
        loopRound_eq]
      cases runs with
      | next ran rest =>
          rw [ran]
          exact inductionHypothesis others rest (by omega)
      | fails ran => rw [ran]

/-- The whole numbers from one, inclusive, to another, exclusive. -/
def wholesFrom (a b : Int) : List Int :=
  (List.range (b - a).toNat).map fun offset : Nat => a + offset

theorem isWhole_countsFrom {count : Nat} (whole : Number.IsWhole first a)
    (range : -2 ^ 53 ≤ a) (last : a + count ≤ 2 ^ 53) :
    List.Forall₂ Number.IsWhole (countsFrom first count)
      ((List.range count).map fun offset : Nat => a + offset) := by
  induction count generalizing first a with
  | zero => exact .nil
  | succ count inductionHypothesis =>
      rw [List.range_succ_eq_map, List.map_cons, List.map_map]
      apply List.Forall₂.cons
      · simpa using whole
      · have behind := inductionHypothesis (whole.add_one (by omega)) (by omega) (by omega)
        have shifted : (fun offset : Nat => a + 1 + (offset : Int)) =
            (fun offset : Nat => a + (offset : Int)) ∘ Nat.succ := by
          funext offset
          simp only [Function.comp_apply]
          omega
        rwa [shifted] at behind

/-- Further out a loop cannot count through all whole numbers, as some are no numbers. -/
theorem exists_not_isWhole (wholeFirst : Number.IsWhole first a)
    (wholeBound : Number.IsWhole bound b) (less : a < b) (far : a < -2 ^ 53 ∨ 2 ^ 53 < b) :
    ∃ between ∈ wholesFrom a b, ∀ number, ¬Number.IsWhole number between := by
  have among (between : Int) (inside : a ≤ between ∧ between < b) : between ∈ wholesFrom a b := by
    refine List.mem_map.mpr ⟨(between - a).toNat, List.mem_range.mpr ?_, ?_⟩ <;> omega
  rcases far with low | high
  · have even := wholeFirst.even (by omega)
    have apart : b ≠ a + 1 := by
      rintro rfl
      have evenBound := wholeBound.even (by omega)
      omega
    refine ⟨a + 1, among _ (by omega), fun number whole => ?_⟩
    have evenNext := whole.even (by omega)
    omega
  · have even := wholeBound.even (by omega)
    refine ⟨b - 1, among _ (by omega), fun number whole => ?_⟩
    have evenLast := whole.even (by omega)
    omega

theorem countsFrom_add (first : Float) (some_ more : Nat) :
    countsFrom first (some_ + more) =
      countsFrom first some_ ++ countsFrom ((· + 1)^[some_] first) more := by
  induction some_ generalizing first with
  | zero => rw [Nat.zero_add]; rfl
  | succ some_ inductionHypothesis =>
      rw [Nat.add_right_comm, countsFrom, inductionHypothesis]
      rfl

theorem countsFrom_of_fixed (fixed : first + 1 = first) (more : Nat) :
    countsFrom first more = List.replicate more first := by
  induction more with
  | zero => rfl
  | succ more inductionHypothesis =>
      rw [countsFrom, fixed, inductionHypothesis]
      rfl

/-- A counter that is below its bound for all the rounds of a loop stays where it is then. -/
theorem countsFrom_stuck (whole : Number.IsWhole first a) :
    ∃ last, ∀ more, countsFrom first (maxRounds + more) =
      countsFrom first maxRounds ++ List.replicate more last := by
  have stuck : Number.StuckAfter maxRounds first := whole.stuckAfter.mono (by decide)
  exact ⟨_, fun more => by rw [countsFrom_add, countsFrom_of_fixed stuck]⟩

end Rounds

section Examples

/-- A frame with a tally and a limit. -/
def Frame.ofTally (tally limit : Float) : Frame :=
  ((Frame.of none).define "tally" (.number tally)).define "limit" (.number limit)

/-- Count the run, and change the counter and the limit. -/
def tallying : List Stmt :=
  [.assign ⟨.ident "tally", []⟩ .add (.number 1 .none) .none,
    .assign ⟨.ident "i", []⟩ .set (.number 10 .none) .none,
    .assign ⟨.ident "limit", []⟩ .set (.number 0 .none) .none]

/-- The number that is a whole number, if there is one. -/
def Number.ofWhole (n : Int) : Float := ofDyadic n 0 .positive

/-- A loop over literal bounds. -/
def Stmt.loopOver (a b : Int) (body : List Stmt) : Stmt :=
  .loop "i" (.number (Number.ofWhole a) .none) (.number (Number.ofWhole b) .none) body .none

end Examples

end EntityScript
