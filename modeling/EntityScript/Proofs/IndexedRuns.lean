import EntityScript.Block.Indexed
import EntityScript.Proofs.BlockRules

/-!
Reading by index against reading from the front of a list.  What a reader is given are the lexemes
from the place on, so that a run follows a reading when it comes to what was read and to the place
from which on the rest stands.  As the last lexeme is never read, the place is always that of a
lexeme, and a rest that is shorter is one further on.
-/

namespace EntityScript

/-- The end of the text stands behind the other lexemes, and nowhere else. -/
def EndsOnce (lexemes : List Lexeme) : Prop :=
  ∃ others last, lexemes = others ++ [last] ∧ last.token = .eof ∧
    ∀ lexeme ∈ others, lexeme.token ≠ .eof

theorem not_endsOnce_nil : ¬EndsOnce [] := by
  rintro ⟨others, last, same, _⟩
  simp at same

theorem endsOnce_cons {lexeme : Lexeme} {rest : List Lexeme} :
    EndsOnce (lexeme :: rest) ↔
      lexeme.token = .eof ∧ rest = [] ∨ lexeme.token ≠ .eof ∧ EndsOnce rest := by
  constructor
  · rintro ⟨others, last, same, ends, inside⟩
    cases others with
    | nil =>
        obtain ⟨rfl, rfl⟩ := List.cons.inj same
        exact .inl ⟨ends, rfl⟩
    | cons first others =>
        obtain ⟨rfl, rfl⟩ := List.cons.inj same
        obtain ⟨here, inside⟩ := List.forall_mem_cons.mp inside
        exact .inr ⟨here, others, last, rfl, ends, inside⟩
  · rintro (⟨ends, rfl⟩ | ⟨here, others, last, rfl, ends, inside⟩)
    · exact ⟨[], lexeme, rfl, ends, List.forall_mem_nil _⟩
    · exact ⟨lexeme :: others, last, rfl, ends, List.forall_mem_cons.mpr ⟨here, inside⟩⟩

namespace Indexed

open Source (Span)

/-! ### Runs, one behind the other -/

section Runs

variable {α β : Type} {place next : Nat}

theorem bind_eq {first : Run β} {later : β → Run α} {value : β}
    (comes : first place = .ok (value, next)) : (first >>= later) place = later value next := by
  change first place >>= _ = _
  rw [comes]
  rfl

theorem bind_stops {first : Run β} {later : β → Run α} {halt : Halt}
    (stops : first place = .error halt) : (first >>= later) place = .error halt := by
  change first place >>= _ = _
  rw [stops]
  rfl

end Runs

/-! ### What is left from a place on -/

/-- The lexemes from the place on. -/
structure Rests (lexemes : List Lexeme) (place : Nat) (rest : List Lexeme) : Prop where
  drop : lexemes.drop place = rest
  ended : EndsOnce rest

section Rests

variable {lexemes rest : List Lexeme} {place : Nat}

theorem Rests.exists_cons (stands : Rests lexemes place rest) :
    ∃ lexeme more, rest = lexeme :: more := by
  cases rest with
  | nil => exact absurd stands.ended not_endsOnce_nil
  | cons lexeme more => exact ⟨lexeme, more, rfl⟩

theorem Rests.total (stands : Rests lexemes place rest) :
    place + rest.length = lexemes.length ∧ place < lexemes.length := by
  obtain ⟨lexeme, more, rfl⟩ := stands.exists_cons
  have count := congrArg List.length stands.drop
  rw [List.length_drop, List.length_cons] at count
  rw [List.length_cons]
  omega

theorem Rests.getElem?_eq (stands : Rests lexemes place rest) : lexemes[place]? = rest.head? := by
  rw [← stands.drop, List.head?_drop]

theorem Rests.behind {lexeme : Lexeme} (stands : Rests lexemes place (lexeme :: rest))
    (inside : lexeme.token ≠ .eof) : Rests lexemes (place + 1) rest := by
  refine ⟨?_, ((endsOnce_cons.mp stands.ended).resolve_left fun ends => inside ends.1).2⟩
  rw [← List.drop_drop, stands.drop, List.drop_one, List.tail_cons]

theorem Rests.peek_eq (stands : Rests lexemes place rest) :
    peek lexemes place = .ok (nextToken rest, place) := by
  obtain ⟨lexeme, more, rfl⟩ := stands.exists_cons
  change Except.ok ((lexemes[place]?.map Lexeme.token).getD .eof, place) = _
  rw [stands.getElem?_eq]
  rfl

theorem Rests.position_eq (stands : Rests lexemes place rest) :
    position lexemes place = .ok (nextSpan rest, place) := by
  obtain ⟨lexeme, more, rfl⟩ := stands.exists_cons
  change Except.ok ((lexemes[place]?.map Lexeme.span).getD .none, place) = _
  rw [stands.getElem?_eq]
  rfl

theorem Rests.advance_eq {lexeme : Lexeme} (stands : Rests lexemes place (lexeme :: rest))
    (inside : lexeme.token ≠ .eof) : advance lexemes place = .ok (lexeme, place + 1) := by
  have further := (stands.behind inside).total
  rw [advance, stands.getElem?_eq]
  simp only [List.head?_cons]
  rw [if_pos (by omega)]

theorem Rests.refuse_eq {α : Type} (stands : Rests lexemes place rest)
    (problem : StructureProblem) :
    (refuse lexemes problem : Run α) place =
      .error (.refused ⟨.structural problem, nextSpan rest⟩) := bind_eq stands.position_eq

theorem Rests.lt_of_length_lt {next : Nat} {more : List Lexeme} (stands : Rests lexemes place rest)
    (further : Rests lexemes next more) (fewer : more.length < rest.length) : place < next := by
  have total := stands.total
  have total' := further.total
  omega

theorem Rests.beyond_eq {α : Type} {start : Nat} {run : Run α} (stands : Rests lexemes place rest)
    (behind : start < place) : beyond lexemes start run place = run place :=
  if_pos ⟨behind, stands.total.2⟩

end Rests

/-! ### Loops -/

/-- What comes behind a turn that was taken from the place on. -/
def goOn {σ α : Type} (lexemes : List Lexeme) (turn : σ → Run (σ ⊕ α)) (start : Nat) :
    σ ⊕ α → Run α
  | .inl state => beyond lexemes start (iterate lexemes turn state)
  | .inr result => pure result

theorem iterate_eq {σ α : Type} (lexemes : List Lexeme) (turn : σ → Run (σ ⊕ α)) (state : σ)
    (start : Nat) :
    iterate lexemes turn state start = (turn state >>= goOn lexemes turn start) start := by
  rw [iterate]
  cases taken : turn state start with
  | error halt => exact (bind_stops taken).symm
  | ok end_ =>
      obtain ⟨left, place⟩ := end_
      rw [bind_eq taken]
      cases left <;> rfl

/-- A loop goes on from where a turn has come to. -/
theorem Rests.goOn_eq {σ α : Type} {turn : σ → Run (σ ⊕ α)} {state : σ}
    {lexemes rest more : List Lexeme} {start place : Nat} (stands : Rests lexemes start rest)
    (further : Rests lexemes place more) (fewer : more.length < rest.length) :
    goOn lexemes turn start (.inl state) place = iterate lexemes turn state place :=
  further.beyond_eq (stands.lt_of_length_lt further fewer)

/-! ### Runs and readings -/

/-- The run is refused where the reading is, with the same diagnostic.  Otherwise it comes to a
value and a place that go with what was read. -/
def ComesTo {α β : Type} (goes : β → α → Nat → Prop) (run : Except Halt (α × Nat)) :
    Reading β → Prop
  | .error diagnostic => run = .error (.refused diagnostic)
  | .ok found => ∃ value place, run = .ok (value, place) ∧ goes found value place

theorem ComesTo.bind {α α' β β' : Type} {goes : β → α → Nat → Prop}
    {goes' : β' → α' → Nat → Prop} {first : Run α} {later : α → Run α'} {reading : Reading β}
    {further : β → Reading β'} {place : Nat}
    (comes : ComesTo goes (first place) reading)
    (next : ∀ found value place, goes found value place →
      ComesTo goes' (later value place) (further found)) :
    ComesTo goes' ((first >>= later) place) (reading >>= further) := by
  cases reading with
  | error diagnostic => exact bind_stops comes
  | ok found =>
      obtain ⟨value, middle, comes, goes⟩ := comes
      rw [bind_eq comes]
      exact next found value middle goes

theorem ComesTo.map {α β β' : Type} {goes : β → α → Nat → Prop} {goes' : β' → α → Nat → Prop}
    {run : Except Halt (α × Nat)} {reading : Reading β} {change : β → β'}
    (comes : ComesTo goes run reading)
    (same : ∀ found value place, goes found value place → goes' (change found) value place) :
    ComesTo goes' run (reading >>= fun found => pure (change found)) := by
  cases reading with
  | error diagnostic => exact comes
  | ok found =>
      obtain ⟨value, place, comes, goes⟩ := comes
      exact ⟨value, place, comes, same found value place goes⟩

/-- The run comes to what was read, as the view shows it, and to the place from which on the rest of
the reading stands. -/
def Follows {α β : Type} {bound : Nat} (lexemes : List Lexeme) (view : β → α)
    (run : Except Halt (α × Nat)) (reading : Reading (Remaining Lexeme bound β)) : Prop :=
  ComesTo (fun remaining value place => value = view remaining.value ∧
    Rests lexemes place remaining.rest) run reading

section Follows

variable {α α' β β' : Type} {bound bound' : Nat} {lexemes rest : List Lexeme} {place : Nat}
  {view : β → α} {view' : β' → α'}

theorem Follows.comesTo {goes : β' → α' → Nat → Prop} {first : Run α} {later : α → Run α'}
    {reading : Reading (Remaining Lexeme bound β)}
    {further : Remaining Lexeme bound β → Reading β'}
    (follows : Follows lexemes view (first place) reading)
    (next : ∀ found rest within place, Rests lexemes place rest →
      ComesTo goes (later (view found) place) (further ⟨found, rest, within⟩)) :
    ComesTo goes ((first >>= later) place) (reading >>= further) := by
  refine ComesTo.bind follows ?_
  rintro ⟨found, rest, within⟩ _ place ⟨rfl, stands⟩
  exact next found rest within place stands

theorem Follows.bind {first : Run α} {later : α → Run α'}
    {reading : Reading (Remaining Lexeme bound β)}
    {further : Remaining Lexeme bound β → Reading (Remaining Lexeme bound' β')}
    (follows : Follows lexemes view (first place) reading)
    (next : ∀ found rest within place, Rests lexemes place rest →
      Follows lexemes view' (later (view found) place) (further ⟨found, rest, within⟩)) :
    Follows lexemes view' ((first >>= later) place) (reading >>= further) := follows.comesTo next

theorem follows_pure {remaining : Remaining Lexeme bound β} {value : α}
    (stands : Rests lexemes place remaining.rest) (same : value = view remaining.value) :
    Follows lexemes view ((pure value : Run α) place) (.ok remaining) :=
  ⟨value, place, rfl, same, stands⟩

theorem Follows.map {run : Except Halt (α × Nat)} {reading : Reading (Remaining Lexeme bound β)}
    {change : Remaining Lexeme bound β → Remaining Lexeme bound' β'} {view' : β' → α}
    (follows : Follows lexemes view run reading)
    (same : ∀ r, view r.value = view' (change r).value ∧ r.rest = (change r).rest) :
    Follows lexemes view' run (reading >>= fun r => pure (change r)) := by
  refine ComesTo.map follows ?_
  rintro remaining _ place ⟨rfl, stands⟩
  exact ⟨(same remaining).1, (same remaining).2 ▸ stands⟩

theorem Follows.viewed {run : Run α} {reading : Reading (Remaining Lexeme bound β)}
    {show_ : α → α'} (follows : Follows lexemes view (run place) reading) :
    Follows lexemes (fun found => show_ (view found))
      ((run >>= fun value => pure (show_ value)) place) reading := by
  cases reading with
  | error diagnostic => exact bind_stops follows
  | ok remaining =>
      obtain ⟨value, next, comes, rfl, stands⟩ := follows
      rw [bind_eq comes]
      exact follows_pure stands rfl

theorem Rests.follows_refuse (stands : Rests lexemes place rest) (problem : StructureProblem) :
    Follows lexemes view (refuse lexemes problem place)
      (misplaced problem rest : Reading (Remaining Lexeme bound β)) :=
  stands.refuse_eq problem

end Follows

/-! ### Single tokens -/

section Tokens

variable {lexemes rest : List Lexeme} {place : Nat}

theorem Rests.take_eq {wanted : Token} {lexeme : Lexeme}
    (stands : Rests lexemes place (lexeme :: rest)) (inside : lexeme.token ≠ .eof)
    (found : lexeme.token = wanted) :
    take lexemes wanted place = .ok (lexeme.span, place + 1) := by
  rw [take, bind_eq stands.peek_eq, nextToken_cons, if_pos found,
    bind_eq (stands.advance_eq inside)]
  rfl

theorem Rests.takeWord_eq {word : String} {lexeme : Lexeme}
    (stands : Rests lexemes place (lexeme :: rest)) (found : lexeme.token = .name word) :
    takeWord lexemes word place = .ok (lexeme.span, place + 1) := by
  have inside : lexeme.token ≠ .eof := by simp [found]
  rw [takeWord, bind_eq stands.peek_eq, nextToken_cons, if_pos found,
    bind_eq (stands.advance_eq inside)]
  rfl

theorem follows_take {wanted : Token} (inside : wanted ≠ .eof)
    (stands : Rests lexemes place rest) :
    Follows lexemes id (take lexemes wanted place) (expect wanted rest) := by
  obtain ⟨lexeme, more, rfl⟩ := stands.exists_cons
  rw [expect]
  split
  next found =>
    have inside : lexeme.token ≠ .eof := found ▸ inside
    rw [stands.take_eq inside found]
    exact follows_pure (stands.behind inside) rfl
  next other =>
    rw [take, bind_eq stands.peek_eq, nextToken_cons, if_neg other]
    exact stands.follows_refuse _

theorem follows_takeWord {word : String} (stands : Rests lexemes place rest) :
    Follows lexemes id (takeWord lexemes word place) (expectWord word rest) := by
  obtain ⟨lexeme, more, rfl⟩ := stands.exists_cons
  rw [expectWord]
  split
  next found =>
    rw [stands.takeWord_eq found]
    exact follows_pure (stands.behind (by simp [found])) rfl
  next other =>
    rw [takeWord, bind_eq stands.peek_eq, nextToken_cons, if_neg other]
    exact stands.follows_refuse _

theorem follows_takeName (stands : Rests lexemes place rest) :
    Follows lexemes id (takeName lexemes place) (expectName rest) := by
  obtain ⟨lexeme, more, rfl⟩ := stands.exists_cons
  rw [takeName, bind_eq stands.peek_eq, nextToken_cons, expectName]
  by_cases named : ∃ word, lexeme.token = .name word
  · obtain ⟨word, found⟩ := named
    have inside : lexeme.token ≠ .eof := by simp [found]
    simp only [found]
    rw [bind_eq (stands.advance_eq inside)]
    exact follows_pure (stands.behind inside) rfl
  · have other := not_exists.mp named
    simp only
    exact stands.follows_refuse _

theorem follows_takeEnd {block : BlockKind} {opener : Span} (stands : Rests lexemes place rest) :
    Follows lexemes id (takeEnd lexemes block opener place) (expectEnd block opener rest) := by
  obtain ⟨lexeme, more, rfl⟩ := stands.exists_cons
  rw [takeEnd, bind_eq stands.peek_eq, nextToken_cons, expectEnd]
  by_cases found : lexeme.token = .kwEnd
  · have inside : lexeme.token ≠ .eof := by simp [found]
    simp only [found]
    rw [bind_eq (stands.advance_eq inside)]
    exact follows_pure (stands.behind inside) rfl
  by_cases last : lexeme.token = .eof
  · simp only [last]
    exact stands.follows_refuse _
  · simp only
    exact stands.follows_refuse _

end Tokens

/-! ### What means nothing -/

section Nothing

variable {lexemes rest : List Lexeme} {place : Nat}

theorem exists_passTerminators (stands : Rests lexemes place rest) :
    ∃ next, passTerminators lexemes place = .ok ((), next) ∧
      Rests lexemes next (skipTerminators rest) := by
  induction rest generalizing place with
  | nil => exact absurd stands.ended not_endsOnce_nil
  | cons lexeme more inductionHypothesis =>
      rw [passTerminators, iterate_eq, terminatorTurn, bind_assoc, bind_eq stands.peek_eq,
        nextToken_cons, skipTerminators]
      split
      next terminates =>
        have inside : lexeme.token ≠ .eof := by
          intro ends
          rw [ends] at terminates
          cases terminates <;> contradiction
        have further := stands.behind inside
        rw [bind_assoc, bind_eq (stands.advance_eq inside), pure_bind,
          stands.goOn_eq further (Nat.lt_succ_self _)]
        exact inductionHypothesis further
      next => exact ⟨place, rfl, stands⟩

theorem follows_passAnnotations (stands : Rests lexemes place rest) :
    Follows lexemes id (passAnnotations lexemes place) (skipAnnotations rest) := by
  induction rest using skipAnnotations.induct generalizing place with
  | case1 => exact absurd stands.ended not_endsOnce_nil
  | case2 lexeme more measure found inductionHypothesis =>
      have inside : lexeme.token ≠ .eof := by simp [found]
      have further := stands.behind inside
      rw [passAnnotations, iterate_eq, annotationTurn, bind_assoc, bind_eq stands.peek_eq,
        nextToken_cons, skipAnnotations]
      simp only [found]
      rw [bind_assoc, bind_eq (stands.advance_eq inside), pure_bind,
        stands.goOn_eq further (Nat.lt_succ_self _)]
      exact (inductionHypothesis further).map fun _ => ⟨rfl, rfl⟩
  | case3 lexeme more found inductionHypothesis =>
      have inside : lexeme.token ≠ .eof := by simp [found]
      have further := stands.behind inside
      rw [passAnnotations, iterate_eq, annotationTurn, bind_assoc, bind_eq stands.peek_eq,
        nextToken_cons, skipAnnotations]
      simp only [found]
      rw [bind_assoc, bind_eq (stands.advance_eq inside), bind_assoc]
      refine (follows_takeName further).bind fun name rest within next named => ?_
      rw [pure_bind, stands.goOn_eq named (Nat.lt_succ_of_lt within)]
      exact (inductionHypothesis ⟨name, rest, within⟩ named).map fun _ => ⟨rfl, rfl⟩
  | case4 =>
      rw [passAnnotations, iterate_eq, annotationTurn, bind_assoc, bind_eq stands.peek_eq,
        nextToken_cons, skipAnnotations]
      simp only
      exact follows_pure stands rfl

end Nothing

/-! ### Payloads -/

section Payloads

variable {lexemes rest : List Lexeme} {place : Nat}

/-- A payload goes up to the first token that does not belong to it, and that token decides whether
it is refused. -/
theorem exists_gathered {judge : Nat → Token → Verdict} {ends : Nat → Token → Bool}
    (same : ∀ depth token, judge depth token = .belongs ↔ ends depth token = false)
    (last : ∀ depth, ends depth .eof = true) {part behind : List Lexeme} {depth : Nat}
    (stands : Rests lexemes place rest) (split : splitPayload ends depth rest = (part, behind))
    (taken : List Lexeme) :
    ∃ depth' next, Rests lexemes next behind ∧
      (judge depth' (nextToken behind) = .ends ∧
          iterate lexemes (payloadTurn lexemes judge) (taken, depth) place =
            .ok (taken ++ part, next) ∨
        ∃ problem, judge depth' (nextToken behind) = .refused problem ∧
          iterate lexemes (payloadTurn lexemes judge) (taken, depth) place =
            .error (.refused ⟨.structural problem, nextSpan behind⟩)) := by
  induction rest generalizing place depth taken part with
  | nil => exact absurd stands.ended not_endsOnce_nil
  | cons lexeme more inductionHypothesis =>
      rw [iterate_eq, payloadTurn, bind_assoc, bind_eq stands.peek_eq, nextToken_cons]
      rw [splitPayload] at split
      split at split
      next ended =>
        obtain ⟨rfl, rfl⟩ := Prod.mk.inj split
        refine ⟨depth, place, stands, ?_⟩
        rw [nextToken_cons]
        cases verdict : judge depth lexeme.token with
        | belongs =>
            rw [(same depth lexeme.token).mp verdict] at ended
            cases ended
        | ends => exact .inl ⟨rfl, by rw [List.append_nil]; rfl⟩
        | refused problem => exact .inr ⟨problem, rfl, bind_stops (stands.refuse_eq problem)⟩
      next belongs =>
        have belongs : ends depth lexeme.token = false := eq_false_of_ne_true belongs
        have inside : lexeme.token ≠ .eof := by
          intro found
          rw [found, last] at belongs
          cases belongs
        have further := stands.behind inside
        obtain ⟨rfl, rfl⟩ := Prod.mk.inj split
        rw [(same depth lexeme.token).mpr belongs]
        dsimp only
        rw [bind_assoc, bind_eq (stands.advance_eq inside), pure_bind,
          stands.goOn_eq further (Nat.lt_succ_self _),
          List.append_cons taken lexeme (splitPayload ends _ more).1]
        exact inductionHypothesis further rfl (taken ++ [lexeme])

/-- What a payload is made of once its lexemes are gathered. -/
theorem exists_collected {judge : Nat → Token → Verdict} {ends : Nat → Token → Bool}
    (same : ∀ depth token, judge depth token = .belongs ↔ ends depth token = false)
    (last : ∀ depth, ends depth .eof = true) {part behind : List Lexeme}
    (stands : Rests lexemes place rest) (split : splitPayload ends 0 rest = (part, behind))
    (kind : PayloadKind) (position : Span) :
    ∃ depth next, Rests lexemes next behind ∧
      (judge depth (nextToken behind) = .ends ∧
          collect lexemes judge kind position place = payloadOf kind position part next ∨
        ∃ problem, judge depth (nextToken behind) = .refused problem ∧
          collect lexemes judge kind position place =
            .error (.refused ⟨.structural problem, nextSpan behind⟩)) := by
  obtain ⟨depth, next, stands', outcome⟩ := exists_gathered same last stands split []
  refine ⟨depth, next, stands', outcome.imp ?_ ?_⟩
  · rintro ⟨ended, gathered⟩
    exact ⟨ended, bind_eq gathered⟩
  · rintro ⟨problem, verdict, stops⟩
    exact ⟨problem, verdict, bind_stops stops⟩

theorem takePayload_of_nil {ends : Nat → Token → Bool} {behind : List Lexeme}
    (split : splitPayload ends 0 rest = ([], behind)) :
    takePayload ends rest = none ∧ behind = rest :=
  ⟨takePayload_eq_none.mpr (by rw [split]), by simpa [split] using append_splitPayload ends 0 rest⟩

theorem judgeBefore_belongs (stop : Token) (kind : PayloadKind) (depth : Nat) (token : Token) :
    judgeBefore stop kind depth token = .belongs ↔ endsBefore stop depth token = false := by
  unfold judgeBefore endsBefore
  grind

theorem judgeStatement_belongs (depth : Nat) (token : Token) :
    judgeStatement depth token = .belongs ↔ endsStatementText depth token = false := by
  unfold judgeStatement endsStatementText
  grind

theorem judgeInitializer_belongs (depth : Nat) (token : Token) :
    judgeInitializer depth token = .belongs ↔ endsInitializer depth token = false := by
  unfold judgeInitializer endsInitializer
  grind

theorem judgeBefore_ends {stop : Token} {kind : PayloadKind} {depth : Nat} {token : Token}
    (verdict : judgeBefore stop kind depth token = .ends) : token = stop := by
  unfold judgeBefore at verdict
  grind

theorem judgeBefore_refused {stop : Token} (stops : stop.endsStatement = false) {kind : PayloadKind}
    {depth : Nat} {token : Token} {problem : StructureProblem}
    (verdict : judgeBefore stop kind depth token = .refused problem) :
    problem = .expectedAfter stop kind ∧ token ≠ stop := by
  unfold judgeBefore at verdict
  grind

theorem follows_collectUntil {stop : Token} (stops : stop.endsStatement = false)
    {kind : PayloadKind} (stands : Rests lexemes place rest) :
    Follows lexemes id (collectUntil lexemes stop kind place) (payloadUntil stop kind rest) := by
  have ends : (fun (depth : Nat) (token : Token) =>
      (depth = 0 && token = stop) || token.endsStatement) = endsBefore stop := rfl
  have last (depth : Nat) : endsBefore stop depth .eof = true := by
    simp [endsBefore, Token.endsStatement]
  rcases split : splitPayload (endsBefore stop) 0 rest with ⟨part, behind⟩
  obtain ⟨depth, next, stands', outcome⟩ := exists_collected (judgeBefore_belongs stop kind) last
    stands split kind (nextSpan rest)
  rw [collectUntil, bind_eq stands.position_eq, payloadUntil, ends]
  cases part with
  | nil =>
      obtain ⟨none_, rfl⟩ := takePayload_of_nil split
      rw [none_]
      rcases outcome with ⟨verdict, collected⟩ | ⟨problem, verdict, stopped⟩
      · dsimp only
        rw [if_pos (judgeBefore_ends verdict)]
        exact bind_stops collected
      · obtain ⟨rfl, other⟩ := judgeBefore_refused stops verdict
        dsimp only
        rw [if_neg other]
        exact bind_stops stopped
  | cons first more =>
      obtain ⟨within, taken⟩ := takePayload_eq_some split
      obtain ⟨lexeme, more', rfl⟩ := stands'.exists_cons
      rw [taken]
      rcases outcome with ⟨verdict, collected⟩ | ⟨problem, verdict, stopped⟩
      · have found : lexeme.token = stop := judgeBefore_ends verdict
        have inside : lexeme.token ≠ .eof := by
          rintro ends
          rw [← found, ends] at stops
          cases stops
        rw [bind_eq collected, bind_eq (stands'.advance_eq inside)]
        simp only [Remaining.relax, Remaining.next?]
        rw [if_pos found]
        exact follows_pure (stands'.behind inside) rfl
      · obtain ⟨rfl, other⟩ := judgeBefore_refused stops verdict
        rw [nextToken_cons] at other
        simp only [Remaining.relax, Remaining.next?]
        rw [if_neg other]
        exact bind_stops stopped

theorem judgeStatement_ends {depth : Nat} {token : Token}
    (verdict : judgeStatement depth token = .ends) : token.isStructural = false := by
  have plain : token.endsStatement = true → token.isStructural = false := by
    cases token <;> simp [Token.endsStatement, Token.isStructural]
  have closing : Token.isStructural .kwEnd = false ∧ Token.isStructural .kwElse = false :=
    ⟨rfl, rfl⟩
  unfold judgeStatement at verdict
  grind

theorem judgeStatement_refused {depth : Nat} {token : Token} {problem : StructureProblem}
    (verdict : judgeStatement depth token = .refused problem) :
    problem = .unexpectedInStatement token ∧ token.isStructural = true := by
  unfold judgeStatement at verdict
  grind

theorem follows_parseStatement (stands : Rests lexemes place rest) :
    Follows lexemes id (parseStatement lexemes place) (readStatement rest) := by
  have last (depth : Nat) : endsStatementText depth .eof = true := rfl
  rcases split : splitPayload endsStatementText 0 rest with ⟨part, behind⟩
  obtain ⟨depth, next, stands', outcome⟩ := exists_collected judgeStatement_belongs last stands
    split .statement (nextSpan rest)
  rw [parseStatement, bind_eq stands.position_eq, readStatement]
  cases part with
  | nil =>
      obtain ⟨none_, rfl⟩ := takePayload_of_nil split
      rw [none_]
      rcases outcome with ⟨verdict, collected⟩ | ⟨problem, verdict, stopped⟩
      · dsimp only
        rw [judgeStatement_ends verdict]
        exact collected
      · obtain ⟨rfl, structural⟩ := judgeStatement_refused verdict
        dsimp only
        rw [if_pos structural]
        exact stopped
  | cons first more =>
      obtain ⟨within, taken⟩ := takePayload_eq_some split
      rw [taken]
      rcases outcome with ⟨verdict, collected⟩ | ⟨problem, verdict, stopped⟩
      · dsimp only
        rw [judgeStatement_ends verdict, collected]
        exact follows_pure stands' rfl
      · obtain ⟨rfl, structural⟩ := judgeStatement_refused verdict
        dsimp only
        rw [if_pos structural]
        exact stopped

end Payloads

end Indexed

end EntityScript
