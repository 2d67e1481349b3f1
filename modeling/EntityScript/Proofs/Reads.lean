import EntityScript.Block.Lexemes

/-!
What readers read.  Readers carry bounds on their rests, so that they are seen to end; what is
said here of them is free of the bounds: that a reader succeeds with a value and leaves a rest.
-/

namespace EntityScript

section Readings

variable {α β : Type}

theorem bind_eq_ok {first : Reading β} {next : β → Reading α} {result : α} :
    first >>= next = .ok result ↔ ∃ value, first = .ok value ∧ next value = .ok result := by
  cases first with
  | error problem => simp [bind, Except.bind]
  | ok value => simp [bind, Except.bind]

theorem map_eq_ok {first : Reading β} {change : β → α} {result : α} :
    change <$> first = .ok result ↔ ∃ value, first = .ok value ∧ change value = result := by
  cases first with
  | error problem => simp [Functor.map, Except.map]
  | ok value => simp [Functor.map, Except.map]

theorem pure_eq_ok {value result : α} : (pure value : Reading α) = .ok result ↔ value = result := by
  simp [pure, Except.pure]

/-- Whatever comes of the reading is as it should be: the problem if it fails, the value if it
succeeds. -/
def Meets (fails : Diagnostic → Prop) (succeeds : α → Prop) : Reading α → Prop
  | .error diagnostic => fails diagnostic
  | .ok value => succeeds value

variable {fails : Diagnostic → Prop} {found : β → Prop} {succeeds : α → Prop}

theorem Meets.bind {first : Reading β} {next : β → Reading α} (meets : Meets fails found first)
    (later : ∀ value, found value → Meets fails succeeds (next value)) :
    Meets fails succeeds (first >>= next) := by
  cases first with
  | error diagnostic => exact meets
  | ok value => exact later value meets

theorem Meets.map {first : Reading β} {change : β → α} (meets : Meets fails found first)
    (later : ∀ value, found value → succeeds (change value)) :
    Meets fails succeeds (change <$> first) := by
  cases first with
  | error diagnostic => exact meets
  | ok value => exact later value meets

theorem Meets.of_ok {reading : Reading α} {value : α} (meets : Meets fails succeeds reading)
    (same : reading = .ok value) : succeeds value := by
  rw [same] at meets
  exact meets

theorem Meets.of_error {reading : Reading α} {diagnostic : Diagnostic}
    (meets : Meets fails succeeds reading) (same : reading = .error diagnostic) :
    fails diagnostic := by
  rw [same] at meets
  exact meets

theorem Meets.of_forall {reading : Reading α}
    (good : ∀ value, reading = .ok value → succeeds value) :
    Meets (fun _ => True) succeeds reading := by
  cases reading with
  | error diagnostic => trivial
  | ok value => exact good value rfl

theorem Meets.mono {fails' : Diagnostic → Prop} {succeeds' : α → Prop} {reading : Reading α}
    (meets : Meets fails succeeds reading)
    (worse : ∀ diagnostic, fails diagnostic → fails' diagnostic)
    (more : ∀ value, succeeds value → succeeds' value) : Meets fails' succeeds' reading := by
  cases reading with
  | error diagnostic => exact worse diagnostic meets
  | ok value => exact more value meets

end Readings

section Reads

variable {α β : Type} {bound : Nat}

/-- The reading succeeds with the value and leaves the rest. -/
def Reads (reading : Reading (Remaining Lexeme bound α)) (value : α) (rest : List Lexeme) :
    Prop :=
  ∃ within, reading = .ok ⟨value, rest, within⟩

variable {value : α} {rest : List Lexeme}

theorem Reads.within {reading : Reading (Remaining Lexeme bound α)}
    (reads : Reads reading value rest) : rest.length < bound := reads.1

@[simp]
theorem reads_ok {remaining : Remaining Lexeme bound α} :
    Reads (.ok remaining) value rest ↔ remaining.value = value ∧ remaining.rest = rest := by
  obtain ⟨found, left, within⟩ := remaining
  constructor
  · rintro ⟨_, same⟩
    cases same
    exact ⟨rfl, rfl⟩
  · rintro ⟨rfl, rfl⟩
    exact ⟨within, rfl⟩

@[simp]
theorem reads_pure {remaining : Remaining Lexeme bound α} :
    Reads (pure remaining) value rest ↔ remaining.value = value ∧ remaining.rest = rest :=
  reads_ok

@[simp]
theorem reads_error {diagnostic : Diagnostic} :
    ¬Reads (.error diagnostic : Reading (Remaining Lexeme bound α)) value rest := by
  rintro ⟨_, same⟩
  cases same

@[simp]
theorem reads_misplaced {problem : StructureProblem} {lexemes : List Lexeme} :
    ¬Reads (misplaced problem lexemes : Reading (Remaining Lexeme bound α)) value rest :=
  reads_error

/-- A reading goes on from what another one leaves. -/
theorem reads_bind {inner : Nat} {first : Reading (Remaining Lexeme inner β)}
    {next : Remaining Lexeme inner β → Reading (Remaining Lexeme bound α)}
    {P : β → List Lexeme → Prop}
    (later : ∀ found middle within, Reads (next ⟨found, middle, within⟩) value rest ↔
      P found middle) :
    Reads (first >>= next) value rest ↔
      ∃ found middle, Reads first found middle ∧ P found middle := by
  constructor
  · intro reads
    cases first with
    | error problem => exact absurd reads reads_error
    | ok remaining =>
        obtain ⟨found, middle, within⟩ := remaining
        exact ⟨found, middle, ⟨within, rfl⟩, (later found middle within).mp reads⟩
  · rintro ⟨found, middle, ⟨within, rfl⟩, holds⟩
    exact (later found middle within).mpr holds

theorem read_bind_eq_ok {first : Reading (Remaining Lexeme bound β)}
    {next : Remaining Lexeme bound β → Reading α} {result : α} {P : β → List Lexeme → Prop}
    (later : ∀ found middle within, next ⟨found, middle, within⟩ = .ok result ↔ P found middle) :
    first >>= next = .ok result ↔ ∃ found middle, Reads first found middle ∧ P found middle := by
  rw [bind_eq_ok]
  constructor
  · rintro ⟨⟨found, middle, within⟩, rfl, done⟩
    exact ⟨found, middle, ⟨within, rfl⟩, (later found middle within).mp done⟩
  · rintro ⟨found, middle, ⟨within, rfl⟩, holds⟩
    exact ⟨_, rfl, (later found middle within).mpr holds⟩

theorem reads_bind_value {first : Reading β}
    {next : β → Reading (Remaining Lexeme bound α)} {P : β → Prop}
    (later : ∀ found, Reads (next found) value rest ↔ P found) :
    Reads (first >>= next) value rest ↔ ∃ found, first = .ok found ∧ P found := by
  simp only [Reads, bind_eq_ok] at later ⊢
  grind

/-- What is read may be changed, or the bound on the rest. -/
theorem reads_bind_pure {inner : Nat} {first : Reading (Remaining Lexeme inner β)}
    {change : Remaining Lexeme inner β → Remaining Lexeme bound α}
    (view : β → α) (changed : ∀ found middle within,
      (change ⟨found, middle, within⟩).value = view found ∧
      (change ⟨found, middle, within⟩).rest = middle) :
    Reads (do pure (change (← first))) value rest ↔
      ∃ found, Reads first found rest ∧ view found = value := by
  rw [reads_bind (P := fun found middle => view found = value ∧ middle = rest)]
  · grind
  · intro found middle within
    rw [reads_pure, (changed found middle within).1, (changed found middle within).2]

end Reads

@[simp]
theorem nextToken_cons (lexeme : Lexeme) (rest : List Lexeme) :
    nextToken (lexeme :: rest) = lexeme.token := rfl

theorem cons_of_nextToken {lexemes : List Lexeme} {token : Token}
    (next : nextToken lexemes = token) (inside : token ≠ .eof) :
    ∃ lexeme rest, lexemes = lexeme :: rest ∧ lexeme.token = token ∧
      rest.length < lexemes.length := by
  cases lexemes with
  | nil => exact absurd next (Ne.symm inside)
  | cons lexeme rest => exact ⟨lexeme, rest, rfl, next, Nat.lt_succ_self _⟩

theorem exists_cons_eq {item : Lexeme} {items : List Lexeme} {P : Lexeme → List Lexeme → Prop} :
    (∃ first rest, item :: items = first :: rest ∧ P first rest) ↔ P item items := by
  constructor
  · rintro ⟨_, _, same, holds⟩
    cases same
    exact holds
  · intro holds
    exact ⟨item, items, rfl, holds⟩

namespace Remaining

variable {α : Type} {bound : Nat} {token : Token} (remaining : Remaining Lexeme bound α)

theorem filter_next?_eq_none (other : nextToken remaining.rest ≠ token) :
    remaining.relax.next?.filter (·.value.token = token) = none := by
  obtain ⟨value, lexemes, within⟩ := remaining
  cases lexemes with
  | nil => rfl
  | cons lexeme rest =>
      have other : lexeme.token ≠ token := other
      simp [relax, next?, other]

theorem filter_next?_eq_some {lexeme : Lexeme} {rest : List Lexeme}
    (next : remaining.rest = lexeme :: rest) (found : lexeme.token = token) :
    ∃ within, remaining.relax.next?.filter (·.value.token = token) =
      some ⟨lexeme, rest, within⟩ := by
  obtain ⟨value, lexemes, within⟩ := remaining
  cases next
  exact ⟨Nat.lt_of_succ_lt within, by simp [relax, next?, found]⟩

end Remaining

end EntityScript
