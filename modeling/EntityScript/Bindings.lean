/-!
Named things in the order in which their names first came up.  Giving a name a new
meaning keeps its place.
-/

namespace EntityScript

/-- Names with what they stand for, in order. -/
structure Bindings (α : Type) where
  entries : List (String × α)
  deriving Repr, DecidableEq

namespace Bindings

variable {α : Type}

def empty : Bindings α := ⟨[]⟩

instance : Inhabited (Bindings α) := ⟨empty⟩

def find? (name : String) : List (String × α) → Option α
  | [] => none
  | (other, value) :: rest => if other = name then some value else find? name rest

def get? (bindings : Bindings α) (name : String) : Option α := find? name bindings.entries

def contains (bindings : Bindings α) (name : String) : Bool := (bindings.get? name).isSome

/-- The names in order. -/
def names (bindings : Bindings α) : List String := bindings.entries.map Prod.fst

/-- Put a value under a name among entries, at the end if the name is new. -/
def insertEntry (name : String) (value : α) : List (String × α) → List (String × α)
  | [] => [(name, value)]
  | (other, old) :: rest =>
      if other = name then (name, value) :: rest
      else (other, old) :: insertEntry name value rest

def insert (bindings : Bindings α) (name : String) (value : α) : Bindings α :=
  ⟨insertEntry name value bindings.entries⟩

theorem find?_insertEntry (entries : List (String × α)) (name other : String) (value : α) :
    find? other (insertEntry name value entries) =
      if name = other then some value else find? other entries := by
  induction entries with
  | nil => rfl
  | cons entry rest inductionHypothesis =>
      obtain ⟨key, old⟩ := entry
      by_cases hit : key = name
      · subst hit
        by_cases same : key = other <;> simp [insertEntry, find?, same]
      · by_cases same : key = other
        · subst same
          simp [insertEntry, find?, hit, Ne.symm hit]
        · simp [insertEntry, find?, hit, same, inductionHypothesis]

/-- A name stands for the value it was given last. -/
@[simp]
theorem get?_insert (bindings : Bindings α) (name other : String) (value : α) :
    (bindings.insert name value).get? other =
      if name = other then some value else bindings.get? other :=
  find?_insertEntry bindings.entries name other value

theorem mem_names {bindings : Bindings α} {name : String} :
    name ∈ bindings.names ↔ bindings.contains name = true := by
  obtain ⟨entries⟩ := bindings
  simp only [names, contains, get?]
  induction entries with
  | nil => simp [find?]
  | cons entry rest inductionHypothesis =>
      obtain ⟨key, value⟩ := entry
      by_cases hit : key = name
      · simp [find?, hit]
      · rw [List.map_cons, List.mem_cons, find?, if_neg hit, inductionHypothesis]
        simp [Ne.symm hit]

/-- A new name comes last; an old one keeps its place. -/
theorem names_insert (bindings : Bindings α) (name : String) (value : α) :
    (bindings.insert name value).names =
      if name ∈ bindings.names then bindings.names else bindings.names ++ [name] := by
  obtain ⟨entries⟩ := bindings
  simp only [insert, names]
  induction entries with
  | nil => simp [insertEntry]
  | cons entry rest inductionHypothesis =>
      obtain ⟨key, old⟩ := entry
      by_cases hit : key = name
      · simp [insertEntry, hit]
      · have apart : name ≠ key := fun same => hit same.symm
        by_cases known : name ∈ rest.map Prod.fst
        · simp [insertEntry, hit, inductionHypothesis, known]
        · simp [insertEntry, hit, apart, inductionHypothesis, known]

/-- A new name comes last, with its value. -/
theorem entries_insert {bindings : Bindings α} {name : String}
    (fresh : name ∉ bindings.names) (value : α) :
    (bindings.insert name value).entries = bindings.entries ++ [(name, value)] := by
  obtain ⟨entries⟩ := bindings
  simp only [names, insert] at fresh ⊢
  induction entries with
  | nil => rfl
  | cons entry rest inductionHypothesis =>
      rw [List.map_cons, List.mem_cons, not_or] at fresh
      rw [insertEntry, if_neg (Ne.symm fresh.1), inductionHypothesis fresh.2, List.cons_append]

/-- Of two values given to a name only the second one counts. -/
theorem insert_insert (bindings : Bindings α) (name : String) (first second : α) :
    (bindings.insert name first).insert name second = bindings.insert name second := by
  obtain ⟨entries⟩ := bindings
  simp only [insert, mk.injEq]
  induction entries with
  | nil => simp [insertEntry]
  | cons entry rest inductionHypothesis =>
      obtain ⟨key, old⟩ := entry
      by_cases hit : key = name
      · simp [insertEntry, hit]
      · simp [insertEntry, hit, inductionHypothesis]

/-- To give a name the value it has does nothing. -/
theorem insert_eq_self {bindings : Bindings α} {name : String} {value : α}
    (found : bindings.get? name = some value) : bindings.insert name value = bindings := by
  obtain ⟨entries⟩ := bindings
  simp only [get?, insert, mk.injEq] at found ⊢
  induction entries with
  | nil => cases found
  | cons entry rest inductionHypothesis =>
      obtain ⟨key, old⟩ := entry
      by_cases hit : key = name
      · simp_all [insertEntry, find?]
      · simp only [find?, if_neg hit] at found
        simp [insertEntry, hit, inductionHypothesis found]

end Bindings

end EntityScript
