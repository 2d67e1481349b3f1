/-!
Reading from the front of a list.  A reader returns what it read and the rest, together
with a bound on the length of the rest, so that readers built from others are seen to
end.
-/

namespace EntityScript

/-- What was read, and a rest of fewer than `bound` items. -/
structure Remaining (Item : Type) (bound : Nat) (α : Type) where
  value : α
  rest : List Item
  within : rest.length < bound

/-- The outcome of a reader that takes at least one of the given items. -/
abbrev Strict {Item : Type} (items : List Item) (α : Type) := Remaining Item items.length α

/-- The outcome of a reader that may take none of the given items. -/
abbrev Lax {Item : Type} (items : List Item) (α : Type) := Remaining Item (items.length + 1) α

namespace Remaining

variable {Item α β : Type} {bound : Nat}

def map (f : α → β) (r : Remaining Item bound α) : Remaining Item bound β :=
  ⟨f r.value, r.rest, r.within⟩

/-- What was read when one item is taken. -/
def taking (value : α) (item : Item) (rest : List Item) : Strict (item :: rest) α :=
  ⟨value, rest, Nat.lt_succ_self rest.length⟩

/-- What was read when no item is taken. -/
def staying (value : α) (items : List Item) : Lax items α :=
  ⟨value, items, Nat.lt_succ_self items.length⟩

/-- What was read when the first `n` items are taken. -/
def dropping (value : α) (n : Nat) (items : List Item) : Lax items α :=
  ⟨value, items.drop n, Nat.lt_succ_of_le (List.length_drop ▸ Nat.sub_le items.length n)⟩

/-- The same under the next bound. -/
def relax (r : Remaining Item bound α) : Remaining Item (bound + 1) α :=
  ⟨r.value, r.rest, Nat.lt_succ_of_lt r.within⟩

/-- What was read next, which the bound of what was read before it holds for as well. -/
def behind (earlier : Remaining Item bound α) (later : Lax earlier.rest β) :
    Remaining Item bound β :=
  ⟨later.value, later.rest, Nat.lt_of_lt_of_le later.within earlier.within⟩

/-- Take the next item, if there is one. -/
def next? (r : Remaining Item (bound + 1) α) : Option (Remaining Item bound Item) :=
  match r with
  | ⟨_, [], _⟩ => none
  | ⟨_, item :: rest, within⟩ => some ⟨item, rest, Nat.lt_of_succ_lt_succ within⟩

theorem length_rest_lt (r : Remaining Item bound α) : r.rest.length < bound := r.within

grind_pattern length_rest_lt => r.rest

end Remaining

end EntityScript
