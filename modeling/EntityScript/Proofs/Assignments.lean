import EntityScript.Proofs.Components
import EntityScript.World.Changes

/-!
What assignments change.  An assignment to a field reads down its path and writes back up, and
every entity on the path is written to the field it was read from.  What is behind the last entity
on the path is a component, so that this entity is the one that changes; and where a write could
fail nothing has been written yet.
-/

namespace EntityScript

open Script

/-! ### Paths through entities -/

section Paths

variable {world after : World} {root updated value : Value} {name : String} {path : List String}
  {count : Nat} {ref : EntityRef}

/-- The entity is the last one on the way to the end of the path, behind so many fields. -/
structure LastEntity (world : World) (root : Value) (path : List String) (count : Nat)
    (ref : EntityRef) : Prop where
  within : count < path.length
  reached : world.readPath root (path.take count) = .ok (.entity ref)
  last : ∀ longer, count < longer → longer < path.length →
    ∀ other, world.readPath root (path.take longer) ≠ .ok (.entity other)

/-- The field that the path takes behind so many fields is one that it takes before, from the
same entity. -/
def Revisits (world : World) (root : Value) (path : List String) (count : Nat)
    (ref : EntityRef) : Prop :=
  ∃ earlier < count, ∃ other, world.readPath root (path.take earlier) = .ok (.entity other) ∧
    other.id = ref.id ∧ path[earlier]? = path[count]?

/-- What a field of an entity gets when the path goes on from it: the value itself at the end of
the path, or else what it is with a component replaced. -/
inductive Stored (world : World) (id : EntityId) (name : String) :
    List String → Value → Value → Prop
  | whole {assigned} : Stored world id name [] assigned assigned
  | part {component number old new} : world.field? id name = some old →
      old.confined.Replaces component number new →
      Stored world id name [component] (.number number) new

theorem readPath_cons (root : Value) (name : String) (path : List String) {value : Value} :
    world.readPath root (name :: path) = .ok value ↔
      ∃ inner, world.readField root name = .ok inner ∧ world.readPath inner path = .ok value := by
  rw [World.readPath]
  cases world.readField root name <;> simp [bind, Except.bind]

theorem entity_of_readPath (reached : world.readPath root path = .ok (.entity ref)) :
    ∃ first, root = .entity first := by
  by_cases plain : root.kind ≠ .entity
  · exact absurd rfl (plain_of_readPath plain reached)
  · cases root with
    | entity first => exact ⟨first, rfl⟩
    | _ => exact absurd (by simp [Value.kind]) plain

theorem field?_of_readField {inner : Value}
    (read : world.readField (.entity ref) name = .ok inner) :
    world.field? ref.id name = some inner := by
  simp only [World.readField, World.field] at read
  split at read
  · cases read
    assumption
  · cases read

theorem LastEntity.inside {inner : Value}
    (last : LastEntity world root (name :: path) (count + 1) ref)
    (read : world.readField root name = .ok inner) : LastEntity world inner path count ref where
  within := Nat.lt_of_succ_lt_succ last.within
  reached := by
    obtain ⟨other, same, reached⟩ := (readPath_cons _ _ _).mp last.reached
    rw [read] at same
    cases same
    exact reached
  last longer beyond within other reached :=
    last.last (longer + 1) (Nat.succ_lt_succ beyond) (Nat.succ_lt_succ within) other
      ((readPath_cons _ _ _).mpr ⟨inner, read, reached⟩)

theorem LastEntity.outside {inner : Value} (last : LastEntity world inner path count ref)
    (read : world.readField root name = .ok inner) :
    LastEntity world root (name :: path) (count + 1) ref where
  within := Nat.succ_lt_succ last.within
  reached := (readPath_cons _ _ _).mpr ⟨inner, read, last.reached⟩
  last longer beyond within other reached := by
    obtain ⟨longer, rfl⟩ := Nat.exists_eq_succ_of_ne_zero (Nat.ne_zero_of_lt beyond)
    obtain ⟨same, found, reached⟩ := (readPath_cons _ _ _).mp reached
    rw [read] at found
    cases found
    exact last.last longer (Nat.lt_of_succ_lt_succ beyond) (Nat.lt_of_succ_lt_succ within) other
      reached

theorem revisits_succ {first : EntityRef} {inner : Value}
    (read : world.readField (.entity first) name = .ok inner) :
    Revisits world (.entity first) (name :: path) (count + 1) ref ↔
      (first.id = ref.id ∧ some name = path[count]?) ∨ Revisits world inner path count ref := by
  constructor
  · rintro ⟨earlier, before, other, reached, same, field⟩
    cases earlier with
    | zero =>
        cases reached
        exact .inl ⟨same, field⟩
    | succ earlier =>
        obtain ⟨_, found, reached⟩ := (readPath_cons _ _ _).mp reached
        rw [read] at found
        cases found
        exact .inr ⟨earlier, Nat.lt_of_succ_lt_succ before, other, reached, same, field⟩
  · rintro (⟨same, field⟩ | ⟨earlier, before, other, reached, same, field⟩)
    · exact ⟨0, Nat.succ_pos count, first, rfl, same, field⟩
    · exact ⟨earlier + 1, Nat.succ_lt_succ before, other,
        (readPath_cons _ _ _).mpr ⟨inner, read, reached⟩, same, field⟩

theorem LastEntity.eq_root (last : LastEntity world root path 0 ref) : root = .entity ref := by
  have reached := last.reached
  cases reached
  rfl

/-- What the field of the last entity holds is no entity where the path goes on behind it. -/
theorem LastEntity.plain {next : String} {rest : List String} {inner : Value}
    (last : LastEntity world (.entity ref) (name :: next :: rest) 0 ref)
    (read : world.readField (.entity ref) name = .ok inner) : inner.kind ≠ .entity := by
  intro kind
  cases inner with
  | entity other =>
      have reached : world.readPath (.entity ref) [name] = .ok (.entity other) :=
        (readPath_cons _ _ _).mpr ⟨_, read, rfl⟩
      exact last.last 1 Nat.one_pos (by simp) other reached
  | _ => cases kind

/-- A write from the last entity on the path writes the field of it. -/
theorem writePath_here (last : LastEntity world (.entity ref) path 0 ref)
    (wrote : writePath (.entity ref) path value world = .returned updated after) :
    updated = .entity ref ∧ ∃ name rest new, path = name :: rest ∧
      Stored world ref.id name rest value new ∧ after = world.setField ref.id name new := by
  match path with
  | [] => exact absurd last.within (Nat.lt_irrefl 0)
  | [name] =>
      cases wrote
      exact ⟨rfl, name, [], value, rfl, .whole, rfl⟩
  | name :: next :: rest =>
      rw [writePath_cons] at wrote
      cases read : world.readField (.entity ref) name with
      | error error =>
          rw [read] at wrote
          cases wrote
      | ok inner =>
          rw [read] at wrote
          obtain ⟨new, middle, inside, back⟩ := returned_bind wrote
          have plain := last.plain read
          have same : middle = world := writePath_keeps plain (by rw [inside]; rfl)
          obtain ⟨component, number, split, numbered, replaces⟩ :=
            replaces_of_writePath plain (by simp) inside
          subst same numbered
          rw [writeField_entity] at back
          cases back
          refine ⟨rfl, name, next :: rest, new, rfl, ?_, rfl⟩
          rw [split]
          exact .part (field?_of_readField read) replaces

/-- What comes of a write through entities.  On the way back each entity on the path is written
to the field it was read from; this undoes the write if that is the field that was written. -/
theorem writePath_last (last : LastEntity world root path count ref)
    (wrote : writePath root path value world = .returned updated after) :
    updated = root ∧ ∃ name rest new, path.drop count = name :: rest ∧
      Stored world ref.id name rest value new ∧
      (Revisits world root path count ref → after = world) ∧
      (¬Revisits world root path count ref → after = world.setField ref.id name new) := by
  induction count generalizing root path updated after with
  | zero =>
      obtain rfl := last.eq_root
      obtain ⟨same, name, rest, new, split, stored, done⟩ := writePath_here last wrote
      refine ⟨same, name, rest, new, split, stored, ?_, fun _ => done⟩
      rintro ⟨_, before, _⟩
      exact absurd before (Nat.not_lt_zero _)
  | succ count inductionHypothesis =>
      obtain ⟨first, rfl⟩ := entity_of_readPath last.reached
      match path with
      | [] => exact absurd last.within (Nat.not_lt_zero _)
      | [name] => exact absurd last.within (by simp)
      | name :: next :: rest =>
          rw [writePath_cons] at wrote
          cases read : world.readField (.entity first) name with
          | error error =>
              rw [read] at wrote
              cases wrote
          | ok inner =>
              rw [read] at wrote
              obtain ⟨updated, middle, inside, back⟩ := returned_bind wrote
              obtain ⟨rfl, written, more, new, split, stored, undone, done⟩ :=
                inductionHypothesis (last.inside read) inside
              have found := field?_of_readField read
              have field : (next :: rest)[count]? = some written := by
                rw [← List.head?_drop, split]
                rfl
              rw [writeField_entity] at back
              cases back
              refine ⟨rfl, written, more, new, split, stored, ?_, ?_⟩
              all_goals rw [revisits_succ read, field, Option.some.injEq]
              · intro visited
                by_cases further : Revisits world updated (next :: rest) count ref
                · rw [undone further, World.setField_eq_self found]
                · obtain ⟨same, rfl⟩ := visited.resolve_right further
                  rw [done further, same, World.setField_setField, ← same,
                    World.setField_eq_self found]
              · intro unvisited
                obtain ⟨apart, further⟩ := not_or.mp unvisited
                rw [done further]
                apply World.setField_eq_self
                rw [World.field?_setField, if_neg fun same => apart ⟨same.1, same.2.1⟩, found]

/-- Along a path that starts from an entity there is a last one. -/
theorem exists_lastEntity (first : EntityRef) (further : path ≠ []) :
    ∃ count ref, LastEntity world (.entity first) path count ref := by
  induction path generalizing first with
  | nil => exact absurd rfl further
  | cons name rest inductionHypothesis =>
      by_cases onward : rest ≠ [] ∧
          ∃ other, world.readField (.entity first) name = .ok (.entity other)
      · obtain ⟨more, other, read⟩ := onward
        obtain ⟨count, ref, last⟩ := inductionHypothesis other more
        exact ⟨count + 1, ref, last.outside read⟩
      · refine ⟨0, first, by simp, rfl, fun longer beyond within other reached => onward ?_⟩
        obtain ⟨longer, rfl⟩ := Nat.exists_eq_succ_of_ne_zero (Nat.ne_of_gt beyond)
        obtain ⟨inner, read, reached⟩ := (readPath_cons _ _ _).mp reached
        obtain ⟨second, rfl⟩ := entity_of_readPath reached
        refine ⟨?_, second, read⟩
        rintro rfl
        exact absurd within (by simp)

/-- A write that fails leaves the world as it was. -/
theorem writePath_raised {error : ScriptError}
    (failed : writePath root path value world = .raised error after) : after = world := by
  induction path generalizing root after with
  | nil => cases failed
  | cons name rest inductionHypothesis =>
      by_cases plain : root.kind ≠ .entity
      · exact writePath_keeps plain (by rw [failed]; rfl)
      · cases root with
        | entity first =>
            cases rest with
            | nil => cases failed
            | cons next rest =>
                rw [writePath_cons] at failed
                cases read : world.readField (.entity first) name with
                | error error =>
                    rw [read] at failed
                    cases failed
                    rfl
                | ok inner =>
                    rw [read] at failed
                    -- An entity takes every field, so the step back never fails.
                    rcases raised_bind failed with ⟨updated, middle, _, back⟩ | inside
                    · rw [writeField_entity] at back
                      cases back
                    · exact inductionHypothesis inside
        | _ => exact absurd (by simp [Value.kind]) plain

end Paths

/-! ### Assignments -/

/-- The frame after what a place starts from was written back. -/
def Frame.writeBack (frame : Frame) (start : PlaceRoot) (updated : Value) : Frame :=
  match start with
  | .ident name => frame.assign name updated
  | .this => frame

/-- The later world is the world with one field of one entity written. -/
structure World.Writes (world : World) (id : EntityId) (name : String) (new : Value)
    (after : World) : Prop where
  same : after = world.setField id name new
  /-- References lead to entities that were made. -/
  written : id < world.entities.size → after.field? id name = some new
  kept : ∀ other field, (other = id → field ≠ name) →
    after.field? other field = world.field? other field

theorem World.writes_setField (world : World) (id : EntityId) (name : String) (new : Value) :
    world.Writes id name new (world.setField id name new) where
  same := rfl
  written made := by rw [field?_setField, if_pos ⟨rfl, rfl, made⟩]
  kept other field apart := by
    rw [field?_setField, if_neg fun same => apart same.1 same.2.1]

def lone : EntityRef := ⟨0, "Dot"⟩

/-- A world with a single entity, which has one field. -/
def World.ofField (name : String) (value : Value) : World :=
  ((World.initial .default false).make
    ⟨"Dot", [], ⟨[], []⟩, none, none, .empty, .none⟩).setField lone.id name value

def Frame.ofLone : Frame := (Frame.of none).define "it" (.entity lone)

section Assignments

variable {place : Place} {root value : Value} {frame later : Frame} {world after : World}

theorem lookup?_of_root {name : String} (found : frame.root (.ident name) = .ok root) :
    frame.lookup? name = some root := by
  simp only [Frame.root, Frame.lookup] at found
  split at found
  · cases found
    assumption
  · cases found

theorem kind_of_root_this (found : frame.root .this = .ok root) : root.kind = .entity := by
  simp only [Frame.root, Frame.this] at found
  split at found
  · cases found
    rfl
  · cases found

/-- An entity is written back as itself. -/
theorem Frame.writeBack_eq_self {start : PlaceRoot} (found : frame.root start = .ok root) :
    frame.writeBack start root = frame := by
  cases start with
  | ident name => exact assign_eq_self (lookup?_of_root found)
  | this => rfl

theorem Frame.rebinds_writeBack {start : PlaceRoot} (found : frame.root start = .ok root)
    (plain : root.kind ≠ .entity) (updated : Value) :
    ∃ name, start = .ident name ∧
      frame.Rebinds name root updated (frame.writeBack start updated) := by
  cases start with
  | ident name => exact ⟨name, rfl, rebinds_assign (lookup?_of_root found) updated⟩
  | this => exact absurd (kind_of_root_this found) plain

/-- An assignment to a field, as one step. -/
theorem writePlace_of_fields (further : place.fields ≠ []) :
    writePlace place value ⟨frame, world⟩ =
      match frame.root place.root with
      | .error error => .raised error ⟨frame, world⟩
      | .ok root =>
          match writePath root place.fields value world with
          | .returned updated after => .returned () ⟨frame.writeBack place.root updated, after⟩
          | .raised error after => .raised error ⟨frame, after⟩
          | .endless => .endless := by
  obtain ⟨start, fields⟩ := place
  obtain ⟨name, rest, rfl⟩ := List.exists_cons_of_ne_nil further
  cases start with
  | ident start | this =>
      simp only [writePlace, bind_eq, onWorld]
      cases frame.root _ with
      | error error => rfl
      | ok root =>
          dsimp only [ofAttempt, Script.pure]
          cases writePath root (name :: rest) value world <;> rfl

theorem writePath_of_writePlace (further : place.fields ≠ [])
    (wrote : writePlace place value ⟨frame, world⟩ = .returned () ⟨later, after⟩) :
    ∃ root updated, frame.root place.root = .ok root ∧
      writePath root place.fields value world = .returned updated after ∧
      later = frame.writeBack place.root updated := by
  rw [writePlace_of_fields further] at wrote
  cases found : frame.root place.root with
  | error error =>
      rw [found] at wrote
      cases wrote
  | ok root =>
      rw [found] at wrote
      dsimp only at wrote
      cases ran : writePath root place.fields value world with
      | returned updated reached =>
          rw [ran] at wrote
          cases wrote
          exact ⟨root, updated, rfl, ran, rfl⟩
      | raised | endless =>
          rw [ran] at wrote
          cases wrote

/-- What an assignment to a field changes.  It writes one field of the last entity on the path,
unless the path has taken that field before: on the way back each entity on the path is written
to the field it was read from, and so the field gets back what it had.  Without an entity on the
path the assignment replaces a component of a local. -/
theorem assignment_changes_one_location (further : place.fields ≠ [])
    (wrote : writePlace place value ⟨frame, world⟩ = .returned () ⟨later, after⟩) :
    ∃ root, frame.root place.root = .ok root ∧
      (∀ count ref, LastEntity world root place.fields count ref →
        later = frame ∧ ∃ name rest new, place.fields.drop count = name :: rest ∧
          Stored world ref.id name rest value new ∧
          (Revisits world root place.fields count ref → after = world) ∧
          (¬Revisits world root place.fields count ref → world.Writes ref.id name new after)) ∧
      ((∀ count ref, ¬LastEntity world root place.fields count ref) →
        after = world ∧ ∃ name component number new, place = ⟨.ident name, [component]⟩ ∧
          value = .number number ∧ root.confined.Replaces component number new ∧
          frame.Rebinds name root new later) := by
  obtain ⟨root, updated, found, ran, rfl⟩ := writePath_of_writePlace further wrote
  refine ⟨root, found, fun count ref last => ?_, fun none => ?_⟩
  · obtain ⟨rfl, name, rest, new, split, stored, undone, done⟩ := writePath_last last ran
    refine ⟨Frame.writeBack_eq_self found, name, rest, new, split, stored, undone, ?_⟩
    intro unvisited
    rw [done unvisited]
    exact world.writes_setField ref.id name new
  · have plain : root.kind ≠ .entity := by
      intro kind
      cases root with
      | entity first =>
          obtain ⟨count, ref, last⟩ := exists_lastEntity first further
          exact none count ref last
      | _ => cases kind
    have same : after = world := writePath_keeps plain (by rw [ran]; rfl)
    obtain ⟨component, number, fields, numbered, replaces⟩ :=
      replaces_of_writePath plain further ran
    obtain ⟨name, start, rebinds⟩ := Frame.rebinds_writeBack found plain updated
    obtain ⟨_, _⟩ := place
    cases start
    cases fields
    exact ⟨same, name, component, number, updated, rfl, numbered, replaces, rebinds⟩

/-- Only the named component of a vector in a field changes. -/
theorem vectorInField_assigned :
    ∃ after, writePlace ⟨.ident "it", ["at", "x"]⟩ (.number 5)
        ⟨.ofLone, .ofField "at" (.vector ⟨1, 2⟩)⟩ = .returned () ⟨.ofLone, after⟩ ∧
      (World.ofField "at" (.vector ⟨1, 2⟩)).Writes 0 "at" (.vector ⟨5, 2⟩) after := by
  refine ⟨_, rfl, ?_⟩
  obtain ⟨root, found, through, _⟩ := assignment_changes_one_location (by simp)
    (show writePlace ⟨.ident "it", ["at", "x"]⟩ (.number 5)
      ⟨.ofLone, .ofField "at" (.vector ⟨1, 2⟩)⟩ = .returned () ⟨.ofLone, _⟩ from rfl)
  cases found
  have last : LastEntity (.ofField "at" (.vector ⟨1, 2⟩)) (.entity lone) ["at", "x"] 0 lone := by
    refine ⟨by decide, rfl, fun longer beyond within => ?_⟩
    obtain rfl : longer = 1 := by simp at within; omega
    nofun
  obtain ⟨-, name, rest, new, split, stored, -, writes⟩ := through 0 lone last
  cases split
  obtain rfl : new = .vector ⟨5, 2⟩ := by
    cases stored with
    | part read replaces =>
        cases read
        generalize component : "x" = other at replaces
        cases replaces with
        | x => rfl
        | y => exact absurd component (by decide)
  apply writes
  rintro ⟨_, before, _⟩
  exact absurd before (Nat.not_lt_zero _)

/-- An entity that its own field holds is there again after its field behind that was written. -/
theorem loopedField_kept :
    let world := World.ofField "next" (.entity lone)
    writePlace ⟨.ident "it", ["next", "next"]⟩ (.number 5) ⟨.ofLone, world⟩ =
        .returned () ⟨.ofLone, world⟩ ∧
      Frame.ofLone.root (.ident "it") = .ok (.entity lone) ∧
      LastEntity world (.entity lone) ["next", "next"] 1 lone ∧
      world.field? 0 "next" = some (.entity lone) := by
  refine ⟨rfl, rfl, ⟨by decide, rfl, ?_⟩, rfl⟩
  intro longer beyond within
  simp at within
  omega

/-- An assignment that fails leaves the frame and the world as they were. -/
theorem failed_assignment_changes_nothing {error : ScriptError} {activation left : Activation}
    (failed : writePlace place value activation = .raised error left) : left = activation := by
  obtain ⟨frame, world⟩ := activation
  by_cases empty : place.fields = []
  · obtain ⟨start, _⟩ := place
    subst empty
    cases start with
    | this =>
        cases failed
        rfl
    | ident name =>
        simp only [writePlace, bind_eq, onWorld] at failed
        cases found : frame.lookup name with
        | error error =>
            rw [found] at failed
            cases failed
            rfl
        | ok old =>
            -- Once the local is found there is nothing left that could fail.
            rw [found] at failed
            cases failed
  · rw [writePlace_of_fields empty] at failed
    cases found : frame.root place.root with
    | error error =>
        rw [found] at failed
        cases failed
        rfl
    | ok root =>
        rw [found] at failed
        dsimp only at failed
        cases ran : writePath root place.fields value world with
        | returned | endless =>
            rw [ran] at failed
            cases failed
        | raised error reached =>
            rw [ran] at failed
            cases failed
            rw [writePath_raised ran]

/-- A vector has no depth, and stays as it was. -/
theorem missingComponent_unassigned :
    ∃ error left, writePlace ⟨.ident "it", ["at", "z"]⟩ (.number 5)
        ⟨.ofLone, .ofField "at" (.vector ⟨1, 2⟩)⟩ = .raised error left ∧
      left = ⟨.ofLone, .ofField "at" (.vector ⟨1, 2⟩)⟩ :=
  ⟨_, _, rfl, failed_assignment_changes_nothing (show writePlace ⟨.ident "it", ["at", "z"]⟩
    (.number 5) ⟨.ofLone, .ofField "at" (.vector ⟨1, 2⟩)⟩ = .raised _ _ from rfl)⟩

end Assignments

end EntityScript
