import EntityScript.Proofs.Assignments
import EntityScript.Proofs.ColorRuns
import EntityScript.Proofs.Comparisons
import EntityScript.Proofs.HexColors

/-!
The alphas of colors.  Whatever numbers scripts compute, the colors that they make, keep and draw
have an alpha from zero to one, unless they asked for one that is not a number.  A component of a
color can be written wherever the color is kept, and the other components stay as they are.
-/

namespace EntityScript

open Script

namespace Number

variable {x : Float}

theorem isNaN_confine (x : Float) : (confine x 0 1).isNaN = x.isNaN := by
  unfold confine
  by_cases below : x < 0
  · rw [if_pos below, isNaN_left_of_lt below]
    decide
  · by_cases above : 1 < x
    · rw [if_neg below, if_pos above, isNaN_right_of_lt above]
      decide
    · rw [if_neg below, if_neg above]

theorem confine_mem (number : x.isNaN = false) : 0 ≤ confine x 0 1 ∧ confine x 0 1 ≤ 1 := by
  unfold confine
  by_cases below : x < 0
  · rw [if_pos below]
    decide
  · have atLeast : 0 ≤ x := le_of_not_lt number (by decide) below
    by_cases above : 1 < x
    · rw [if_neg below, if_pos above]
      decide
    · rw [if_neg below, if_neg above]
      exact ⟨atLeast, le_of_not_lt (by decide) number above⟩

theorem confine_eq_self (inside : x.isNaN = true ∨ 0 ≤ x ∧ x ≤ 1) : confine x 0 1 = x := by
  have outside : ¬x < 0 ∧ ¬1 < x := by
    rcases inside with nothing | ⟨atLeast, atMost⟩
    · -- What is not a number is on neither side of a bound.
      constructor
      · exact fun less => Bool.eq_false_iff.mp (isNaN_left_of_lt less) nothing
      · exact fun less => Bool.eq_false_iff.mp (isNaN_right_of_lt less) nothing
    · exact ⟨not_lt_of_le atLeast, not_lt_of_le atMost⟩
  unfold confine
  rw [if_neg outside.1, if_neg outside.2]

end Number

namespace Color

/-- The alpha is from zero to one, or is not a number. -/
def InRange (color : Color) : Prop :=
  color.alpha.isNaN = true ∨ 0 ≤ color.alpha ∧ color.alpha ≤ 1

instance (color : Color) : Decidable color.InRange := inferInstanceAs (Decidable (_ ∨ _ ∧ _))

variable {color : Color} {red green blue : UInt8} {alpha : Float}

theorem isNaN_of : (of red green blue alpha).alpha.isNaN = alpha.isNaN :=
  Number.isNaN_confine alpha

theorem inRange_of : (of red green blue alpha).InRange := by
  unfold InRange
  rw [isNaN_of]
  by_cases number : alpha.isNaN = false
  · exact .inr (Number.confine_mem number)
  · exact .inl (by simpa using number)

theorem closed_inRange : Palette.Closed InRange where
  black := by decide
  transparent := by decide
  ofHex read := .inr (by rw [alpha_of_ofHex? read]; decide)
  ofChannels _ _ _ _ := inRange_of
  withAlpha _ := inRange_of

/-- A color in range takes any number as any of its components. -/
theorem withComponent_of_replaces {component : String} {number : Float} {new : Value}
    (fits : color.InRange) (replaces : (Value.color color).Replaces component number new) :
    ∃ updated, new = .color updated ∧
      color.withComponent component (.number number) = .ok updated := by
  have same : Number.confine color.alpha 0 1 = color.alpha := Number.confine_eq_self fits
  cases replaces with
  | red | green | blue =>
      refine ⟨_, rfl, ?_⟩
      simp [withComponent, Value.asNumber, ofChannels, of, toByte_channel, same, bind, Except.bind,
        pure, Except.pure]
  | alpha => exact ⟨_, rfl, rfl⟩

end Color

section Asked

variable {arguments : List Value} {world after : World} {color : Color}

/-- The argument is a number by type, and not by value. -/
def AsksNaN (arguments : List Value) (position : Nat) : Prop :=
  ∃ alpha, arguments[position]? = some (.number alpha) ∧ alpha.isNaN = true

/-- The colors whose alpha is a number, and all the others too if they are asked for. -/
def Palette.unlessAsked (asked : Prop) : Palette := fun color => color.alpha.isNaN = true → asked

theorem Builtin.Answers.within_unlessAsked {builtin : Builtin} {value : Value}
    (answers : builtin.Answers arguments value) :
    value.Within (.unlessAsked (builtin = .colorNew ∧ AsksNaN arguments 3)) := by
  apply answers.within
  · intro text color spelled nothing
    rw [Color.alpha_of_ofHex? spelled] at nothing
    exact absurd nothing (by decide)
  · intro member red green blue alpha asked nothing
    have nothing : alpha.isNaN = true := Color.isNaN_of.symm.trans nothing
    refine ⟨member, alpha, ?_, nothing⟩
    cases given : arguments[3]? with
    | none =>
        -- An alpha that is left out is one, which is a number.
        rw [given] at asked
        cases asked
        exact absurd nothing (by decide)
    | some value => rw [← asked, given, Option.getD_some]

theorem MethodAnswers.within_unlessAsked {method : String} {value : Value}
    (answers : MethodAnswers method arguments value) :
    value.Within (.unlessAsked (method = "withAlpha" ∧ AsksNaN arguments 0)) := by
  apply answers.within
  intro chosen tint alpha asked nothing
  exact ⟨chosen, alpha, asked, Color.isNaN_of.symm.trans nothing⟩

/-- Members make a color whose alpha is not a number only if they are asked to. -/
theorem callBuiltin_asked {builtin : Builtin}
    (made : callBuiltin builtin arguments world = .returned (.color color) after)
    (nothing : color.alpha.isNaN = true) : builtin = .colorNew ∧ AsksNaN arguments 3 :=
  ((callBuiltin_ends builtin arguments world).answers_of_returned made nofun).within_unlessAsked
    nothing

/-- Methods make a color whose alpha is not a number only if they are asked to. -/
theorem callMethod_asked {target : Value} {method : String}
    (made : callMethod target method arguments world = .returned (.color color) after)
    (nothing : color.alpha.isNaN = true) : method = "withAlpha" ∧ AsksNaN arguments 0 :=
  ((callMethod_ends target method arguments world).answers_of_returned made
    nofun).within_unlessAsked nothing

end Asked

section Components

variable {world : World} {root value : Value} {name component : String} {path : List String}
  {color updated : Color}

/-- Only entities have fields that are entities or colors. -/
theorem entity_of_readField {inner : Value} (read : world.readField root name = .ok inner)
    (kind : inner.kind = .entity ∨ inner.kind = .color) : ∃ ref, root = .entity ref := by
  by_cases plain : root.kind ≠ .entity
  · rcases kind_of_readField plain read with same | same <;> simp [same] at kind
  · cases root with
    | entity ref => exact ⟨ref, rfl⟩
    | _ => exact absurd (by simp [Value.kind]) plain

theorem World.readField_entity {ref : EntityRef} (found : world.field? ref.id name = some value) :
    world.readField (.entity ref) name = .ok value := by
  simp only [World.readField, World.field, found]

theorem entity_of_colorAt (further : path ≠ [])
    (found : world.readPath root path = .ok (.color color)) : ∃ ref, root = .entity ref := by
  induction path generalizing root with
  | nil => exact absurd rfl further
  | cons name rest inductionHypothesis =>
      obtain ⟨inner, read, onward⟩ := (readPath_cons _ _ _).mp found
      cases rest with
      | nil =>
          cases onward
          exact entity_of_readField read (.inr rfl)
      | cons next rest =>
          obtain ⟨ref, rfl⟩ := inductionHypothesis (by simp) onward
          exact entity_of_readField read (.inl rfl)

theorem World.field?_setField_self {id : EntityId} {old : Value}
    (found : world.field? id name = some old) (new : Value) :
    (world.setField id name new).field? id name = some new := by
  obtain ⟨entity, made, _⟩ := Option.bind_eq_some_iff.mp found
  rw [field?_setField, if_pos ⟨rfl, rfl, (Array.getElem?_eq_some_iff.mp made).1⟩]

theorem writePath_ofColor (replaced : color.withComponent component value = .ok updated) :
    writePath (.color color) [component] value world = .returned (.color updated) world := by
  rw [writePath, writeField, map_ofAttempt, replaced]

/-- A component of a color that a field holds is written by putting the new color into the field.
On the way back the entities on the path are put into the fields that hold them already. -/
theorem writePath_component (further : path ≠ [])
    (found : world.readPath root path = .ok (.color color))
    (replaced : color.withComponent component value = .ok updated) :
    ∃ (id : EntityId) (field : String), world.field? id field = some (.color color) ∧
      writePath root (path ++ [component]) value world =
        .returned root (world.setField id field (.color updated)) ∧
      (world.setField id field (.color updated)).readPath root path = .ok (.color updated) := by
  induction path generalizing root with
  | nil => exact absurd rfl further
  | cons name rest inductionHypothesis =>
      obtain ⟨first, rfl⟩ := entity_of_colorAt further found
      obtain ⟨inner, read, onward⟩ := (readPath_cons _ _ _).mp found
      have held := field?_of_readField read
      cases rest with
      | nil =>
          cases onward
          refine ⟨first.id, name, held, ?_, ?_⟩
          · rw [List.singleton_append, writePath_cons, read]
            dsimp only
            rw [bind_eq, writePath_ofColor replaced]
            rfl
          · have reread := World.readField_entity (World.field?_setField_self held (.color updated))
            exact (readPath_cons _ _ _).mpr ⟨_, reread, rfl⟩
      | cons next rest =>
          obtain ⟨second, rfl⟩ := entity_of_colorAt (by simp) onward
          obtain ⟨id, field, holds, wrote, reads⟩ := inductionHypothesis (by simp) onward
          -- The field with the color is not one that holds an entity.
          have kept : (world.setField id field (.color updated)).field? first.id name =
              some (.entity second) := by
            rw [World.field?_setField, if_neg ?_, held]
            rintro ⟨rfl, rfl, _⟩
            cases held.symm.trans holds
          refine ⟨id, field, holds, ?_, ?_⟩
          · rw [List.cons_append, List.cons_append, writePath_cons, read]
            dsimp only
            rw [bind_eq, ← List.cons_append, wrote]
            dsimp only
            rw [writeField_entity, World.setField_eq_self kept]
          · exact (readPath_cons _ _ _).mpr ⟨_, World.readField_entity kept, reads⟩

theorem Frame.lookupIn_append {inner : List (Bindings Value)} (outer : List (Bindings Value))
    (apart : ∀ scope ∈ inner, scope.get? name = none) :
    lookupIn name (inner ++ outer) = lookupIn name outer := by
  induction inner with
  | nil => rfl
  | cons scope rest inductionHypothesis =>
      obtain ⟨here, others⟩ := List.forall_mem_cons.mp apart
      rw [List.cons_append, lookupIn, here, Option.none_or, inductionHypothesis others]

theorem Frame.Rebinds.lookup? {frame later : Frame} {old new : Value}
    (rebinds : frame.Rebinds name old new later) : later.lookup? name = some new := by
  obtain ⟨inner, scope, outer, _, apart, _, nested, _⟩ := rebinds
  rw [Frame.lookup?, nested, lookupIn_append _ apart, lookupIn, Bindings.get?_insert, if_pos rfl,
    Option.some_or]

theorem Frame.root_writeBack {frame : Frame} {start : PlaceRoot}
    (begins : frame.root start = .ok root) (plain : root.kind ≠ .entity) (updated : Value) :
    (frame.writeBack start updated).root start = .ok updated := by
  obtain ⟨name, rfl, rebinds⟩ := rebinds_writeBack begins plain updated
  rw [Frame.root, Frame.lookup, rebinds.lookup?]

/-- A component of a color in a local or in a field can be given any number.  Read again, the color
has that component replaced and no other. -/
theorem writePlace_component {frame : Frame} {start : PlaceRoot} {number : Float} {new : Value}
    (fits : color.InRange) (begins : frame.root start = .ok root)
    (found : world.readPath root path = .ok (.color color))
    (replaces : (Value.color color).Replaces component number new) :
    ∃ later after again, writePlace ⟨start, path ++ [component]⟩ (.number number) ⟨frame, world⟩ =
        .returned () ⟨later, after⟩ ∧
      later.root start = .ok again ∧ after.readPath again path = .ok new := by
  obtain ⟨updated, rfl, replaced⟩ := Color.withComponent_of_replaces fits replaces
  rw [writePlace_of_fields (by simp), begins]
  dsimp only
  by_cases direct : path = []
  · subst direct
    cases found
    rw [List.nil_append, writePath_ofColor replaced]
    exact ⟨_, _, _, rfl, Frame.root_writeBack begins (by simp [Value.kind]) _, rfl⟩
  · obtain ⟨id, field, _, wrote, reads⟩ := writePath_component direct found replaced
    have still : frame.writeBack start root = frame := Frame.writeBack_eq_self begins
    rw [wrote]
    dsimp only
    rw [still]
    exact ⟨_, _, _, rfl, begins, reads⟩

end Components

/-- Where a host supplies colors in range, or none, all the colors that there are in a session are
in range, and so is whatever its scripts compute, give names to, keep in fields and draw.  An alpha
that is not a number was asked for as such; every other one is from zero to one.  To write one
component of a color leaves the others as they are. -/
theorem Session.colors_in_range {settings : Settings} {hasKeys : Bool} {operations : List Operation}
    {session : Session} (supplied : ∀ operation ∈ operations, operation.Within Color.InRange)
    (reached : through operations (start (World.initial settings hasKeys)) = some session) :
    session.Within Color.InRange ∧
      (∀ operation first running, operation.Within Color.InRange →
        session.Begins operation first → Relation.ReflTransGen Running.Starts first running →
          running.Within Color.InRange ∧ running.LeavesWithin Color.InRange) ∧
      (∀ builtin arguments world color after,
        callBuiltin builtin arguments world = .returned (.color color) after →
          color.alpha.isNaN = true → builtin = .colorNew ∧ AsksNaN arguments 3) ∧
      (∀ target method arguments world color after,
        callMethod target method arguments world = .returned (.color color) after →
          color.alpha.isNaN = true → method = "withAlpha" ∧ AsksNaN arguments 0) ∧
      ∀ frame world start root path color component number new, color.InRange →
        frame.root start = .ok root → world.readPath root path = .ok (.color color) →
          (Value.color color).Replaces component number new →
            ∃ later after again,
              writePlace ⟨start, path ++ [component]⟩ (.number number) ⟨frame, world⟩ =
                .returned () ⟨later, after⟩ ∧
              later.root start = .ok again ∧ after.readPath again path = .ok new := by
  have closed := Color.closed_inRange
  have initial : (start (World.initial settings hasKeys)).Within Color.InRange :=
    World.within_initial closed settings hasKeys
  have within := within_through closed supplied initial reached
  refine ⟨within, ?_, ?_, ?_, ?_⟩
  · intro operation first running given begins leads
    have kept := Running.within_of_starts closed leads (begins.within closed within given)
    exact ⟨kept, kept.leavesWithin closed⟩
  · intro builtin arguments world color after made nothing
    exact callBuiltin_asked made nothing
  · intro target method arguments world color after made nothing
    exact callMethod_asked made nothing
  · intro frame world start root path color component number new fits begins found replaces
    exact writePlace_component fits begins found replaces

/-- A unit that draws a circle, filled with a color that has the quotient as its alpha. -/
def veiling (dividend divisor : Float) : Program where
  name := "veiling"
  main :=
    let here : Source.Span := ⟨0, 0, 1⟩
    let alpha : Expr := .binary .div (.number dividend here) (.number divisor here) here
    let veil : Expr := .builtin .colorNew
      [.number 1 here, .number 2 here, .number 3 here, alpha] here
    some [.define "veil" veil here, .expr (.builtin .fill [.ident "veil" here] here),
      .expr (.builtin .drawCircle [.builtin .vectorZero [] here, .number 5 here] here)]
  types := []

def veiled (dividend divisor : Float) : List Operation :=
  [.install (veiling dividend divisor), .runMain]

namespace Session

/-- An infinite alpha is brought into range, and the red of the color can be written alone. -/
theorem veil_in_range :
    ∃ session, through (veiled 7 0) (start (World.initial .default false)) = some session ∧
      session.world.canvas.paint.fill = ⟨1, 2, 3, 1⟩ ∧
      (⟨1, 2, 3, 1⟩ : Color).InRange ∧
      ∃ later after, writePlace ⟨.ident "veil", ["r"]⟩ (.number 300)
          ⟨(Frame.of none).define "veil" (.color ⟨1, 2, 3, 1⟩), session.world⟩ =
            .returned () ⟨later, after⟩ ∧
        later.root (.ident "veil") = .ok (.color ⟨255, 2, 3, 1⟩) := by
  have seen : (through (veiled 7 0) (start (World.initial .default false))).map
      (fun session => session.world.canvas.paint.fill) = some ⟨1, 2, 3, 1⟩ := by
    decide +kernel
  obtain ⟨session, reached, filled⟩ := Option.map_eq_some_iff.mp seen
  have supplied : ∀ operation ∈ veiled 7 0, operation.Within Color.InRange := by
    simp [veiled, Operation.Within]
  obtain ⟨within, _, _, _, written⟩ := colors_in_range supplied reached
  have fits : (⟨1, 2, 3, 1⟩ : Color).InRange := filled ▸ within.canvas.paint.1
  have full : Number.toByte 300 = 255 := by decide +kernel
  obtain ⟨later, after, again, wrote, begins, reads⟩ :=
    written ((Frame.of none).define "veil" (.color ⟨1, 2, 3, 1⟩)) session.world (.ident "veil")
      (.color ⟨1, 2, 3, 1⟩) [] ⟨1, 2, 3, 1⟩ "r" 300 _ fits rfl rfl .red
  cases reads
  rw [full] at begins
  exact ⟨session, reached, filled, fits, later, after, wrote, begins⟩

/-- Zero divided by zero is not a number, and the circle is drawn with it all the same. -/
theorem veil_out_of_range :
    ∃ session, through (veiled 0 0) (start (World.initial .default false)) = some session ∧
      ∃ paint, session.world.canvas.commands.toList = [.circle 0 0 (Float.abs 5) paint] ∧
        ¬(0 ≤ paint.fill.alpha ∧ paint.fill.alpha ≤ 1) := by
  have seen : (through (veiled 0 0) (start (World.initial .default false))).map
      (fun session => session.world.canvas.commands.toList) =
        some [.circle 0 0 (Float.abs 5) ⟨⟨1, 2, 3, 0 / 0⟩, .black⟩] := by
    decide +kernel
  obtain ⟨session, reached, recorded⟩ := Option.map_eq_some_iff.mp seen
  exact ⟨session, reached, _, recorded, by decide +kernel⟩

end Session

end EntityScript
