import EntityScript.Proofs.History
import EntityScript.Script.Eval

/-!
Components.  A value that is not an entity is written by replacing a component of a copy of it.
No component is an entity or has components that can be written, so that a path goes at most one
step into such a value.
-/

namespace EntityScript

open Script

namespace Color

/-- The color with its alpha brought into range.  Writing a component of a color makes a new one,
and so brings the alpha into range as well. -/
def confined (color : Color) : Color := { color with alpha := Number.confine color.alpha 0 1 }

/-- A channel is the number that it is read as. -/
theorem toByte_channel (byte : UInt8) : Number.toByte (channel byte) = byte := by
  have every : ∀ n < 256, Number.toByte (Number.ofNat n) = UInt8.ofNat n := by decide +kernel
  simpa [channel] using every byte.toNat byte.toNat_lt

end Color

/-- The value, a color with its alpha brought into range. -/
def Value.confined : Value → Value
  | .color tint => .color tint.confined
  | other => other

/-- A vector or a color, a component, a number, and what is left of the value with the number in
place of the component.  In a color the number is rounded and brought into range. -/
inductive Value.Replaces : Value → String → Float → Value → Prop
  | x {vector number} : Replaces (.vector vector) "x" number (.vector { vector with x := number })
  | y {vector number} : Replaces (.vector vector) "y" number (.vector { vector with y := number })
  | red {color number} :
      Replaces (.color color) "r" number (.color { color with red := Number.toByte number })
  | green {color number} :
      Replaces (.color color) "g" number (.color { color with green := Number.toByte number })
  | blue {color number} :
      Replaces (.color color) "b" number (.color { color with blue := Number.toByte number })
  | alpha {color number} :
      Replaces (.color color) "a" number (.color { color with alpha := Number.confine number 0 1 })

theorem Vector.replaces_withComponent {vector updated : Vector} {name : String} {value : Value}
    (replaced : vector.withComponent name value = .ok updated) :
    ∃ number, value = .number number ∧
      (Value.vector vector).Replaces name number (.vector updated) := by
  cases value with
  | number number =>
    unfold withComponent at replaced
    refine ⟨number, rfl, ?_⟩
    split at replaced
    · cases replaced; exact .x
    · cases replaced; exact .y
    · cases replaced
  | _ =>
    unfold withComponent at replaced
    split at replaced <;> cases replaced

theorem Color.replaces_withComponent {color updated : Color} {name : String} {value : Value}
    (replaced : color.withComponent name value = .ok updated) :
    ∃ number, value = .number number ∧
      (Value.color color.confined).Replaces name number (.color updated) := by
  cases value with
  | number number =>
    refine ⟨number, rfl, ?_⟩
    simp only [withComponent, Value.asNumber, ofChannels, toByte_channel] at replaced
    simp only [bind, Except.bind] at replaced
    split at replaced
    · cases replaced; exact .red
    · cases replaced; exact .green
    · cases replaced; exact .blue
    · cases replaced; exact .alpha
    · cases replaced
  | _ => cases replaced

section Plain

variable {world after : World} {target updated value : Value} {name : String}
  {path : List String}

/-- No field of a value that is not an entity is an entity, a vector or a color. -/
theorem kind_of_readField (plain : target.kind ≠ .entity) {inner : Value}
    (read : world.readField target name = .ok inner) :
    inner.kind = .number ∨ inner.kind = .text := by
  cases target with
  | entity => exact absurd rfl plain
  | vector vector =>
      simp only [World.readField, Vector.component] at read
      split at read <;> cases read <;> exact .inl rfl
  | color color =>
      simp only [World.readField, Color.component] at read
      split at read <;> cases read <;> exact .inl rfl
  | image image =>
      simp only [World.readField, Image.component] at read
      split at read <;> cases read
      · exact .inl rfl
      · exact .inl rfl
      · exact .inr rfl
  | text content =>
      simp only [World.readField] at read
      split at read <;> cases read
      exact .inl rfl
  | unset | bool | number => cases read

theorem plain_of_readField (plain : target.kind ≠ .entity) {inner : Value}
    (read : world.readField target name = .ok inner) : inner.kind ≠ .entity := by
  rcases kind_of_readField plain read with same | same <;> simp [same]

theorem plain_of_readPath (plain : target.kind ≠ .entity) {inner : Value}
    (read : world.readPath target path = .ok inner) : inner.kind ≠ .entity := by
  induction path generalizing target with
  | nil =>
      cases read
      exact plain
  | cons name rest inductionHypothesis =>
      rw [World.readPath] at read
      cases found : world.readField target name with
      | error error => simp [found, bind, Except.bind] at read
      | ok middle =>
          rw [found] at read
          exact inductionHypothesis (plain_of_readField plain found) read

theorem map_ofAttempt {σ α β : Type} (change : α → β) (attempt : Attempt α) (state : σ) :
    (change <$> ofAttempt attempt : Script σ β) state =
      match attempt with
      | .ok value => .returned (change value) state
      | .error error => .raised error state := by
  cases attempt <;> rfl

theorem replaces_of_writeField (plain : target.kind ≠ .entity)
    (wrote : writeField target name value world = .returned updated after) :
    ∃ number, value = .number number ∧ target.confined.Replaces name number updated := by
  cases target with
  | entity => exact absurd rfl plain
  | vector vector =>
      rw [writeField, map_ofAttempt] at wrote
      cases replaced : vector.withComponent name value with
      | error error => rw [replaced] at wrote; cases wrote
      | ok other =>
          rw [replaced] at wrote
          cases wrote
          exact Vector.replaces_withComponent replaced
  | color color =>
      rw [writeField, map_ofAttempt] at wrote
      cases replaced : color.withComponent name value with
      | error error => rw [replaced] at wrote; cases wrote
      | ok other =>
          rw [replaced] at wrote
          cases wrote
          exact Color.replaces_withComponent replaced
  | unset | bool | number | text | image => cases wrote

theorem writeField_entity (ref : EntityRef) (name : String) (value : Value) (world : World) :
    writeField (.entity ref) name value world =
      .returned (.entity ref) (world.setField ref.id name value) := rfl

/-- To write to a value that is not an entity does nothing to the world. -/
theorem writeField_keeps (plain : target.kind ≠ .entity)
    (ends : (writeField target name value world).state? = some after) : after = world := by
  cases target with
  | entity => exact absurd rfl plain
  | vector vector =>
      rw [writeField, map_ofAttempt] at ends
      split at ends <;> cases ends <;> rfl
  | color color =>
      rw [writeField, map_ofAttempt] at ends
      split at ends <;> cases ends <;> rfl
  | unset | bool | number | text | image =>
      cases ends
      rfl

/-- The first step of a path of several fields, the rest of it, and the step back. -/
theorem writePath_cons (target : Value) (name next : String) (rest : List String) (value : Value)
    (world : World) :
    writePath target (name :: next :: rest) value world =
      match world.readField target name with
      | .error error => .raised error world
      | .ok inner =>
          (do
            let updated ← writePath inner (next :: rest) value
            writeField target name updated : Script World Value) world := by
  rw [writePath]
  · change (ofAttempt (world.readField target name) >>= _) world = _
    cases world.readField target name <;> rfl
  · simp

theorem writePath_keeps (plain : target.kind ≠ .entity)
    (ends : (writePath target path value world).state? = some after) : after = world := by
  induction path generalizing target after with
  | nil =>
      cases ends
      rfl
  | cons name rest inductionHypothesis =>
      cases rest with
      | nil => exact writeField_keeps plain ends
      | cons next rest =>
          rw [writePath_cons] at ends
          cases read : world.readField target name with
          | error error =>
              rw [read] at ends
              cases ends
              rfl
          | ok inner =>
              rw [read] at ends
              have inside := plain_of_readField plain read
              rcases ends_bind ends with ⟨updated, middle, wrote, back⟩ | ⟨error, failed⟩
              · have same := inductionHypothesis inside (by rw [wrote]; rfl)
                rw [writeField_keeps plain back, same]
              · exact inductionHypothesis inside (by rw [failed]; rfl)

/-- What is written to a value that is not an entity is a component of it. -/
theorem replaces_of_writePath (plain : target.kind ≠ .entity) (further : path ≠ [])
    (wrote : writePath target path value world = .returned updated after) :
    ∃ name number, path = [name] ∧ value = .number number ∧
      target.confined.Replaces name number updated := by
  induction path generalizing target updated after with
  | nil => exact absurd rfl further
  | cons name rest inductionHypothesis =>
      cases rest with
      | nil =>
          obtain ⟨number, same, replaces⟩ := replaces_of_writeField plain wrote
          exact ⟨name, number, rfl, same, replaces⟩
      | cons next rest =>
          rw [writePath_cons] at wrote
          cases read : world.readField target name with
          | error error =>
              rw [read] at wrote
              cases wrote
          | ok inner =>
              rw [read] at wrote
              obtain ⟨_, _, inside, _⟩ := returned_bind wrote
              have kind := kind_of_readField plain read
              -- Neither numbers nor texts have components that can be written.
              obtain ⟨_, _, _, _, replaces⟩ :=
                inductionHypothesis (plain_of_readField plain read) (by simp) inside
              cases inner <;> rcases kind with same | same <;> cases same <;> cases replaces

end Plain

end EntityScript
