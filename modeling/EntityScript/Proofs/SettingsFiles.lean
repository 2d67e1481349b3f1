import EntityScript.Command
import EntityScript.Proofs.Comparisons

/-!
What is read from a settings file.  JSON cannot spell a value that is not a number, and so the
bound of the time between frames is never one.
-/

namespace EntityScript

open Number
open Float.Model
open Float.Model.UnpackedFloat

namespace JsonNumber

theorem isProper_smallPower : ∀ k < 23, isProper (power k) = true := by
  decide +kernel

theorem isProper_greatPower : ∀ k < 2, isProper (power (307 + k)) = true := by
  decide +kernel

/-- Beyond a table of small ones a power of ten is rounded from its exact value. -/
theorem power_eq_round {k : Nat} (beyond : 22 < k) (range : k ≤ 2048) :
    power k = ofParts
      (roundWithAccuracy .binary64 .positive ((1 <<< 53) * 10 ^ k) (-53) .exact) := by
  have table : ¬(1 < 2 ^ 53 ∧ k ≤ 22) := by omega
  have nonzero : ¬(1 : Nat) = 0 := by decide
  have bounded : ¬(Int.ofNat k > 2 ^ 11) := by
    change ¬((2048 : Int) < k)
    omega
  have above : ¬(Int.ofNat k < -((2 ^ 11 : Int) + (1 : Nat).log2)) := by
    change ¬((k : Int) < _)
    omega
  have whole : (0 : Int) ≤ Int.ofNat k := Int.natCast_nonneg k
  change Float.ofScientific 1 false k = _
  unfold Float.ofScientific
  rw [dif_neg table]
  change ofParts (UnpackedFloat.ofScientific .binary64 1 (Int.ofNat k)) = _
  unfold UnpackedFloat.ofScientific
  rw [dif_neg nonzero, if_neg bounded, if_neg above, if_pos whole]
  rfl

theorem ten_pow_le (n : Nat) : 10 ^ (3 * n) ≤ 2 ^ (10 * n) := by
  rw [Nat.pow_mul, Nat.pow_mul]
  exact Nat.pow_le_pow_left (by decide) n

theorem isProper_power {k : Nat} (range : k ≤ 308) : isProper (power k) = true := by
  by_cases small : k < 23
  · exact isProper_smallPower k small
  by_cases great : 307 ≤ k
  · obtain ⟨more, rfl⟩ := Nat.exists_eq_add_of_le great
    exact isProper_greatPower more (by omega)
  have some_ : 0 < 10 ^ k := by positivity
  obtain ⟨third, few, within⟩ : ∃ third ≤ 102, k ≤ 3 * third := ⟨102, Nat.le_refl _, by omega⟩
  have bounded : 10 ^ k ≤ 2 ^ (10 * third) :=
    Nat.le_trans (Nat.pow_le_pow_right (by decide) within) (ten_pow_le third)
  rw [power_eq_round (by omega) (by omega), Nat.shiftLeft_eq, Nat.one_mul]
  have nonzero : 2 ^ 53 * 10 ^ k ≠ 0 := by positivity
  have least : 52 ≤ (2 ^ 53 * 10 ^ k).log2 := by
    rw [Nat.le_log2 nonzero]
    omega
  have most : (2 ^ 53 * 10 ^ k).log2 < 53 + 10 * third + 1 := by
    rw [Nat.log2_lt nonzero]
    calc 2 ^ 53 * 10 ^ k ≤ 2 ^ 53 * 2 ^ (10 * third) := Nat.mul_le_mul_left _ bounded
      _ = 2 ^ (53 + 10 * third) := (Nat.pow_add ..).symm
      _ < 2 ^ (53 + 10 * third + 1) := Nat.pow_lt_pow_right (by decide) (Nat.lt_succ_self _)
  exact isProper_roundWithAccuracy .positive least (by omega)

theorem isNaN_zero : (0 : Float).isNaN = false := rfl

theorem isNaN_scaled {significand : Nat} {exponent : Int} {x : Float}
    (scaled : scaled? significand exponent = some x) : x.isNaN = false := by
  have number := isNaN_ofNat significand
  unfold scaled? at scaled
  cases exponent with
  | ofNat k =>
      dsimp only at scaled
      split at scaled
      next range =>
        split at scaled
        · cases scaled
        · cases scaled
          exact isNaN_mul number (isProper_power range)
      next =>
        split at scaled
        · cases scaled
          exact isNaN_zero
        · cases scaled
  | negSucc k =>
      dsimp only at scaled
      split at scaled
      next range =>
        cases scaled
        exact isNaN_div number (isProper_power range)
      next =>
        split at scaled
        · cases scaled
          have once := isNaN_div number (isProper_power (Nat.le_refl 308))
          exact isNaN_div once (isProper_power (by omega))
        · cases scaled
          exact isNaN_zero

/-- No spelling stands for a value that is not a number. -/
theorem isNaN_toFloat {literal : JsonNumber} {x : Float} (read : literal.toFloat? = some x) :
    x.isNaN = false := by
  unfold toFloat? at read
  obtain ⟨magnitude, spelled, rfl⟩ := Option.map_eq_some_iff.mp read
  have number : magnitude.isNaN = false := by
    cases written : literal.exponent with
    | none =>
        rw [written] at spelled
        dsimp only at spelled
        split at spelled
        · cases spelled
          exact isNaN_ofNat _
        · exact isNaN_scaled spelled
    | some exponent =>
        rw [written] at spelled
        dsimp only at spelled
        by_cases beyond : maxExponent < natOfDigits exponent.digits
        · rw [if_pos beyond] at spelled
          split at spelled
          · cases spelled
          · cases spelled
            exact isNaN_zero
        · rw [if_neg beyond] at spelled
          exact isNaN_scaled spelled
  split
  · exact isNaN_neg number
  · exact number

end JsonNumber

namespace Settings

/-- The bound for ticks, if there is one, can be compared. -/
def Bounded (settings : Settings) : Prop :=
  ∀ most, settings.maxFrameDelta = some most → most.isNaN = false

theorem bounded_default : Bounded default := nofun

theorem Bounded.put {settings put : Settings} {setting : Setting} {json : Json}
    (bounded : settings.Bounded) (read : settings.put? setting json = some put) :
    put.Bounded := by
  cases setting with
  | maxFrameDelta =>
      obtain ⟨bound, spelled, rfl⟩ := Option.map_eq_some_iff.mp read
      rintro most rfl
      cases json with
      | null => cases spelled
      | number literal =>
          obtain ⟨x, value, same⟩ := Option.map_eq_some_iff.mp spelled
          cases same
          exact JsonNumber.isNaN_toFloat value
      | bool | text | array | object => cases spelled
  | width | height | targetFps | isolateErrors | scriptExtension =>
      obtain ⟨_, _, rfl⟩ := Option.map_eq_some_iff.mp read
      exact bounded

theorem Bounded.putMembers {members : List (Option String × Json)} {given : List Setting}
    {settings read : Settings} (bounded : settings.Bounded)
    (put : settings.putMembers? given members = some read) : read.Bounded := by
  induction members generalizing given settings with
  | nil =>
      cases put
      exact bounded
  | cons member rest inductionHypothesis =>
      obtain ⟨key, json⟩ := member
      cases key with
      | none => cases put
      | some key =>
          rw [putMembers?] at put
          split at put
          · exact inductionHypothesis bounded put
          · split at put
            · cases put
            · obtain ⟨next, first, more⟩ := Option.bind_eq_some_iff.mp put
              exact inductionHypothesis (bounded.put first) more

theorem Bounded.putItems {items : List Json} {order : List Setting}
    {settings read : Settings} (bounded : settings.Bounded)
    (put : settings.putItems? order items = some read) : read.Bounded := by
  induction items generalizing order settings with
  | nil =>
      rw [putItems?] at put
      cases put
      exact bounded
  | cons json rest inductionHypothesis =>
      cases order with
      | nil => cases put
      | cons setting more =>
          obtain ⟨next, first, others⟩ := Option.bind_eq_some_iff.mp put
          exact inductionHypothesis (bounded.put first) others

theorem bounded_of_ofText {text : String} {settings : Settings}
    (read : ofText? text = some settings) : settings.Bounded := by
  obtain ⟨json, _, made⟩ := Option.bind_eq_some_iff.mp read
  cases json with
  | object members => exact bounded_default.putMembers made
  | array items => exact bounded_default.putItems made
  | null | bool | number | text => cases made

/-- Settings that a command runs with have a bound that can be compared, or none. -/
theorem bounded_of_settings {files : FileTree} {config : Option String} {settings : Settings}
    (found : Command.settings? files config = some settings) : settings.Bounded := by
  unfold Command.settings? at found
  split at found
  · cases found
    exact bounded_default
  · split at found
    · cases found
      exact bounded_default
    · split at found
      · exact bounded_of_ofText found
      · cases found

end Settings

end EntityScript
