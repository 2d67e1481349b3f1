import EntityScript.Number.Arithmetic
import EntityScript.Proofs.WholeNumbers

/-!
Values that are not a number, and the order of those that are.
-/

namespace EntityScript.Number

open Float.Model
open Float.Model.UnpackedFloat

variable {x y : Float}

theorem isNaN_eq (x : Float) : x.isNaN = (parts x).isNaN := rfl

theorem le_iff_compare :
    x ≤ y ↔ (UnpackedFloat.compare (parts x) (parts y)).any Ordering.isLE = true := by
  change Float.le x y = true ↔ _
  unfold Float.le
  rw [decide_eq_true_iff]
  rfl

theorem compare_swap (u v : UnpackedFloat) :
    UnpackedFloat.compare v u = (UnpackedFloat.compare u v).map Ordering.swap := by
  cases u with
  | notANumber => cases v <;> rfl
  | infinity sign | zero sign =>
      cases v with
      | notANumber => cases sign <;> rfl
      | infinity sign' | zero sign' => cases sign <;> cases sign' <;> rfl
      | finite sign' => cases sign <;> cases sign' <;> rfl
  | finite sign m e =>
      cases v with
      | notANumber => cases sign <;> rfl
      | infinity sign' | zero sign' => cases sign <;> cases sign' <;> rfl
      | finite sign' m' e' =>
          cases sign <;> cases sign' <;>
            simp only [UnpackedFloat.compare, Option.map_some, Ordering.swap_then,
              ← Std.OrientedOrd.eq_swap] <;> rfl

/-- Only what is not a number cannot be compared. -/
theorem exists_compare {u v : UnpackedFloat} (first : u.isNaN = false)
    (second : v.isNaN = false) : ∃ order, UnpackedFloat.compare u v = some order := by
  cases u with
  | notANumber => cases first
  | infinity sign | zero sign | finite sign =>
      cases v with
      | notANumber => cases second
      | infinity sign' | zero sign' | finite sign' => cases sign <;> cases sign' <;> exact ⟨_, rfl⟩

theorem isNaN_of_compare {u v : UnpackedFloat} {order : Ordering}
    (compared : UnpackedFloat.compare u v = some order) : u.isNaN = false ∧ v.isNaN = false := by
  cases u <;> cases v <;> first | exact ⟨rfl, rfl⟩ | simp [UnpackedFloat.compare] at compared

theorem isNaN_left_of_lt (less : x < y) : x.isNaN = false :=
  (isNaN_of_compare (lt_iff_compare.mp less)).1

theorem isNaN_right_of_lt (less : x < y) : y.isNaN = false :=
  (isNaN_of_compare (lt_iff_compare.mp less)).2

theorem le_of_lt (less : x < y) : x ≤ y := by
  rw [le_iff_compare, lt_iff_compare.mp less]
  rfl

theorem not_lt_of_le (atMost : x ≤ y) : ¬y < x := by
  intro less
  rw [lt_iff_compare] at less
  rw [le_iff_compare, compare_swap, less] at atMost
  cases atMost

theorem le_of_not_lt (first : x.isNaN = false) (second : y.isNaN = false) (other : ¬x < y) :
    y ≤ x := by
  rw [isNaN_eq] at first second
  obtain ⟨order, compared⟩ := exists_compare first second
  rw [lt_iff_compare, compared] at other
  rw [le_iff_compare, compare_swap, compared]
  cases order with
  | lt => exact absurd rfl other
  | eq | gt => rfl

theorem le_refl (number : x.isNaN = false) : x ≤ x := by
  rw [isNaN_eq] at number
  obtain ⟨order, compared⟩ := exists_compare number number
  have swapped := compare_swap (parts x) (parts x)
  rw [le_iff_compare, compared]
  rw [compared] at swapped
  cases order with
  | gt => cases swapped
  | lt | eq => rfl

/-- Of a number and any value the greatest is a number, and is not less than that number. -/
theorem le_greatest (x : Float) (number : y.isNaN = false) :
    (greatest x y).isNaN = false ∧ y ≤ greatest x y := by
  unfold greatest
  rw [number, Bool.or_false]
  by_cases greater : y < x
  · rw [if_pos (decide_eq_true greater)]
    exact ⟨isNaN_right_of_lt greater, le_of_lt greater⟩
  · rw [if_neg (by simpa using greater)]
    exact ⟨number, le_refl number⟩

theorem isNaN_unpack_packComponents (sign : Sign) {exponent : BitVec 11} {mantissa : BitVec 52}
    (number : exponent ≠ -1#11 ∨ mantissa = 0#52) :
    (UnpackedFloat.unpack .binary64 (packComponents .binary64 sign exponent mantissa)).isNaN =
      false := by
  unfold UnpackedFloat.unpack
  simp only [unpackExponent_packComponents, unpackMantissa_packComponents]
  split
  next greatest =>
    rw [if_pos (number.resolve_left fun other => other greatest)]
    rfl
  next =>
    split
    · split <;> rfl
    · rfl

/-- Rounding may lead to zero or beyond all numbers, but the value stays one that can be
compared. -/
theorem isNaN_ofParts {u : UnpackedFloat} (number : u.isNaN = false) :
    (ofParts u).isNaN = false := by
  change (UnpackedFloat.unpack .binary64 (UnpackedFloat.pack .binary64 u)).isNaN = false
  cases u with
  | notANumber => cases number
  | infinity sign | zero sign => exact isNaN_unpack_packComponents sign (.inr rfl)
  | finite sign m e positive =>
      unfold UnpackedFloat.pack
      dsimp only
      split
      · exact isNaN_unpack_packComponents sign (.inr rfl)
      next bounded =>
        split
        · refine isNaN_unpack_packComponents sign (.inl fun greatest => bounded ?_)
          have value := congrArg BitVec.toNat greatest
          rw [BitVec.toNat_ofNat] at value
          have all : (-1#11).toNat = 2047 := by decide
          omega
        · exact isNaN_unpack_packComponents sign (.inl (by decide))

theorem isNaN_roundWithAccuracy (spec : Format) (sign : Sign) (m : Nat) (e : Int)
    (accuracy : Accuracy) : (roundWithAccuracy spec sign m e accuracy).isNaN = false := by
  unfold roundWithAccuracy
  dsimp only
  split <;> rfl

theorem isNaN_ofDyadic (m e : Int) (zeroSign : Sign) : (ofDyadic m e zeroSign).isNaN = false := by
  apply isNaN_ofParts
  unfold UnpackedFloat.normalize
  split
  · exact isNaN_roundWithAccuracy ..
  · rfl
  · exact isNaN_roundWithAccuracy ..

theorem isNaN_ofNat (n : Nat) : (ofNat n).isNaN = false := isNaN_ofDyadic n 0 .positive

theorem isNaN_neg (number : x.isNaN = false) : (-x).isNaN = false := by
  apply isNaN_ofParts
  change (UnpackedFloat.neg (parts x)).isNaN = false
  rw [isNaN_eq] at number
  cases made : parts x with
  | notANumber =>
      rw [made] at number
      cases number
  | infinity | zero | finite => rfl

/-- Whether a value is a number that is neither zero nor infinite. -/
def isProper (x : Float) : Bool :=
  match parts x with
  | .finite .. => true
  | _ => false

theorem isProper_iff :
    isProper x = true ↔ ∃ sign m e positive, parts x = .finite sign m e positive := by
  unfold isProper
  cases parts x with
  | finite sign m e positive => exact iff_of_true rfl ⟨sign, m, e, positive, rfl⟩
  | notANumber | infinity | zero => exact iff_of_false nofun nofun

theorem isNaN_mul (number : x.isNaN = false) (proper : isProper y = true) :
    (x * y).isNaN = false := by
  obtain ⟨sign, m, e, positive, made⟩ := isProper_iff.mp proper
  apply isNaN_ofParts
  change (UnpackedFloat.mul .binary64 (parts x) (parts y)).isNaN = false
  rw [made]
  rw [isNaN_eq] at number
  cases factor : parts x with
  | notANumber =>
      rw [factor] at number
      cases number
  | infinity | zero => rfl
  | finite => exact isNaN_roundWithAccuracy ..

theorem isNaN_div (number : x.isNaN = false) (proper : isProper y = true) :
    (x / y).isNaN = false := by
  obtain ⟨sign, m, e, positive, made⟩ := isProper_iff.mp proper
  apply isNaN_ofParts
  change (UnpackedFloat.div .binary64 (parts x) (parts y)).isNaN = false
  rw [made]
  rw [isNaN_eq] at number
  cases dividend : parts x with
  | notANumber =>
      rw [dividend] at number
      cases number
  | infinity | zero => rfl
  | finite => exact isNaN_roundWithAccuracy ..

theorem mantissa_shiftRight (extended : ExtendedMantissa) (k : Nat) :
    (extended >>> k).mantissa = extended.mantissa / 2 ^ k := by
  induction k with
  | zero => simp [HShiftRight.hShiftRight, Nat.repeat]
  | succ k inductionHypothesis =>
      change (extended >>> k).mantissa / 2 = _
      rw [inductionHypothesis, Nat.div_div_eq_div_mul, Nat.pow_succ]

theorem roundedMantissa_bounds (extended : ExtendedMantissa) :
    extended.mantissa ≤ extended.roundedMantissa ∧
      extended.roundedMantissa ≤ extended.mantissa + 1 := by
  unfold ExtendedMantissa.roundedMantissa
  cases extended.accuracy with
  | exact => exact ⟨Nat.le_refl _, Nat.le_succ _⟩
  | inexact order => cases order <;> simp only [Accuracy.roundToNearestEven] <;> omega

/-- Once a mantissa of 53 bits is left of a value, rounding changes it by one at most.  To round up
may take a bit more, and only then the exponent goes up by one. -/
theorem exists_rounded (sign : Sign) {m : Nat} {e e' : Int} {accuracy : Accuracy}
    {extended : ExtendedMantissa}
    (shifted : shiftToTargetExponent .binary64 m e accuracy = (extended, e'))
    (normal : 2 ^ 52 ≤ extended.mantissa ∧ extended.mantissa < 2 ^ 53) (above : -1074 ≤ e') :
    ∃ m' carry, ∃ positive : 0 < m',
      roundWithAccuracy .binary64 sign m e accuracy =
          .finite sign m' (e' + (carry : Nat)) positive ∧
        (2 ^ 52 ≤ m' ∧ m' < 2 ^ 53) ∧ carry ≤ 1 ∧
        extended.mantissa ≤ m' * 2 ^ carry ∧ m' * 2 ^ carry ≤ extended.mantissa + 1 := by
  have bounds := roundedMantissa_bounds extended
  obtain ⟨m', carry, rounded, normal', small⟩ : ∃ m' carry,
      extended.roundedMantissa = m' * 2 ^ carry ∧ (2 ^ 52 ≤ m' ∧ m' < 2 ^ 53) ∧ carry ≤ 1 := by
    by_cases carried : extended.roundedMantissa = 2 ^ 53
    · exact ⟨2 ^ 52, 1, carried, by decide, Nat.le_refl 1⟩
    · exact ⟨extended.roundedMantissa, 0, by omega, by omega, Nat.zero_le 1⟩
  exact ⟨m', carry, by omega, roundWithAccuracy_eq shifted rounded normal' above (by omega),
    normal', small, rounded ▸ bounds.1, rounded ▸ bounds.2⟩

/-- A value with 53 bits or more in the range of the exponents is rounded to a proper one. -/
theorem isProper_roundWithAccuracy (sign : Sign) {m : Nat} {e : Int} (many : 52 ≤ m.log2)
    (range : -1022 ≤ m.log2 + e ∧ m.log2 + e ≤ 1022) :
    isProper (ofParts (roundWithAccuracy .binary64 sign m e .exact)) = true := by
  have some_ : m ≠ 0 := by
    rintro rfl
    cases many
  obtain ⟨k, bits⟩ := Nat.exists_eq_add_of_le many
  have target := targetExponent_of_log2 (e := e) bits (by omega)
  have amount : (e + k - e).toNat = k := by omega
  obtain ⟨extended, shifted, kept⟩ : ∃ extended : ExtendedMantissa,
      shiftToTargetExponent .binary64 m e .exact = (extended, e + k) ∧
        extended.mantissa = m / 2 ^ k := by
    refine ⟨_, ?_, mantissa_shiftRight (.ofMantissaAndAccuracy m .exact) k⟩
    simp only [shiftToTargetExponent, shiftToExponent, target, amount]
  have normal : 2 ^ 52 ≤ extended.mantissa ∧ extended.mantissa < 2 ^ 53 := by
    have magnitude := (Nat.log2_eq_iff some_).mp bits
    rw [Nat.add_right_comm, Nat.pow_add, Nat.pow_add] at magnitude
    rw [kept, Nat.le_div_iff_mul_le (by positivity), Nat.div_lt_iff_lt_mul (by positivity)]
    exact magnitude
  obtain ⟨m', carry, positive, final, normal', small, _⟩ :=
    exists_rounded sign shifted normal (by omega)
  rw [isProper_iff, final, parts_ofParts normal' (by omega)]
  exact ⟨sign, m', e + k + carry, positive, rfl⟩

end EntityScript.Number
