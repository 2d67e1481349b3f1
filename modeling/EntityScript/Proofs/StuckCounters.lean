import EntityScript.Proofs.WholeNumbers

/-!
Adding one over and over.  Beyond `2^53` one is half of what lies between two numbers or less, and
a sum is rounded to the nearest of them, or to the even one of two.  So a whole number that one is
added to again and again goes up to `2^53` at most, or does not get away from where it is, and after
`2^54 + 3` additions it no longer changes.
-/

namespace EntityScript.Number

open Float.Model
open Float.Model.UnpackedFloat

section Nearest

variable {sign : Sign} {m k q r j : Nat} {e : Int}

/-- What is shifted out is told by its highest bit and by whether there is anything below. -/
theorem shiftRight_succ (m k : Nat) :
    ExtendedMantissa.ofMantissaAndAccuracy m .exact >>> (k + 1) =
      ⟨m / 2 ^ (k + 1), m / 2 ^ k % 2 != 0, m % 2 ^ k != 0⟩ := by
  induction k with
  | zero =>
      change ExtendedMantissa.shiftRightOne ⟨m, false, false⟩ = _
      simp [ExtendedMantissa.shiftRightOne, Nat.mod_one]
  | succ k inductionHypothesis =>
      change ExtendedMantissa.shiftRightOne
        (ExtendedMantissa.ofMantissaAndAccuracy m .exact >>> (k + 1)) = _
      rw [inductionHypothesis, ExtendedMantissa.shiftRightOne, Nat.div_div_eq_div_mul,
        ← Nat.pow_succ, Nat.mod_pow_succ]
      congr 1
      rcases Nat.mod_two_eq_zero_or_one (m / 2 ^ k) with even | odd
      · simp [even]
      · simp [odd]

/-- The quotient is rounded up when the rest is more than a half, and to the even one when it is a
half. -/
theorem roundedMantissa_shiftRight (small : r < 2 ^ (k + 1)) :
    (ExtendedMantissa.ofMantissaAndAccuracy (q * 2 ^ (k + 1) + r) .exact >>>
      (k + 1)).roundedMantissa =
      Accuracy.roundToNearestEven q (.inexact (compare r (2 ^ k))) := by
  have some_ : 0 < 2 ^ k := by positivity
  have double : 2 ^ (k + 1) = 2 * 2 ^ k := by ring
  have quotient : (q * 2 ^ (k + 1) + r) / 2 ^ (k + 1) = q := by
    rw [Nat.add_comm, Nat.add_mul_div_right _ _ (by positivity), Nat.div_eq_of_lt small,
      Nat.zero_add]
  have split_ : q * 2 ^ (k + 1) + r = r + 2 * q * 2 ^ k := by rw [double]; ring
  have highest : (q * 2 ^ (k + 1) + r) / 2 ^ k % 2 = r / 2 ^ k := by
    have bit : r / 2 ^ k < 2 := Nat.div_lt_of_lt_mul (by omega)
    rw [split_, Nat.add_mul_div_right _ _ some_, Nat.add_mul_mod_self_left, Nat.mod_eq_of_lt bit]
  have below : (q * 2 ^ (k + 1) + r) % 2 ^ k = r % 2 ^ k := by
    rw [split_, Nat.add_mul_mod_self_right]
  rw [shiftRight_succ, quotient, highest, below]
  rcases Nat.lt_trichotomy r (2 ^ k) with less | same | more
  · rw [Nat.div_eq_of_lt less, compare_lt_iff_lt.mpr less]
    cases rest : r % 2 ^ k != 0 <;> rfl
  · rw [same, Nat.div_self some_, Nat.mod_self, compare_eq_iff_eq.mpr rfl]
    rfl
  · have one : r / 2 ^ k = 1 := Nat.div_eq_of_lt_le (by omega) (by omega)
    have rest : r % 2 ^ k ≠ 0 := by
      have parts := Nat.div_add_mod r (2 ^ k)
      rw [one] at parts
      omega
    rw [one, compare_gt_iff_gt.mpr more, bne_iff_ne.mpr rest]
    rfl

theorem round_nearest {m' carry : Nat} (normal : 2 ^ 52 ≤ q ∧ q < 2 ^ 53) (small : r < 2 ^ (k + 1))
    (rounded : Accuracy.roundToNearestEven q (.inexact (compare r (2 ^ k))) = m' * 2 ^ carry)
    (normal' : 2 ^ 52 ≤ m' ∧ m' < 2 ^ 53) (above : -1074 ≤ e + (k + 1 : Nat))
    (positive : 0 < m') :
    UnpackedFloat.round .binary64 sign (q * 2 ^ (k + 1) + r) e =
      .finite sign m' (e + (k + 1 : Nat) + carry) positive := by
  have bits : (q * 2 ^ (k + 1) + r).log2 = 52 + (k + 1) := by
    have least : 2 ^ 52 * 2 ^ (k + 1) ≤ q * 2 ^ (k + 1) := Nat.mul_le_mul_right _ normal.1
    have most : (q + 1) * 2 ^ (k + 1) ≤ 2 ^ 53 * 2 ^ (k + 1) := Nat.mul_le_mul_right _ normal.2
    rw [Nat.succ_mul] at most
    rw [Nat.log2_eq_iff (by omega), Nat.add_right_comm, Nat.pow_add 2 52, Nat.pow_add 2 53]
    omega
  have target := targetExponent_of_log2 bits above
  have amount : (e - (e + (k + 1 : Nat))).toNat = 0 := by omega
  have amount' : (e + (k + 1 : Nat) - e).toNat = k + 1 := by omega
  have shifted : shiftToTargetExponent .binary64 (q * 2 ^ (k + 1) + r) e .exact =
      (ExtendedMantissa.ofMantissaAndAccuracy (q * 2 ^ (k + 1) + r) .exact >>> (k + 1),
        e + (k + 1 : Nat)) := by
    simp only [shiftToTargetExponent, shiftToExponent, target, amount']
  have kept := (roundedMantissa_shiftRight small).trans rounded
  simp only [UnpackedFloat.round, target, decreaseExponent, amount, Nat.shiftLeft_zero,
    Nat.cast_zero, Int.sub_zero, roundWithAccuracy_eq shifted kept normal' above positive]

/-- The sum with one of a number whose exponent is one or more. -/
theorem add_one_rounds {m' carry : Nat} {positive : 0 < m}
    (value : sign.apply (m * 2 ^ (53 + j) : Nat) + 2 ^ 52 =
      sign.apply (q * 2 ^ (k + 1) + r : Nat))
    (normal : 2 ^ 52 ≤ q ∧ q < 2 ^ 53) (small : r < 2 ^ (k + 1))
    (rounded : Accuracy.roundToNearestEven q (.inexact (compare r (2 ^ k))) = m' * 2 ^ carry)
    (normal' : 2 ^ 52 ≤ m' ∧ m' < 2 ^ 53) (positive' : 0 < m') (same : e = k + carry - 51) :
    UnpackedFloat.add .binary64 (.finite sign m (j + 1) positive) (parts 1) =
      .finite sign m' e positive' := by
  have exponent : (j : Int) + 1 = (53 + j : Nat) - 52 := by omega
  have exponent' : e = -52 + (k + 1 : Nat) + carry := by omega
  have some_ : 0 < q * 2 ^ (k + 1) := Nat.mul_pos (by omega) (by positivity)
  rw [exponent, exponent', add_one_parts, value, normalize_apply (by omega)]
  exact round_nearest normal small rounded normal' (by omega) positive'

/-- One is half of what lies between two numbers, or less. -/
theorem nearest_below (q j : Nat) :
    Accuracy.roundToNearestEven q (.inexact (compare (2 ^ 52) (2 ^ (52 + j)))) =
      if j = 0 then q + q % 2 else q := by
  cases j with
  | zero => rfl
  | succ j =>
      have less : 2 ^ 52 < 2 ^ (52 + (j + 1)) := Nat.pow_lt_pow_right (by decide) (by omega)
      rw [compare_lt_iff_lt.mpr less]
      rfl

theorem nearest_above (q j : Nat) :
    Accuracy.roundToNearestEven q (.inexact (compare (2 ^ (53 + j) - 2 ^ 52) (2 ^ (52 + j)))) =
      if j = 0 then q + q % 2 else q + 1 := by
  cases j with
  | zero => rfl
  | succ j =>
      have less : 2 ^ 52 < 2 ^ (52 + (j + 1)) := Nat.pow_lt_pow_right (by decide) (by omega)
      have double : 2 ^ (53 + (j + 1)) = 2 * 2 ^ (52 + (j + 1)) := by ring
      rw [double, compare_gt_iff_gt.mpr (by omega)]
      rfl

end Nearest

section Steady

variable {m j : Nat} {positive : 0 < m}

theorem add_one_positive (normal : 2 ^ 52 ≤ m ∧ m < 2 ^ 53) (even : j = 0 → m % 2 = 0) :
    UnpackedFloat.add .binary64 (.finite .positive m (j + 1) positive) (parts 1) =
      .finite .positive m (j + 1) positive := by
  have small : 2 ^ 52 < 2 ^ (52 + j + 1) := Nat.pow_lt_pow_right (by decide) (by omega)
  have value : Sign.positive.apply (m * 2 ^ (53 + j) : Nat) + 2 ^ 52 =
      Sign.positive.apply (m * 2 ^ (52 + j + 1) + 2 ^ 52 : Nat) := by
    rw [show 52 + j + 1 = 53 + j by omega]
    rfl
  have rounded : (if j = 0 then m + m % 2 else m) = m * 2 ^ 0 := by
    split <;> omega
  exact add_one_rounds value normal small ((nearest_below m j).trans rounded) normal positive
    (by omega)

/-- Below zero the sum lies above the mantissa before, by all of the space between them but one. -/
theorem apply_negative_add (q j : Nat) :
    Sign.negative.apply ((q + 1) * 2 ^ (53 + j) : Nat) + 2 ^ 52 =
      Sign.negative.apply (q * 2 ^ (52 + j + 1) + (2 ^ (53 + j) - 2 ^ 52) : Nat) := by
  have some_ : 2 ^ 52 ≤ 2 ^ (53 + j) := Nat.pow_le_pow_right (by decide) (by omega)
  rw [show 52 + j + 1 = 53 + j by omega, Nat.succ_mul]
  simp only [Sign.apply]
  omega

theorem sub_lt_double (j : Nat) : 2 ^ (53 + j) - 2 ^ 52 < 2 ^ (52 + j + 1) := by
  have some_ : 0 < 2 ^ (53 + j) := by positivity
  rw [show 52 + j + 1 = 53 + j by omega]
  omega

/-- Below zero a number is only left when it is the last one before the numbers come closer, or when
the tie is between an odd mantissa and the one below. -/
theorem add_one_negative (normal : 2 ^ 52 ≤ m ∧ m < 2 ^ 53) (even : j = 0 → m % 2 = 0)
    (beyond : 2 ^ 52 < m ∨ 0 < j) :
    UnpackedFloat.add .binary64 (.finite .negative m (j + 1) positive) (parts 1) =
      .finite .negative m (j + 1) positive := by
  by_cases last : m = 2 ^ 52
  · -- The sum is less in magnitude than any mantissa with this exponent, and is rounded up to it.
    obtain ⟨i, rfl⟩ : ∃ i, j = i + 1 := ⟨j - 1, by omega⟩
    subst last
    have value := apply_negative_add (2 ^ 53 - 1) i
    rw [show (2 ^ 53 - 1 + 1) * 2 ^ (53 + i) = 2 ^ 52 * 2 ^ (53 + (i + 1)) by ring] at value
    have rounded : (if i = 0 then 2 ^ 53 - 1 + (2 ^ 53 - 1) % 2 else 2 ^ 53 - 1 + 1) =
        2 ^ 52 * 2 ^ 1 := by
      split <;> rfl
    exact add_one_rounds value (by decide) (sub_lt_double i) ((nearest_above _ i).trans rounded)
      normal positive (by omega)
  · obtain ⟨q, rfl⟩ : ∃ q, m = q + 1 := ⟨m - 1, by omega⟩
    have rounded : (if j = 0 then q + q % 2 else q + 1) = (q + 1) * 2 ^ 0 := by
      split <;> omega
    exact add_one_rounds (apply_negative_add q j) (by omega) (sub_lt_double j)
      ((nearest_above q j).trans rounded) normal positive (by omega)

/-- An odd mantissa is rounded up to the next one, which is even, or one of a bit more. -/
theorem add_one_odd_positive (positive : 0 < m) (normal : 2 ^ 52 ≤ m ∧ m < 2 ^ 53)
    (odd : m % 2 = 1) :
    ∃ m' carry, ∃ positive' : 0 < m',
      UnpackedFloat.add .binary64 (.finite .positive m 1 positive) (parts 1) =
        .finite .positive m' ((carry : Nat) + 1) positive' ∧
      (2 ^ 52 ≤ m' ∧ m' < 2 ^ 53) ∧ carry ≤ 1 ∧ (carry = 0 → m' % 2 = 0) := by
  obtain ⟨m', carry, sum, normal', small, even⟩ : ∃ m' carry, m + m % 2 = m' * 2 ^ carry ∧
      (2 ^ 52 ≤ m' ∧ m' < 2 ^ 53) ∧ carry ≤ 1 ∧ (carry = 0 → m' % 2 = 0) := by
    by_cases carried : m + 1 = 2 ^ 53
    · exact ⟨2 ^ 52, 1, by omega, by decide, Nat.le_refl 1, nofun⟩
    · exact ⟨m + 1, 0, by omega, by omega, Nat.zero_le 1, by omega⟩
  have value : Sign.positive.apply (m * 2 ^ 53 : Nat) + 2 ^ 52 =
      Sign.positive.apply (m * 2 ^ (52 + 1) + 2 ^ 52 : Nat) := rfl
  have positive' : 0 < m' := by omega
  refine ⟨m', carry, positive', ?_, normal', small, even⟩
  exact add_one_rounds (j := 0) value normal (by decide) ((nearest_below m 0).trans sum) normal'
    positive' (by omega)

theorem add_one_odd_negative (positive : 0 < m) (normal : 2 ^ 52 ≤ m ∧ m < 2 ^ 53)
    (odd : m % 2 = 1) :
    ∃ positive', UnpackedFloat.add .binary64 (.finite .negative m 1 positive) (parts 1) =
      .finite .negative (m - 1) 1 positive' := by
  obtain ⟨q, rfl⟩ : ∃ q, m = q + 1 := ⟨m - 1, by omega⟩
  have positive' : 0 < q := by omega
  have rounded : q + q % 2 = q * 2 ^ 0 := by omega
  exact ⟨positive', add_one_rounds (j := 0) (apply_negative_add q 0) (by omega) (by decide)
    ((nearest_above q 0).trans rounded) (by omega) positive' (by omega)⟩

end Steady

/-- After so many additions of one to a number a further one changes nothing. -/
def StuckAfter (steps : Nat) (x : Float) : Prop := (· + 1)^[steps] x + 1 = (· + 1)^[steps] x

section Stuck

variable {x : Float} {n : Int} {steps more : Nat} {sign : Sign} {m j : Nat} {positive : 0 < m}

theorem StuckAfter.eq (stuck : StuckAfter steps x) (later : steps ≤ more) :
    (· + 1)^[more] x = (· + 1)^[steps] x := by
  obtain ⟨further, rfl⟩ := Nat.exists_eq_add_of_le' later
  rw [Function.iterate_add_apply]
  have fixed : (· + 1) ((· + 1)^[steps] x) = (· + 1)^[steps] x := stuck
  exact Function.iterate_fixed fixed further

theorem StuckAfter.mono (stuck : StuckAfter steps x) (later : steps ≤ more) :
    StuckAfter more x := by
  unfold StuckAfter
  rw [stuck.eq later]
  exact stuck

theorem StuckAfter.succ (stuck : StuckAfter steps (x + 1)) : StuckAfter (steps + 1) x := stuck

theorem parts_add_one {m' : Nat} {e e' : Int} {positive' : 0 < m'}
    (made : parts x = .finite sign m e positive)
    (sum : UnpackedFloat.add .binary64 (.finite sign m e positive) (parts 1) =
      .finite sign m' e' positive')
    (normal : 2 ^ 52 ≤ m' ∧ m' < 2 ^ 53) (range : -1074 ≤ e' ∧ e' ≤ 971) :
    parts (x + 1) = .finite sign m' e' positive' := by
  rw [add_eq, made, sum, parts_ofParts normal range]

/-- When one is lost in a number, the sum is made of the same parts, and one is lost in it too. -/
theorem stuckAfter_of_steady (made : parts x = .finite sign m (j + 1) positive)
    (normal : 2 ^ 52 ≤ m ∧ m < 2 ^ 53)
    (steady : UnpackedFloat.add .binary64 (.finite sign m (j + 1) positive) (parts 1) =
      .finite sign m (j + 1) positive) : StuckAfter 1 x := by
  have again := parts_add_one made steady normal ⟨by omega, (bounds_of_parts made).2.2⟩
  change x + 1 + 1 = x + 1
  rw [add_eq (x + 1), again, add_eq, made]

theorem stuckAfter_above (whole : IsWhole x n) (above : 2 ^ 53 ≤ n) : StuckAfter 2 x := by
  obtain ⟨sign, m, j, positive, made, normal, value⟩ := whole.exists_exponent (by omega)
  obtain rfl : sign = .positive := by
    cases sign with
    | positive => rfl
    | negative =>
        simp only [Sign.apply] at value
        omega
  by_cases even : j = 0 → m % 2 = 0
  · exact (stuckAfter_of_steady made normal (add_one_positive normal even)).mono (by decide)
  · obtain ⟨rfl, odd⟩ := Classical.not_imp.mp even
    obtain ⟨m', carry, positive', sum, normal', small, even'⟩ :=
      add_one_odd_positive positive normal (by omega)
    have made' := parts_add_one made sum normal' (by omega)
    exact (stuckAfter_of_steady made' normal' (add_one_positive normal' even')).succ

/-- From `-2^53` on a counter goes up to `2^53`. -/
theorem stuckAfter_upward (below : Nat) (near : below ≤ 2 ^ 54)
    (whole : IsWhole x (2 ^ 53 - below)) : StuckAfter (below + 2) x := by
  induction below generalizing x with
  | zero => exact stuckAfter_above whole (by omega)
  | succ below inductionHypothesis =>
      have next := whole.add_one (by omega)
      rw [show (2 ^ 53 - (below + 1 : Nat) + 1 : Int) = 2 ^ 53 - below by omega] at next
      exact (inductionHypothesis (by omega) next).succ

theorem stuckAfter_below (whole : IsWhole x n) (below : n < -2 ^ 53) :
    StuckAfter (2 ^ 54 + 3) x := by
  obtain ⟨sign, m, j, positive, made, normal, value⟩ := whole.exists_exponent (by omega)
  obtain rfl : sign = .negative := by
    cases sign with
    | negative => rfl
    | positive =>
        simp only [Sign.apply] at value
        omega
  simp only [Sign.apply] at value
  have beyond : 2 ^ 52 < m ∨ 0 < j := by
    by_contra last
    obtain ⟨rfl, rfl⟩ : m = 2 ^ 52 ∧ j = 0 := by omega
    omega
  by_cases even : j = 0 → m % 2 = 0
  · exact (stuckAfter_of_steady made normal (add_one_negative normal even beyond)).mono
      (by decide)
  · obtain ⟨rfl, odd⟩ := Classical.not_imp.mp even
    have normal' : 2 ^ 52 ≤ m - 1 ∧ m - 1 < 2 ^ 53 := by omega
    obtain ⟨positive', sum⟩ := add_one_odd_negative positive normal (by omega)
    have made' : parts (x + 1) = .finite .negative (m - 1) ((0 : Nat) + 1) positive' :=
      parts_add_one made sum normal' (by decide)
    by_cases last : m - 1 = 2 ^ 52
    · -- This is `-2^53`, from which one leads further up.
      have whole' : IsWhole (x + 1) (2 ^ 53 - (2 ^ 54 : Nat)) := by
        refine isWhole_of_parts (k := 53) made' ?_
        rw [last]
        rfl
      exact (stuckAfter_upward _ (Nat.le_refl _) whole').succ
    · exact (stuckAfter_of_steady made' normal'
        (add_one_negative normal' (by omega) (by omega))).succ.mono (by decide)

theorem IsWhole.stuckAfter (whole : IsWhole x n) : StuckAfter (2 ^ 54 + 3) x := by
  rcases lt_or_ge n (-2 ^ 53) with below | from_
  · exact stuckAfter_below whole below
  · rcases lt_or_ge n (2 ^ 53) with near | above
    · rw [show n = 2 ^ 53 - ((2 ^ 53 - n).toNat : Nat) by omega] at whole
      exact (stuckAfter_upward _ (by omega) whole).mono (by omega)
    · exact (stuckAfter_above whole above).mono (by decide)

end Stuck

end EntityScript.Number
