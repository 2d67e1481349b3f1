import EntityScript.Proofs.Comparisons

/-!
Reciprocals of whole numbers.  A whole number is made without error, so that only the quotient is
rounded.
-/

namespace EntityScript.Number

open Float.Model
open Float.Model.UnpackedFloat

/-- A whole number below `2^53` is made as it is. -/
theorem exists_parts_ofNat {n : Nat} (some_ : 0 < n) (small : n < 2 ^ 53) :
    ∃ m k, ∃ positive : 0 < m, parts (ofNat n) = .finite .positive m ((k : Nat) - 52) positive ∧
      n * 2 ^ 52 = m * 2 ^ k ∧ (2 ^ 52 ≤ m ∧ m < 2 ^ 53) ∧ k ≤ 52 := by
  obtain ⟨m, k, value, normal, _⟩ := exists_mantissa some_ (Nat.le_of_lt small)
  have positive : 0 < m := by omega
  have bounds : 2 ^ k ≤ n ∧ n < 2 ^ (k + 1) := by
    have low : 2 ^ 52 * 2 ^ k ≤ m * 2 ^ k := Nat.mul_le_mul_right _ normal.1
    have high : m * 2 ^ k < 2 ^ 53 * 2 ^ k := Nat.mul_lt_mul_of_pos_right normal.2 (by positivity)
    rw [Nat.pow_succ]
    omega
  have few : k ≤ 52 := by
    by_contra many
    have large : 2 ^ 53 ≤ 2 ^ k := Nat.pow_le_pow_right (by decide) (by omega)
    omega
  have bits : n.log2 = k := (Nat.log2_eq_iff (Nat.ne_of_gt some_)).mpr bounds
  have target : Format.binary64.targetExponent (totalExponent n 0) = (k : Int) - 52 := by
    have width : (Format.binary64.mantissaBits : Int) = 53 := by decide
    have least : Format.binary64.minExponent = -1074 := by decide
    rw [Format.targetExponent, totalExponent, bits, width, least]
    omega
  have shifted : n <<< (52 - k) = m := by
    apply Nat.eq_of_mul_eq_mul_right (show 0 < 2 ^ k by positivity)
    rw [Nat.shiftLeft_eq, Nat.mul_assoc, ← Nat.pow_add, Nat.sub_add_cancel few, value]
  have amount : (0 - ((k : Int) - 52)).toNat = 52 - k := by omega
  have exponent : (0 : Int) - (52 - k : Nat) = k - 52 := by omega
  have order : compare (n : Int) 0 = .gt := compare_gt_iff_gt.mpr (by omega)
  have made : UnpackedFloat.normalize .binary64 n 0 .positive =
      .finite .positive m (k - 52) positive := by
    have once : UnpackedFloat.round .binary64 .positive (m * 2 ^ 0) (k - 52) =
        .finite .positive m (k - 52 + (0 : Nat)) positive := round_exact normal (by omega) positive
    have target' := targetExponent_exact (k := 0) normal (e := (k : Int) - 52) (by omega)
    rw [Nat.pow_zero, Nat.mul_one, Nat.cast_zero, Int.add_zero] at once target'
    rw [← once]
    simp only [UnpackedFloat.normalize, order, UnpackedFloat.round, Int.toNat_natCast, target,
      target', decreaseExponent, amount, exponent, shifted, Int.sub_self, Int.toNat_zero,
      Nat.shiftLeft_zero, Nat.cast_zero, Int.sub_zero]
  refine ⟨m, k, positive, ?_, value, normal, few⟩
  rw [ofNat, ofDyadic, made]
  exact parts_ofParts normal (by omega) positive

/-- What dividing one by `m · 2^(k - 52)` comes to before it is rounded. -/
theorem divCore_one {m k : Nat} (normal : 2 ^ 52 ≤ m ∧ m < 2 ^ 53) (small : k ≤ 52) :
    divCore .binary64 (2 ^ 52) (-52) m (k - 52) =
      (2 ^ 105 / m, (-53 - k : Int), accuracyOfFraction (2 ^ 105 % m) m) := by
  have positive : 0 < m := by omega
  have bits : m.log2 = 52 := (Nat.log2_eq_iff (Nat.ne_of_gt positive)).mpr normal
  have width : (Format.binary64.mantissaBits : Int) = 53 := by decide
  have least : Format.binary64.minExponent = -1074 := by decide
  have target : min ((-52 : Int) - (k - 52)) (Format.binary64.targetExponent
      (totalExponent (2 ^ 52) (-52) - totalExponent m (k - 52))) = -53 - k := by
    rw [Format.targetExponent, totalExponent, totalExponent, bits, Nat.log2_two_pow, width, least]
    omega
  have amount : ((-52 : Int) - (k - 52) - (-53 - k)).toNat = 53 := by omega
  simp only [divCore, target, amount]
  rfl

/-- The quotient of one and a mantissa has 53 bits, or is a power of two. -/
theorem exists_quotient {m : Nat} (normal : 2 ^ 52 ≤ m ∧ m < 2 ^ 53) {e : Int}
    (above : -1074 ≤ e) :
    ∃ (extended : ExtendedMantissa) (carry : Nat), carry ≤ 1 ∧
      shiftToTargetExponent .binary64 (2 ^ 105 / m) e (accuracyOfFraction (2 ^ 105 % m) m) =
        (extended, e + carry) ∧ (2 ^ 52 ≤ extended.mantissa ∧ extended.mantissa < 2 ^ 53) ∧
      extended.mantissa * 2 ^ carry = 2 ^ 105 / m := by
  by_cases power : m = 2 ^ 52
  · have halved : 2 ^ 105 / m = 2 ^ 52 * 2 ^ 1 := by rw [power]; decide
    have exact_ : accuracyOfFraction (2 ^ 105 % m) m = .exact := by rw [power]; rfl
    rw [halved, exact_]
    exact ⟨_, 1, Nat.le_refl 1, shiftToTargetExponent_exact (by decide) (by omega), by decide, rfl⟩
  · have bounds : 2 ^ 52 ≤ 2 ^ 105 / m ∧ 2 ^ 105 / m < 2 ^ 53 := by
      rw [Nat.le_div_iff_mul_le (by omega), Nat.div_lt_iff_lt_mul (by omega)]
      omega
    generalize accuracyOfFraction (2 ^ 105 % m) m = accuracy
    generalize 2 ^ 105 / m = q at bounds
    have target := targetExponent_exact (k := 0) (e := e) bounds (by omega)
    rw [Nat.pow_zero, Nat.mul_one, Nat.cast_zero, Int.add_zero] at target
    have kept : (ExtendedMantissa.ofMantissaAndAccuracy q accuracy).mantissa = q := by
      unfold ExtendedMantissa.ofMantissaAndAccuracy
      split <;> rfl
    refine ⟨.ofMantissaAndAccuracy q accuracy, 0, Nat.zero_le 1, ?_, by rwa [kept], by simp [kept]⟩
    simp only [shiftToTargetExponent, shiftToExponent, target, Int.sub_self]
    rfl

theorem mul_quotient_near {m near : Nat} (normal : 2 ^ 52 ≤ m ∧ m < 2 ^ 53)
    (close : 2 ^ 105 / m ≤ near ∧ near ≤ 2 ^ 105 / m + 2) :
    2 ^ 105 ≤ near * m + 2 ^ 53 ∧ near * m ≤ 2 ^ 105 + 2 ^ 54 := by
  have low := Nat.mul_le_mul_right m close.1
  have high := Nat.mul_le_mul_right m close.2
  have whole := Nat.div_add_mod' (2 ^ 105) m
  have rest := Nat.mod_lt (2 ^ 105) (show 0 < m by omega)
  rw [Nat.add_mul] at high
  omega

/-- What is known of `m · scale` times the mantissa of `n`, said of `m` times `n`. -/
theorem close_of_product {n d k m scale unit : Nat} (units : unit * scale = 2 ^ 53 * 2 ^ k)
    (value : n * 2 ^ 52 = d * 2 ^ k)
    (product : 2 ^ 105 ≤ m * scale * d + 2 ^ 53 ∧ m * scale * d ≤ 2 ^ 105 + 2 ^ 54) :
    2 ^ 51 * (m * n) ≤ (2 ^ 51 + 1) * unit ∧ (2 ^ 51 - 1) * unit ≤ 2 ^ 51 * (m * n) := by
  have some_ : 0 < scale * 2 ^ 52 := by
    have nonzero : 0 < 2 ^ 53 * 2 ^ k := by positivity
    have positive : 0 < scale := by
      by_contra zero
      rw [Nat.eq_zero_of_not_pos zero, Nat.mul_zero] at units
      omega
    positivity
  have scaled : m * n * (scale * 2 ^ 52) = m * scale * d * 2 ^ k := by
    calc m * n * (scale * 2 ^ 52) = m * scale * (n * 2 ^ 52) := by ring
      _ = m * scale * d * 2 ^ k := by rw [value, ← Nat.mul_assoc]
  have scaled' : unit * (scale * 2 ^ 52) = 2 ^ 105 * 2 ^ k := by
    calc unit * (scale * 2 ^ 52) = unit * scale * 2 ^ 52 := by ring
      _ = 2 ^ 105 * 2 ^ k := by rw [units]; ring
  constructor <;> apply Nat.le_of_mul_le_mul_right _ some_
  · calc 2 ^ 51 * (m * n) * (scale * 2 ^ 52)
        = 2 ^ 51 * (m * scale * d) * 2 ^ k := by rw [Nat.mul_assoc, scaled, ← Nat.mul_assoc]
      _ ≤ (2 ^ 51 + 1) * 2 ^ 105 * 2 ^ k := Nat.mul_le_mul_right _ (by omega)
      _ = (2 ^ 51 + 1) * unit * (scale * 2 ^ 52) := by
        rw [Nat.mul_assoc _ unit, scaled', ← Nat.mul_assoc]
  · calc (2 ^ 51 - 1) * unit * (scale * 2 ^ 52)
        = (2 ^ 51 - 1) * 2 ^ 105 * 2 ^ k := by rw [Nat.mul_assoc _ unit, scaled', ← Nat.mul_assoc]
      _ ≤ 2 ^ 51 * (m * scale * d) * 2 ^ k := Nat.mul_le_mul_right _ (by omega)
      _ = 2 ^ 51 * (m * n) * (scale * 2 ^ 52) := by
        rw [Nat.mul_assoc (2 ^ 51) (m * n), scaled, Nat.mul_assoc]

/-- The reciprocal of a whole number is correct to 51 bits: times the number it differs from one by
a part in `2^51` at most. -/
theorem exists_parts_reciprocal {n : Nat} (some_ : 0 < n) (small : n < 2 ^ 53) :
    ∃ m k, ∃ positive : 0 < m,
      parts (1 / ofNat n) = .finite .positive m (.negSucc k) positive ∧
        2 ^ 51 * (m * n) ≤ (2 ^ 51 + 1) * 2 ^ (k + 1) ∧
        (2 ^ 51 - 1) * 2 ^ (k + 1) ≤ 2 ^ 51 * (m * n) := by
  obtain ⟨d, k, positive, divisor, value, normal, few⟩ := exists_parts_ofNat some_ small
  have above : -1074 ≤ -53 - (k : Int) := by omega
  obtain ⟨extended, carry, once, shifted, normal', quotient⟩ := exists_quotient normal above
  obtain ⟨m, carry', positive', rounded, normal'', once', least, most⟩ :=
    exists_rounded .positive shifted normal' (by omega)
  have made : parts (1 / ofNat n) =
      .finite .positive m (-53 - k + carry + carry') positive' := by
    change parts (ofParts (UnpackedFloat.div .binary64 (parts 1) (parts (ofNat n)))) = _
    rw [parts_one, divisor]
    have divided := divCore_one normal few
    simp only [UnpackedFloat.div, divided]
    change parts (ofParts (roundWithAccuracy .binary64 .positive _ _ _)) = _
    rw [rounded]
    exact parts_ofParts normal'' (by omega) positive'
  have exponent : (-53 - k + carry + carry' : Int) = .negSucc (k + 52 - carry - carry') := by
    omega
  rw [exponent] at made
  refine ⟨m, _, positive', made, ?_⟩
  have units : 2 ^ (k + 52 - carry - carry' + 1) * 2 ^ (carry + carry') = 2 ^ 53 * 2 ^ k := by
    rw [← Nat.pow_add, ← Nat.pow_add]
    congr 1
    omega
  generalize 2 ^ (k + 52 - carry - carry' + 1) = unit at units
  -- Brought to the exponent of the quotient, what was rounded is close to it.
  have near : 2 ^ 105 / d ≤ m * 2 ^ (carry + carry') ∧
      m * 2 ^ (carry + carry') ≤ 2 ^ 105 / d + 2 := by
    have double : 2 ^ carry ≤ 2 ^ 1 := Nat.pow_le_pow_right (by decide) once
    have low := Nat.mul_le_mul_right (2 ^ carry) least
    have high := Nat.mul_le_mul_right (2 ^ carry) most
    rw [Nat.add_mul, quotient] at high
    rw [quotient] at low
    rw [Nat.add_comm carry, Nat.pow_add, ← Nat.mul_assoc]
    omega
  exact close_of_product units value (mul_quotient_near normal near)

end EntityScript.Number
