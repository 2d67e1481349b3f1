import Mathlib
import EntityScript.Number.Dyadic

/-!
Whole numbers among the numbers of scripts.  Up to `2^53` in magnitude every whole number is one of
them, and to add one is exact; beyond that only even ones are.
-/

namespace EntityScript.Number

open Float.Model
open Float.Model.UnpackedFloat

/-! ### What a number is made of -/

theorem toNat_implicitOne {width : Nat} (bits : BitVec width) :
    (1#1 ++ bits).toNat = 2 ^ width + bits.toNat := by
  rw [BitVec.toNat_append, ← Nat.shiftLeft_add_eq_or_of_lt bits.isLt]
  simp [Nat.shiftLeft_eq]

/-- A mantissa has 53 bits, or fewer when the exponent is the least one; the greatest one is 971. -/
theorem bounds_of_parts {x : Float} {sign : Sign} {m : Nat} {e : Int} {positive : 0 < m}
    (made : parts x = .finite sign m e positive) :
    m < 2 ^ 53 ∧ (2 ^ 52 ≤ m ∨ e = -1074) ∧ e ≤ 971 := by
  unfold parts Float.Model.unpack UnpackedFloat.unpack at made
  have bias : (Format.binary64.exponentBias : Int) = 1023 := by decide
  have small : (@unpackMantissa .binary64 x.toModel.toBits.toBitVec).toNat < 2 ^ 52 :=
    BitVec.isLt _
  dsimp only at made
  generalize @unpackExponent .binary64 x.toModel.toBits.toBitVec = bits at made
  have bounded : bits.toNat < 2 ^ 11 := bits.isLt
  split at made
  · split at made <;> cases made
  next finite =>
    split at made
    next least =>
      split at made
      · cases made
      · injection made with _ mantissa exponent
        rw [least, bias] at exponent
        have lowest : e = -1074 := by simpa using exponent.symm
        omega
    next =>
      injection made with _ mantissa exponent
      rw [toNat_implicitOne] at mantissa
      change 2 ^ 52 + _ = m at mantissa
      rw [bias] at exponent
      change (bits.toNat : Int) - (1023 + (52 : Nat)) = e at exponent
      have below : bits.toNat ≠ 2047 := fun most => finite (BitVec.eq_of_toNat_eq most)
      omega

/-- The number is a whole number: `±m · 2^e`, with the power on the side where it is one of whole
numbers. -/
def IsWhole (x : Float) (n : Int) : Prop :=
  match parts x with
  | .zero _ => n = 0
  | .finite sign m e _ => sign.apply m * 2 ^ e.toNat = n * 2 ^ (-e).toNat
  | _ => False

theorem natAbs_apply (sign : Sign) (n : Nat) : (sign.apply n).natAbs = n := by
  cases sign <;> simp [Sign.apply]

theorem apply_mul (sign : Sign) (n factor : Nat) :
    sign.apply (n * factor : Nat) = sign.apply n * factor := by
  cases sign <;> simp [Sign.apply]

/-- A whole number is zero, or `±m · 2^(k - 52)` with a mantissa of 53 bits. -/
theorem IsWhole.cases {x : Float} {n : Int} (whole : IsWhole x n) :
    (n = 0 ∧ ∃ sign, parts x = .zero sign) ∨
    ∃ sign m, ∃ k : Nat, ∃ positive, parts x = .finite sign m (k - 52) positive ∧
      2 ^ 52 ≤ m ∧ m < 2 ^ 53 ∧ sign.apply (m * 2 ^ k : Nat) = n * 2 ^ 52 := by
  unfold IsWhole at whole
  split at whole
  next sign made => exact .inl ⟨whole, sign, made⟩
  next sign m e positive made =>
    obtain ⟨small, normal, _⟩ := bounds_of_parts made
    have magnitude : m * 2 ^ e.toNat = n.natAbs * 2 ^ (-e).toNat := by
      have same := congrArg Int.natAbs whole
      simpa [Int.natAbs_mul, Int.natAbs_pow, natAbs_apply] using same
    have above : -52 ≤ e := by
      by_contra below
      -- A fraction is left when the lowest 53 bits are all there is.
      have large : 2 ^ 53 ≤ 2 ^ (-e).toNat := Nat.pow_le_pow_right (by decide) (by omega)
      have least : e.toNat = 0 := by omega
      rw [least, Nat.pow_zero, Nat.mul_one] at magnitude
      have some_ : 1 ≤ n.natAbs := by
        by_contra none_
        have zero : n.natAbs = 0 := by omega
        rw [zero, Nat.zero_mul] at magnitude
        omega
      have more : 1 * 2 ^ (-e).toNat ≤ n.natAbs * 2 ^ (-e).toNat := Nat.mul_le_mul_right _ some_
      omega
    have exponent : (((e + 52).toNat : Nat) : Int) - 52 = e := by omega
    have normal' : 2 ^ 52 ≤ m := by omega
    rw [← exponent] at made
    refine .inr ⟨sign, m, (e + 52).toNat, positive, made, normal', small, ?_⟩
    rw [apply_mul]
    by_cases integral : 0 ≤ e
    · have left : (e + 52).toNat = e.toNat + 52 := by omega
      have right : (-e).toNat = 0 := by omega
      rw [right, Int.pow_zero, Int.mul_one] at whole
      calc sign.apply m * (2 ^ (e + 52).toNat : Nat)
          = sign.apply m * 2 ^ e.toNat * 2 ^ 52 := by
            rw [left]
            push_cast
            ring
        _ = n * 2 ^ 52 := by rw [whole]
    · have left : e.toNat = 0 := by omega
      have right : 52 = (-e).toNat + (e + 52).toNat := by omega
      rw [left, Int.pow_zero, Int.mul_one] at whole
      calc sign.apply m * (2 ^ (e + 52).toNat : Nat)
          = n * (2 ^ (-e).toNat * 2 ^ (e + 52).toNat) := by
            rw [whole]
            push_cast
            ring
        _ = n * 2 ^ 52 := by rw [← Int.pow_add, ← right]
  next => cases whole

/-! ### Order -/

/-- Of mantissas of 53 bits the one with the greater exponent is the greater number. -/
theorem mantissa_lt {m m' k k' : Nat} (normal : 2 ^ 52 ≤ m ∧ m < 2 ^ 53)
    (normal' : 2 ^ 52 ≤ m' ∧ m' < 2 ^ 53) :
    ((compare (k - 52 : Int) (k' - 52)).then (compare m m') = .lt) ↔
      m * 2 ^ k < m' * 2 ^ k' := by
  -- A greater exponent outweighs any mantissa.
  have apart {m m' k k' : Nat} (small : m < 2 ^ 53) (large : 2 ^ 52 ≤ m') (less : k < k') :
      m * 2 ^ k < m' * 2 ^ k' :=
    calc m * 2 ^ k < 2 ^ 53 * 2 ^ k := Nat.mul_lt_mul_of_pos_right small (by positivity)
      _ = 2 ^ 52 * 2 ^ (k + 1) := by ring
      _ ≤ m' * 2 ^ k' := Nat.mul_le_mul large (Nat.pow_le_pow_right (by decide) less)
  rcases Nat.lt_trichotomy k k' with less | rfl | greater
  · have order : compare (k - 52 : Int) (k' - 52) = .lt := compare_lt_iff_lt.mpr (by omega)
    rw [order]
    exact iff_of_true rfl (apart normal.2 normal'.1 less)
  · have order : compare (k - 52 : Int) (k - 52) = .eq := compare_eq_iff_eq.mpr rfl
    rw [order]
    change compare m m' = .lt ↔ _
    rw [compare_lt_iff_lt, Nat.mul_lt_mul_right (by positivity)]
  · have order : compare (k - 52 : Int) (k' - 52) = .gt := compare_gt_iff_gt.mpr (by omega)
    rw [order]
    exact iff_of_false nofun (Nat.lt_asymm (apart normal'.2 normal.1 greater))

theorem lt_iff_compare {x y : Float} :
    x < y ↔ UnpackedFloat.compare (parts x) (parts y) = some .lt := by
  change Float.lt x y = true ↔ _
  unfold Float.lt
  rw [decide_eq_true_iff]
  change (UnpackedFloat.compare (parts x) (parts y) == some .lt) = true ↔ _
  rw [beq_iff_eq]

/-- Numbers that are whole are in the order of those. -/
theorem IsWhole.lt_iff {x y : Float} {a b : Int} (first : IsWhole x a) (second : IsWhole y b) :
    x < y ↔ a < b := by
  rw [lt_iff_compare]
  have some_ {m k : Nat} (large : 2 ^ 52 ≤ m) : 0 < m * 2 ^ k := by positivity
  rcases first.cases with ⟨rfl, sign, made⟩ | ⟨sign, m, k, positive, made, large, small, value⟩ <;>
    rcases second.cases with
      ⟨rfl, sign', made'⟩ | ⟨sign', m', k', positive', made', large', small', value'⟩ <;>
    rw [made, made']
  · simp [UnpackedFloat.compare]
  · have beyond := some_ (k := k') large'
    cases sign' <;> simp only [UnpackedFloat.compare, Sign.apply] at value' ⊢
    · exact iff_of_false nofun (by omega)
    · exact iff_of_true trivial (by omega)
  · have beyond := some_ (k := k) large
    cases sign <;> simp only [UnpackedFloat.compare, Sign.apply] at value ⊢
    · exact iff_of_true trivial (by omega)
    · exact iff_of_false nofun (by omega)
  · have beyond := some_ (k := k) large
    have beyond' := some_ (k := k') large'
    cases sign <;> cases sign' <;>
      simp only [UnpackedFloat.compare, Sign.apply, Option.some.injEq] at value value' ⊢
    · rw [Ordering.swap_then, ← Std.OrientedOrd.eq_swap, ← Std.OrientedOrd.eq_swap,
        mantissa_lt ⟨large', small'⟩ ⟨large, small⟩]
      omega
    · exact iff_of_true trivial (by omega)
    · exact iff_of_false nofun (by omega)
    · rw [mantissa_lt ⟨large, small⟩ ⟨large', small'⟩]
      omega

/-! ### Rounding -/

section Rounding

variable {sign : Sign} {m k : Nat} {e : Int}

/-- To shift out zeros loses nothing. -/
theorem shiftRight_exact (m k : Nat) :
    ExtendedMantissa.ofMantissaAndAccuracy (m * 2 ^ k) .exact >>> k =
      ExtendedMantissa.ofMantissaAndAccuracy m .exact := by
  induction k generalizing m with
  | zero => simp [HShiftRight.hShiftRight, Nat.repeat]
  | succ k inductionHypothesis =>
      have shifted := inductionHypothesis (m * 2)
      have same : m * 2 * 2 ^ k = m * 2 ^ (k + 1) := by ring
      rw [same] at shifted
      change ExtendedMantissa.shiftRightOne
        (ExtendedMantissa.ofMantissaAndAccuracy (m * 2 ^ (k + 1)) .exact >>> k) = _
      rw [shifted]
      simp [ExtendedMantissa.shiftRightOne, ExtendedMantissa.ofMantissaAndAccuracy]

/-- What has 53 bits or more is brought to 53 of them. -/
theorem targetExponent_of_log2 (bits : m.log2 = 52 + k) (above : -1074 ≤ e + k) :
    Format.binary64.targetExponent (totalExponent m e) = e + k := by
  have width : (Format.binary64.mantissaBits : Int) = 53 := by decide
  have least : Format.binary64.minExponent = -1074 := by decide
  rw [Format.targetExponent, totalExponent, bits, width, least]
  omega

theorem targetExponent_exact (normal : 2 ^ 52 ≤ m ∧ m < 2 ^ 53) (above : -1074 ≤ e + k) :
    Format.binary64.targetExponent (totalExponent (m * 2 ^ k) e) = e + k := by
  obtain ⟨large, small⟩ := normal
  have some_ : m * 2 ^ k ≠ 0 := by positivity
  apply targetExponent_of_log2 _ above
  rw [Nat.log2_eq_iff some_, Nat.add_right_comm, Nat.pow_add, Nat.pow_add]
  exact ⟨Nat.mul_le_mul_right _ large, Nat.mul_lt_mul_of_pos_right small (by positivity)⟩

theorem shiftToTargetExponent_exact (normal : 2 ^ 52 ≤ m ∧ m < 2 ^ 53) (above : -1074 ≤ e + k) :
    shiftToTargetExponent .binary64 (m * 2 ^ k) e .exact =
      (ExtendedMantissa.ofMantissaAndAccuracy m .exact, e + k) := by
  have amount : (e + k - e).toNat = k := by omega
  simp only [shiftToTargetExponent, shiftToExponent, targetExponent_exact normal above, amount,
    shiftRight_exact]

/-- When the rounded mantissa takes a bit more, the exponent goes up by one. -/
theorem roundWithAccuracy_eq {e' : Int} {m' carry : Nat} {accuracy : Accuracy}
    {extended : ExtendedMantissa}
    (shifted : shiftToTargetExponent .binary64 m e accuracy = (extended, e'))
    (rounded : extended.roundedMantissa = m' * 2 ^ carry) (normal : 2 ^ 52 ≤ m' ∧ m' < 2 ^ 53)
    (above : -1074 ≤ e') (positive : 0 < m') :
    roundWithAccuracy .binary64 sign m e accuracy = .finite sign m' (e' + carry) positive := by
  have above' : -1074 ≤ e' + (carry : Int) := by omega
  simp only [roundWithAccuracy, shifted, rounded, shiftToTargetExponent_exact normal above']
  exact dif_neg (Nat.ne_of_gt positive)

/-- What has 53 bits need not be rounded. -/
theorem round_exact (normal : 2 ^ 52 ≤ m ∧ m < 2 ^ 53) (above : -1074 ≤ e + k)
    (positive : 0 < m) :
    UnpackedFloat.round .binary64 sign (m * 2 ^ k) e = .finite sign m (e + k) positive := by
  have amount : (e - (e + k)).toNat = 0 := by omega
  have kept : (ExtendedMantissa.ofMantissaAndAccuracy m .exact).roundedMantissa = m * 2 ^ 0 :=
    (Nat.mul_one m).symm
  have once : roundWithAccuracy .binary64 sign (m * 2 ^ k) e .exact =
      .finite sign m (e + k + (0 : Nat)) positive :=
    roundWithAccuracy_eq (shiftToTargetExponent_exact normal above) kept normal above positive
  simp only [UnpackedFloat.round, targetExponent_exact normal above, decreaseExponent, amount,
    Nat.shiftLeft_zero, Nat.cast_zero, Int.sub_zero, once, Int.add_zero]

theorem normalize_apply {magnitude : Nat} (some_ : 0 < magnitude) (zeroSign : Sign) :
    UnpackedFloat.normalize .binary64 (sign.apply magnitude) e zeroSign =
      UnpackedFloat.round .binary64 sign magnitude e := by
  cases sign with
  | negative =>
      have order : compare (-(magnitude : Int)) 0 = .lt := compare_lt_iff_lt.mpr (by omega)
      have same : (- -(magnitude : Int)).toNat = magnitude := by omega
      simp only [UnpackedFloat.normalize, Sign.apply, order, same]
  | positive =>
      have order : compare (magnitude : Int) 0 = .gt := compare_gt_iff_gt.mpr (by omega)
      simp only [UnpackedFloat.normalize, Sign.apply, order, Int.toNat_natCast]

theorem normalize_exact {n : Int} {zeroSign : Sign} (normal : 2 ^ 52 ≤ m ∧ m < 2 ^ 53)
    (above : -1074 ≤ e + k) (positive : 0 < m) (value : sign.apply (m * 2 ^ k : Nat) = n) :
    UnpackedFloat.normalize .binary64 n e zeroSign = .finite sign m (e + k) positive := by
  rw [← value, normalize_apply (by positivity)]
  exact round_exact normal above positive

end Rounding

/-! ### Numbers made of their parts -/

theorem unpackSign_packComponents {spec : Format} (sign : Sign)
    (exponent : BitVec spec.exponentBits) (mantissa : BitVec spec.mantissaBitsWithoutImplicit) :
    unpackSign (packComponents spec sign exponent mantissa) = sign.toBitVec := by
  simp only [unpackSign, packComponents, BitVec.extractLsb]
  ext index within
  grind

theorem ofBitVec_toBitVec (sign : Sign) : Sign.ofBitVec sign.toBitVec = sign := by
  cases sign <;> rfl

section Parts

variable {sign : Sign} {m : Nat} {e : Int}

theorem pack_normal (normal : 2 ^ 52 ≤ m ∧ m < 2 ^ 53) (range : -1074 ≤ e ∧ e ≤ 971)
    (positive : 0 < m) :
    UnpackedFloat.pack .binary64 (.finite sign m e positive) =
      packComponents .binary64 sign (BitVec.ofNat 11 (e + 1023 + 52).toNat)
        (BitVec.ofNat 52 m) := by
  have bits : m.log2 + 1 = 53 := by
    rw [(Nat.log2_eq_iff (Nat.ne_of_gt positive)).mpr normal]
  have bounded : ¬2 ^ 11 ≤ (e + 1023 + 52).toNat + 1 := by omega
  exact (if_neg bounded).trans (if_pos bits)

theorem unpack_normal (sign : Sign) {exponent : BitVec 11} (mantissa : BitVec 52)
    (bounded : exponent ≠ -1#11) (normal : exponent ≠ 0#11) :
    ∃ positive, UnpackedFloat.unpack .binary64 (packComponents .binary64 sign exponent mantissa) =
      .finite sign (2 ^ 52 + mantissa.toNat) (exponent.toNat - (1023 + 52)) positive := by
  refine ⟨by positivity, ?_⟩
  unfold UnpackedFloat.unpack
  simp only [unpackExponent_packComponents, unpackMantissa_packComponents,
    unpackSign_packComponents, ofBitVec_toBitVec, if_neg bounded, if_neg normal]
  simp only [toNat_implicitOne]
  rfl

theorem parts_ofParts (normal : 2 ^ 52 ≤ m ∧ m < 2 ^ 53) (range : -1074 ≤ e ∧ e ≤ 971)
    (positive : 0 < m) :
    parts (ofParts (.finite sign m e positive)) = .finite sign m e positive := by
  have exponent : (BitVec.ofNat 11 (e + 1023 + 52).toNat).toNat = (e + 1023 + 52).toNat := by
    rw [BitVec.toNat_ofNat, Nat.mod_eq_of_lt (by omega)]
  have mantissa : (BitVec.ofNat 52 m).toNat = m - 2 ^ 52 := by
    rw [BitVec.toNat_ofNat]
    omega
  have apart (other : BitVec 11) (differs : other.toNat ≠ (e + 1023 + 52).toNat) :
      BitVec.ofNat 11 (e + 1023 + 52).toNat ≠ other := by
    rintro rfl
    exact differs exponent
  have most : (-1#11).toNat = 2047 := by decide
  have least : (0#11).toNat = 0 := by decide
  obtain ⟨_, unpacked⟩ := unpack_normal sign (BitVec.ofNat 52 m)
    (apart _ (by omega)) (apart _ (by omega))
  change UnpackedFloat.unpack .binary64 (UnpackedFloat.pack .binary64 _) = _
  rw [pack_normal normal range, unpacked]
  congr 1 <;> omega

end Parts

/-! ### Whole numbers are numbers -/

theorem isWhole_of_parts {x : Float} {sign : Sign} {m k : Nat} {positive : 0 < m} {n : Int}
    (made : parts x = .finite sign m (k - 52) positive)
    (value : sign.apply (m * 2 ^ k : Nat) = n * 2 ^ 52) : IsWhole x n := by
  unfold IsWhole
  rw [made]
  change sign.apply m * 2 ^ (k - 52 : Int).toNat = n * 2 ^ (-(k - 52 : Int)).toNat
  rw [apply_mul] at value
  by_cases integral : 52 ≤ k
  · have left : k = (k - 52 : Int).toNat + 52 := by omega
    have right : (-(k - 52 : Int)).toNat = 0 := by omega
    rw [right, Int.pow_zero, Int.mul_one]
    apply Int.eq_of_mul_eq_mul_right (a := 2 ^ 52) (by decide)
    rw [← value]
    conv => rhs; rw [left]
    push_cast
    ring
  · have left : (k - 52 : Int).toNat = 0 := by omega
    have right : 52 = (-(k - 52 : Int)).toNat + k := by omega
    rw [left, Int.pow_zero, Int.mul_one]
    apply Int.eq_of_mul_eq_mul_right (a := 2 ^ k) (by positivity)
    rw [Int.mul_assoc, ← Int.pow_add, ← right, ← value]
    push_cast
    rfl

/-- A magnitude up to `2^53` has a mantissa of 53 bits. -/
theorem exists_mantissa {magnitude : Nat} (some_ : 0 < magnitude) (small : magnitude ≤ 2 ^ 53) :
    ∃ m k, magnitude * 2 ^ 52 = m * 2 ^ k ∧ (2 ^ 52 ≤ m ∧ m < 2 ^ 53) ∧ k ≤ 53 := by
  by_cases top : magnitude = 2 ^ 53
  · exact ⟨2 ^ 52, 53, by rw [top, Nat.mul_comm], by decide, Nat.le_refl _⟩
  · obtain ⟨least, most⟩ := (Nat.log2_eq_iff (Nat.ne_of_gt some_)).mp rfl
    have short : magnitude.log2 < 53 := (Nat.log2_lt (Nat.ne_of_gt some_)).mpr (by omega)
    generalize magnitude.log2 = k at least most short
    have whole : 52 = 52 - k + k := by omega
    refine ⟨magnitude * 2 ^ (52 - k), k, ?_, ⟨?_, ?_⟩, by omega⟩
    · rw [Nat.mul_assoc, ← Nat.pow_add, ← whole]
    · calc 2 ^ 52 = 2 ^ k * 2 ^ (52 - k) := by rw [← Nat.pow_add]; congr 1; omega
        _ ≤ magnitude * 2 ^ (52 - k) := Nat.mul_le_mul_right _ least
    · calc magnitude * 2 ^ (52 - k) < 2 ^ (k + 1) * 2 ^ (52 - k) :=
            Nat.mul_lt_mul_of_pos_right most (by positivity)
        _ = 2 ^ 53 := by rw [← Nat.pow_add]; congr 1; omega

/-- A whole number up to `2^53` in magnitude, given with fifty-two zeros behind the point, is made
as it is. -/
theorem isWhole_ofDyadic {n : Int} (range : -2 ^ 53 ≤ n ∧ n ≤ 2 ^ 53) (zeroSign : Sign) :
    IsWhole (ofDyadic (n * 2 ^ 52) (-52) zeroSign) n := by
  by_cases zero : n = 0
  · subst zero
    cases zeroSign <;> rfl
  · have some_ : 0 < n.natAbs := by omega
    obtain ⟨m, k, magnitude, normal, short⟩ := exists_mantissa some_ (by omega)
    have positive : 0 < m := by omega
    have below : -1074 ≤ -52 + (k : Int) := by omega
    have exponent : -52 + (k : Int) = k - 52 := by omega
    have signed : ∃ sign : Sign, sign.apply (m * 2 ^ k : Nat) = n * 2 ^ 52 := by
      rcases Int.lt_or_gt_of_ne zero with negative | above
      · exact ⟨.negative, by simp only [Sign.apply]; omega⟩
      · exact ⟨.positive, by simp only [Sign.apply]; omega⟩
    obtain ⟨sign, value⟩ := signed
    have made : parts (ofDyadic (n * 2 ^ 52) (-52) zeroSign) =
        .finite sign m (k - 52) positive := by
      rw [ofDyadic, normalize_exact normal below positive value, exponent]
      exact parts_ofParts normal (by omega) positive
    exact isWhole_of_parts made value

theorem parts_one : parts 1 = .finite .positive (2 ^ 52) (-52) (by decide) := rfl

theorem add_eq (x y : Float) :
    x + y = ofParts (UnpackedFloat.add .binary64 (parts x) (parts y)) := rfl

theorem add_one_parts {sign : Sign} {m k : Nat} {positive : 0 < m} :
    UnpackedFloat.add .binary64 (.finite sign m (k - 52) positive) (parts 1) =
      UnpackedFloat.normalize .binary64 (sign.apply (m * 2 ^ k : Nat) + 2 ^ 52) (-52)
        .positive := by
  -- The exponent of one is the lower one, and brought to it both mantissas are whole multiples.
  have low : min ((k : Int) - 52) (-52) = -52 := by omega
  have shift : ((k : Int) - 52 - -52).toNat = k := by omega
  have none_ : ((-52 : Int) - -52).toNat = 0 := by decide
  simp only [parts_one, UnpackedFloat.add, decreaseExponent, low, shift, none_,
    Nat.shiftLeft_eq]
  rfl

/-- Up to `2^53` to add one to a whole number gives the next one. -/
theorem IsWhole.add_one {x : Float} {n : Int} (whole : IsWhole x n)
    (range : -2 ^ 53 ≤ n ∧ n < 2 ^ 53) : IsWhole (x + 1) (n + 1) := by
  rw [add_eq]
  rcases whole.cases with ⟨rfl, sign, made⟩ | ⟨sign, m, k, positive, made, _, _, value⟩
  · rw [made, parts_one]
    exact isWhole_of_parts (k := 0) (parts_ofParts (by decide) (by decide) (by decide)) rfl
  · have next : n * 2 ^ 52 + 2 ^ 52 = (n + 1) * 2 ^ 52 := by ring
    rw [made, add_one_parts, value, next]
    exact isWhole_ofDyadic (by omega) .positive

/-- From `2^53` on in magnitude a whole number has an exponent of one or more. -/
theorem IsWhole.exists_exponent {x : Float} {n : Int} (whole : IsWhole x n)
    (large : 2 ^ 53 ≤ n.natAbs) :
    ∃ sign m, ∃ j : Nat, ∃ positive, parts x = .finite sign m (j + 1) positive ∧
      (2 ^ 52 ≤ m ∧ m < 2 ^ 53) ∧ sign.apply (m * 2 ^ (j + 1) : Nat) = n := by
  rcases whole.cases with ⟨rfl, _⟩ | ⟨sign, m, k, positive, made, least, small, value⟩
  · cases large
  · have magnitude : m * 2 ^ k = n.natAbs * 2 ^ 52 := by
      have same := congrArg Int.natAbs value
      rw [natAbs_apply, Int.natAbs_mul] at same
      exact same
    have many : 53 ≤ k := by
      by_contra few
      have less : m * 2 ^ k < 2 ^ 53 * 2 ^ 52 :=
        Nat.mul_lt_mul_of_lt_of_le small (Nat.pow_le_pow_right (by decide) (by omega))
          (by positivity)
      omega
    obtain ⟨j, rfl⟩ := Nat.exists_eq_add_of_le many
    have exponent : ((53 + j : Nat) : Int) - 52 = j + 1 := by omega
    rw [exponent] at made
    refine ⟨sign, m, j, positive, made, ⟨least, small⟩, ?_⟩
    apply Int.eq_of_mul_eq_mul_right (a := 2 ^ 52) (by decide)
    rw [← value, show m * 2 ^ (53 + j) = m * 2 ^ (j + 1) * 2 ^ 52 by ring, apply_mul _ (m * _)]
    rfl

/-- Beyond `2^53` there are only even numbers. -/
theorem IsWhole.even {x : Float} {n : Int} (whole : IsWhole x n) (large : 2 ^ 53 < n.natAbs) :
    2 ∣ n := by
  obtain ⟨sign, m, j, _, _, _, rfl⟩ := whole.exists_exponent (Nat.le_of_lt large)
  rw [show m * 2 ^ (j + 1) = m * 2 ^ j * 2 by ring, apply_mul]
  exact ⟨_, Int.mul_comm ..⟩

end EntityScript.Number
