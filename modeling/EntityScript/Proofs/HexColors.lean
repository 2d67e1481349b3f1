import EntityScript.Color
import Mathlib.Data.List.Forall2

/-!
Which texts spell colors, and which colors they spell.  A color is a `#` and three or six
hexadecimal digits; two digits are the number that they write, and one digit is read as two of
its kind.
-/

namespace EntityScript.Color

/-- The hexadecimal digits, in letters of either case. -/
def hexDigits : List Char := "0123456789abcdefABCDEF".toList

/-- The text is a `#` and three or six hexadecimal digits. -/
def IsHex (text : String) : Prop :=
  ∃ digits, text.toList = '#' :: digits ∧ (digits.length = 3 ∨ digits.length = 6) ∧
    ∀ digit ∈ digits, digit ∈ hexDigits

/-- A byte in two hexadecimal digits, with small letters. -/
def hexOf (byte : UInt8) : List Char :=
  [Nat.digitChar (byte.toNat / 16), Nat.digitChar (byte.toNat % 16)]

/-- The text is a `#` and the three channels in hexadecimal digits, with letters of either case. -/
def WritesHex (text : String) (red green blue : UInt8) : Prop :=
  text.toList.map Char.toLower = '#' :: (hexOf red ++ hexOf green ++ hexOf blue)

instance (text : String) (red green blue : UInt8) : Decidable (WritesHex text red green blue) :=
  inferInstanceAs (Decidable (_ = _))

section Digits

variable {digit : Char} {value : Nat}

/-- Only characters below 128 are read as digits. -/
theorem ascii_of_hexDigit? (read : hexDigit? digit = some value) : digit.toNat < 128 := by
  have below {last : Char} (beyond : last.toNat < 128) (within : digit ≤ last) :
      digit.toNat < 128 := Nat.lt_of_le_of_lt within beyond
  unfold hexDigit? at read
  by_cases decimal : '0' ≤ digit ∧ digit ≤ '9'
  · exact below (by decide) decimal.2
  · by_cases small : 'a' ≤ digit ∧ digit ≤ 'f'
    · exact below (by decide) small.2
    · by_cases capital : 'A' ≤ digit ∧ digit ≤ 'F'
      · exact below (by decide) capital.2
      · simp [decimal, small, capital] at read

theorem ascii_of_toLower (small : value < 16) (lower : digit.toLower = Nat.digitChar value) :
    digit.toNat < 128 := by
  unfold Char.toLower at lower
  by_cases capital : digit.val ≥ 'A'.val ∧ digit.val ≤ 'Z'.val
  · exact Nat.lt_of_le_of_lt capital.2 (by decide)
  · have each : ∀ value < 16, (Nat.digitChar value).toNat < 128 := by decide
    rw [dif_neg capital] at lower
    rw [lower]
    exact each value small

/-- A digit stands for the value that it writes as a small letter. -/
theorem hexDigit?_eq_some :
    hexDigit? digit = some value ↔ value < 16 ∧ digit.toLower = Nat.digitChar value := by
  have each : ∀ code < 128, ∀ value < 16,
      hexDigit? (Char.ofNat code) = some value ↔
        (Char.ofNat code).toLower = Nat.digitChar value := by
    decide +kernel
  have small : ∀ code < 128, ∀ value ∈ hexDigit? (Char.ofNat code), value < 16 := by
    decide +kernel
  have rebuilt : Char.ofNat digit.toNat = digit := Char.ofNat_toNat digit
  constructor
  · intro read
    have ascii := ascii_of_hexDigit? read
    have bounded := small digit.toNat ascii value (by rw [rebuilt, read]; rfl)
    refine ⟨bounded, ?_⟩
    have same := each digit.toNat ascii value bounded
    rw [rebuilt] at same
    exact same.mp read
  · rintro ⟨bounded, lower⟩
    have same := each digit.toNat (ascii_of_toLower bounded lower) value bounded
    rw [rebuilt] at same
    exact same.mpr lower

theorem isHexDigit_eq (digit : Char) : isHexDigit digit = (hexDigit? digit).isSome := by
  unfold isHexDigit hexDigit?
  by_cases decimal : '0' ≤ digit ∧ digit ≤ '9'
  · simp [decimal]
  · by_cases small : 'a' ≤ digit ∧ digit ≤ 'f'
    · simp [decimal, small]
    · by_cases capital : 'A' ≤ digit ∧ digit ≤ 'F' <;> simp [decimal, small, capital]

theorem utf8Size_of_hexDigit? (read : hexDigit? digit = some value) : digit.utf8Size = 1 :=
  Char.utf8Size_eq_one_iff.mpr (Nat.le_of_lt_succ (ascii_of_hexDigit? read))

theorem isSome_hexDigit? : (hexDigit? digit).isSome = true ↔ digit ∈ hexDigits := by
  have each : ∀ code < 128, (hexDigit? (Char.ofNat code)).isSome = true →
      Char.ofNat code ∈ hexDigits := by
    decide +kernel
  have read : hexDigits.all (fun digit => (hexDigit? digit).isSome) = true := by decide
  constructor
  · intro found
    obtain ⟨value, read⟩ := Option.isSome_iff_exists.mp found
    have member := each digit.toNat (ascii_of_hexDigit? read)
    rw [Char.ofNat_toNat] at member
    exact member found
  · exact List.all_eq_true.mp read digit

end Digits

theorem exists_values_iff {digits : List Char} :
    (digits.mapM hexDigit?).isSome = true ↔ ∀ digit ∈ digits, digit ∈ hexDigits := by
  induction digits with
  | nil => simp
  | cons digit rest inductionHypothesis =>
      rw [List.forall_mem_cons, ← isSome_hexDigit?, ← inductionHypothesis]
      simp only [List.mapM_cons, Option.bind_eq_bind]
      cases hexDigit? digit <;> cases rest.mapM hexDigit? <;> simp

/-- Reading every item gives the readings one by one. -/
theorem mapM_eq_some {α β : Type} {read : α → Option β} {items : List α} {values : List β} :
    items.mapM read = some values ↔
      List.Forall₂ (fun item value => read item = some value) items values := by
  induction items generalizing values with
  | nil => cases values <;> simp
  | cons item rest inductionHypothesis =>
      cases values with
      | nil => simp [Option.bind_eq_some_iff]
      | cons value others => simp [Option.bind_eq_some_iff, inductionHypothesis]

section Texts

variable {text : String} {digits : List Char} {values : List Nat} {color : Color}

theorem exists_digits (read : ofHex? text = some color) :
    ∃ digits, text.toList = '#' :: digits := by
  unfold ofHex? at read
  split at read
  next digits spelled => exact ⟨digits, spelled⟩
  next => cases read

/-- The color that the values of the digits make. -/
def ofValues? : List Nat → Option Color
  | [red, green, blue] =>
      some ⟨UInt8.ofNat (17 * red), UInt8.ofNat (17 * green), UInt8.ofNat (17 * blue), 1⟩
  | [red₁, red₀, green₁, green₀, blue₁, blue₀] =>
      some ⟨UInt8.ofNat (16 * red₁ + red₀), UInt8.ofNat (16 * green₁ + green₀),
        UInt8.ofNat (16 * blue₁ + blue₀), 1⟩
  | _ => none

theorem isSome_ofValues? :
    (ofValues? values).isSome = true ↔ values.length = 3 ∨ values.length = 6 := by
  rcases values with
    _ | ⟨first, _ | ⟨second, _ | ⟨third, _ | ⟨fourth, _ | ⟨fifth, _ | ⟨sixth, _ | ⟨more, rest⟩⟩⟩⟩⟩⟩⟩
  all_goals simp [ofValues?]

section Slices

variable {cs : List Char} {start stop : Nat}

theorem byteLength_of_ascii (each : ∀ c ∈ cs, c.utf8Size = 1) :
    Source.byteLength cs = cs.length := by
  induction cs with
  | nil => rfl
  | cons c rest inductionHypothesis =>
      obtain ⟨one, others⟩ := List.forall_mem_cons.mp each
      change c.utf8Size + Source.byteLength rest = rest.length + 1
      rw [one, inductionHypothesis others, Nat.add_comm]

theorem splitAtByte?_of_ascii {offset : Nat} (each : ∀ c ∈ cs, c.utf8Size = 1)
    (within : offset ≤ cs.length) :
    splitAtByte? offset cs = some (cs.take offset, cs.drop offset) := by
  induction cs generalizing offset with
  | nil =>
      obtain rfl := Nat.le_zero.mp within
      rfl
  | cons c rest inductionHypothesis =>
      cases offset with
      | zero => rfl
      | succ offset =>
          obtain ⟨one, others⟩ := List.forall_mem_cons.mp each
          have further := inductionHypothesis others (Nat.le_of_succ_le_succ within)
          simp [splitAtByte?, one, further]

/-- Where every character is one byte, a slice ends inside none of them. -/
theorem slice?_of_ascii (each : ∀ c ∈ cs, c.utf8Size = 1) (order : start ≤ stop)
    (within : stop ≤ cs.length) :
    slice? start stop cs = some ((cs.drop start).take (stop - start)) := by
  have front := splitAtByte?_of_ascii each (Nat.le_trans order within)
  have part : splitAtByte? (stop - start) (cs.drop start) =
      some ((cs.drop start).take (stop - start), (cs.drop start).drop (stop - start)) :=
    splitAtByte?_of_ascii (fun c member => each c (List.mem_of_mem_drop member))
      (by rw [List.length_drop]; omega)
  simp [slice?, front, part]

end Slices

theorem pushHexDigit?_eq {digit : Char} {value high : Nat} (read : hexDigit? digit = some value)
    (small : high < 16) : pushHexDigit? high digit = some (16 * high + value) := by
  have low := (hexDigit?_eq_some.mp read).1
  simp only [pushHexDigit?, read, Option.bind_eq_bind, Option.bind_some]
  exact if_pos (by omega)

/-- A digit is no sign, and the number of one or two digits is a byte. -/
theorem readByte?_of_hexDigit? {first : Char} {high : Nat} (read : hexDigit? first = some high) :
    readByte? [first] = some (UInt8.ofNat high) ∧
      ∀ second low, hexDigit? second = some low →
        readByte? [first, second] = some (UInt8.ofNat (16 * high + low)) := by
  have sign : first ≠ '+' := by
    rintro rfl
    cases read
  have small := (hexDigit?_eq_some.mp read).1
  have one : pushHexDigit? 0 first = some high := by
    simpa using pushHexDigit?_eq read (show 0 < 16 by decide)
  refine ⟨?_, fun second low readSecond => ?_⟩
  · simp [readByte?, sign, one]
  · simp [readByte?, sign, one, pushHexDigit?_eq readSecond small]

/-- Behind the check of the digits nothing is left that a slice or a number could be refused for,
and the color is that of the digits' values. -/
theorem ofHex?_eq (spelled : text.toList = '#' :: digits) :
    ofHex? text = (digits.mapM hexDigit?).bind ofValues? := by
  have checked : digits.all isHexDigit = (digits.mapM hexDigit?).isSome := by
    rw [Bool.eq_iff_iff, exists_values_iff, List.all_eq_true]
    simp only [isHexDigit_eq, isSome_hexDigit?]
  simp only [ofHex?, spelled, checked]
  cases valued : digits.mapM hexDigit? with
  | none => rfl
  | some values =>
      have each : ∀ digit ∈ digits, digit.utf8Size = 1 := by
        intro digit member
        have found := exists_values_iff.mp (Option.isSome_of_eq_some valued) digit member
        obtain ⟨value, read⟩ := Option.isSome_iff_exists.mp (isSome_hexDigit?.mpr found)
        exact utf8Size_of_hexDigit? read
      rw [mapM_eq_some] at valued
      rw [Option.isSome_some, if_pos rfl, Option.bind_some, byteLength_of_ascii each,
        valued.length_eq]
      split
      next three =>
        obtain ⟨red, green, blue, rfl⟩ := List.length_eq_three.mp three
        simp only [List.forall₂_cons_right_iff, List.forall₂_nil_right_iff] at valued
        obtain ⟨d₁, _, read₁, ⟨d₂, _, read₂, ⟨d₃, _, read₃, rfl, rfl⟩, rfl⟩, rfl⟩ := valued
        simp [slice?_of_ascii each, (readByte?_of_hexDigit? read₁).1, ofValues?,
          (readByte?_of_hexDigit? read₂).1, (readByte?_of_hexDigit? read₃).1, UInt8.mul_comm]
      next six =>
        obtain ⟨red₁, red₀, green₁, green₀, blue₁, blue₀, rfl⟩ : ∃ v₁ v₂ v₃ v₄ v₅ v₆,
            values = [v₁, v₂, v₃, v₄, v₅, v₆] :=
          match values, six with
          | [v₁, v₂, v₃, v₄, v₅, v₆], _ => ⟨v₁, v₂, v₃, v₄, v₅, v₆, rfl⟩
        simp only [List.forall₂_cons_right_iff, List.forall₂_nil_right_iff] at valued
        obtain ⟨d₁, _, read₁, ⟨d₂, _, read₂, ⟨d₃, _, read₃, others, rfl⟩, rfl⟩, rfl⟩ := valued
        obtain ⟨d₄, _, read₄, ⟨d₅, _, read₅, ⟨d₆, _, read₆, rfl, rfl⟩, rfl⟩, rfl⟩ := others
        simp [slice?_of_ascii each, (readByte?_of_hexDigit? read₁).2 _ _ read₂, ofValues?,
          (readByte?_of_hexDigit? read₃).2 _ _ read₄, (readByte?_of_hexDigit? read₅).2 _ _ read₆]
      next neither3 neither6 =>
        symm
        rw [← Option.not_isSome_iff_eq_none, isSome_ofValues?]
        exact fun many => many.elim neither3 neither6

theorem isSome_ofHex? : (ofHex? text).isSome = true ↔ IsHex text := by
  constructor
  · intro found
    obtain ⟨color, read⟩ := Option.isSome_iff_exists.mp found
    obtain ⟨digits, spelled⟩ := exists_digits read
    rw [ofHex?_eq spelled, Option.bind_eq_some_iff] at read
    obtain ⟨values, valued, made⟩ := read
    refine ⟨digits, spelled, ?_, ?_⟩
    · rw [(mapM_eq_some.mp valued).length_eq, ← isSome_ofValues?, made]
      rfl
    · rw [← exists_values_iff, valued]
      rfl
  · rintro ⟨digits, spelled, many, members⟩
    obtain ⟨values, valued⟩ := Option.isSome_iff_exists.mp (exists_values_iff.mpr members)
    rw [ofHex?_eq spelled, valued, Option.bind_some, isSome_ofValues?,
      ← (mapM_eq_some.mp valued).length_eq]
    exact many

theorem alpha_of_ofHex? (read : ofHex? text = some color) : color.alpha = 1 := by
  obtain ⟨digits, spelled⟩ := exists_digits read
  rw [ofHex?_eq spelled, Option.bind_eq_some_iff] at read
  obtain ⟨values, _, made⟩ := read
  unfold ofValues? at made
  split at made <;> cases made <;> rfl

/-- Two digits write the byte that they are read as. -/
theorem hexOf_ofNat {first second : Char} {high low : Nat} (readFirst : hexDigit? first = some high)
    (readSecond : hexDigit? second = some low) :
    hexOf (UInt8.ofNat (16 * high + low)) = [first.toLower, second.toLower] := by
  obtain ⟨smallHigh, lowerFirst⟩ := hexDigit?_eq_some.mp readFirst
  obtain ⟨smallLow, lowerSecond⟩ := hexDigit?_eq_some.mp readSecond
  have byte : (UInt8.ofNat (16 * high + low)).toNat = 16 * high + low := by
    rw [UInt8.toNat_ofNat']
    omega
  have above : (16 * high + low) / 16 = high := by omega
  have below : (16 * high + low) % 16 = low := by omega
  rw [hexOf, byte, above, below, lowerFirst, lowerSecond]

theorem exists_read_of_hexOf {first second : Char} {byte : UInt8}
    (written : [first.toLower, second.toLower] = hexOf byte) :
    ∃ high low, hexDigit? first = some high ∧ hexDigit? second = some low ∧
      UInt8.ofNat (16 * high + low) = byte := by
  have small := byte.toNat_lt
  simp only [hexOf, List.cons.injEq, and_true] at written
  refine ⟨byte.toNat / 16, byte.toNat % 16, hexDigit?_eq_some.mpr ⟨by omega, written.1⟩,
    hexDigit?_eq_some.mpr ⟨by omega, written.2⟩, ?_⟩
  rw [Nat.div_add_mod, UInt8.ofNat_toNat]

/-- A sign that is no letter is the lower form of itself alone. -/
theorem eq_hash_of_toLower {sign : Char} (lower : sign.toLower = '#') : sign = '#' := by
  unfold Char.toLower at lower
  by_cases capital : sign.val ≥ 'A'.val ∧ sign.val ≤ 'Z'.val
  · rw [dif_pos capital] at lower
    have same : sign.val + ('a'.val - 'A'.val) = '#'.val := congrArg Char.val lower
    have low : 65 ≤ sign.val.toNat := capital.1
    have high : sign.val.toNat ≤ 90 := capital.2
    have sum := congrArg UInt32.toNat same
    rw [UInt32.toNat_add] at sum
    have step : ('a'.val - 'A'.val).toNat = 32 := by decide
    have hash : '#'.val.toNat = 35 := by decide
    omega
  · rwa [dif_neg capital] at lower

/-- A text that writes a color has six signs behind the `#`, two for each channel. -/
theorem writesHex_iff_signs {red green blue : UInt8} :
    WritesHex text red green blue ↔ ∃ d₁ d₂ d₃ d₄ d₅ d₆,
      text.toList = ['#', d₁, d₂, d₃, d₄, d₅, d₆] ∧ [d₁.toLower, d₂.toLower] = hexOf red ∧
        [d₃.toLower, d₄.toLower] = hexOf green ∧ [d₅.toLower, d₆.toLower] = hexOf blue := by
  constructor
  · intro written
    simp only [WritesHex, hexOf, List.cons_append, List.nil_append, List.map_eq_cons_iff,
      List.map_eq_nil_iff] at written
    obtain ⟨hash, _, spelled, lower, d₁, _, rfl, high₁, d₂, _, rfl, low₁, d₃, _, rfl, high₂,
      d₄, _, rfl, low₂, d₅, _, rfl, high₃, d₆, _, rfl, low₃, rfl⟩ := written
    refine ⟨d₁, d₂, d₃, d₄, d₅, d₆, ?_, ?_, ?_, ?_⟩
    · rw [spelled, eq_hash_of_toLower lower]
    all_goals simp [hexOf, *]
  · rintro ⟨d₁, d₂, d₃, d₄, d₅, d₆, spelled, writtenRed, writtenGreen, writtenBlue⟩
    have hash : Char.toLower '#' = '#' := by decide
    simp [WritesHex, spelled, hash, ← writtenRed, ← writtenGreen, ← writtenBlue]

/-- Six digits make the color whose channels they write. -/
theorem writesHex_iff {red green blue : UInt8} :
    WritesHex text red green blue ↔
      text.length = 7 ∧ ofHex? text = some ⟨red, green, blue, 1⟩ := by
  rw [writesHex_iff_signs]
  constructor
  · rintro ⟨d₁, d₂, d₃, d₄, d₅, d₆, spelled, writtenRed, writtenGreen, writtenBlue⟩
    obtain ⟨red₁, red₀, read₁, read₂, isRed⟩ := exists_read_of_hexOf writtenRed
    obtain ⟨green₁, green₀, read₃, read₄, isGreen⟩ := exists_read_of_hexOf writtenGreen
    obtain ⟨blue₁, blue₀, read₅, read₆, isBlue⟩ := exists_read_of_hexOf writtenBlue
    refine ⟨by simp [← String.length_toList, spelled], ?_⟩
    simp [ofHex?_eq spelled, read₁, read₂, read₃, read₄, read₅, read₆, ofValues?, isRed, isGreen,
      isBlue]
  · rintro ⟨long, read⟩
    obtain ⟨digits, spelled⟩ := exists_digits read
    rw [ofHex?_eq spelled, Option.bind_eq_some_iff] at read
    obtain ⟨values, valued, made⟩ := read
    have six : values.length = 6 := by
      rw [← (mapM_eq_some.mp valued).length_eq]
      simpa [← String.length_toList, spelled] using long
    unfold ofValues? at made
    split at made
    next => cases six
    next red₁ red₀ green₁ green₀ blue₁ blue₀ =>
      cases made
      simp only [mapM_eq_some, List.forall₂_cons_right_iff, List.forall₂_nil_right_iff] at valued
      obtain ⟨d₁, _, read₁, ⟨d₂, _, read₂, ⟨d₃, _, read₃, others, rfl⟩, rfl⟩, rfl⟩ := valued
      obtain ⟨d₄, _, read₄, ⟨d₅, _, read₅, ⟨d₆, _, read₆, rfl, rfl⟩, rfl⟩, rfl⟩ := others
      exact ⟨d₁, d₂, d₃, d₄, d₅, d₆, spelled, (hexOf_ofNat read₁ read₂).symm,
        (hexOf_ofNat read₃ read₄).symm, (hexOf_ofNat read₅ read₆).symm⟩
    next => cases made

/-- Seventeen times a digit fits into a byte. -/
theorem toNat_ofNat_of_hexDigit? {digit : Char} {value : Nat}
    (read : hexDigit? digit = some value) : (UInt8.ofNat (17 * value)).toNat = 17 * value := by
  have small := (hexDigit?_eq_some.mp read).1
  rw [UInt8.toNat_ofNat']
  omega

section Short

variable {d₁ d₂ d₃ : Char}

theorem ofHex?_doubled (spelled : text.toList = ['#', d₁, d₂, d₃]) :
    ofHex? text = ofHex? (String.ofList ['#', d₁, d₁, d₂, d₂, d₃, d₃]) := by
  have double (value : Nat) : 16 * value + value = 17 * value := by omega
  rw [ofHex?_eq spelled, ofHex?_eq String.toList_ofList]
  simp only [List.mapM_cons, List.mapM_nil, Option.bind_eq_bind]
  cases hexDigit? d₁ <;> cases hexDigit? d₂ <;> cases hexDigit? d₃ <;>
    simp only [Option.bind_none, Option.bind_some, Option.pure_def, ofValues?, double]

theorem channels_of_short (spelled : text.toList = ['#', d₁, d₂, d₃])
    (read : ofHex? text = some color) :
    ∃ red green blue, hexDigit? d₁ = some red ∧ hexDigit? d₂ = some green ∧
      hexDigit? d₃ = some blue ∧ color.red.toNat = 17 * red ∧ color.green.toNat = 17 * green ∧
      color.blue.toNat = 17 * blue := by
  rw [ofHex?_eq spelled, Option.bind_eq_some_iff] at read
  obtain ⟨values, valued, made⟩ := read
  simp only [mapM_eq_some, List.forall₂_cons_left_iff, List.forall₂_nil_left_iff] at valued
  obtain ⟨red, _, read₁, ⟨green, _, read₂, ⟨blue, _, read₃, rfl, rfl⟩, rfl⟩, rfl⟩ := valued
  cases made
  exact ⟨red, green, blue, read₁, read₂, read₃, toNat_ofNat_of_hexDigit? read₁,
    toNat_ofNat_of_hexDigit? read₂, toNat_ofNat_of_hexDigit? read₃⟩

end Short

end Texts

/-- A text spells a color exactly when it is a `#` and three or six hexadecimal digits, and every
color spelled is opaque.  Six digits spell the color that they write, in letters of either case;
three digits spell the same color as each of them twice, and each channel is seventeen times its
digit, which never leaves a byte. -/
theorem ofHex?_spells (text : String) :
    ((ofHex? text).isSome = true ↔ IsHex text) ∧
      (∀ color, ofHex? text = some color → color.alpha = 1) ∧
      (∀ red green blue, WritesHex text red green blue ↔
        text.length = 7 ∧ ofHex? text = some ⟨red, green, blue, 1⟩) ∧
      ∀ d₁ d₂ d₃, text.toList = ['#', d₁, d₂, d₃] →
        ofHex? text = ofHex? (String.ofList ['#', d₁, d₁, d₂, d₂, d₃, d₃]) ∧
        ∀ color, ofHex? text = some color → ∃ red green blue,
          hexDigit? d₁ = some red ∧ hexDigit? d₂ = some green ∧ hexDigit? d₃ = some blue ∧
            color.red.toNat = 17 * red ∧ color.green.toNat = 17 * green ∧
            color.blue.toNat = 17 * blue := by
  refine ⟨isSome_ofHex?, fun color => alpha_of_ofHex?, fun red green blue => writesHex_iff, ?_⟩
  intro d₁ d₂ d₃ spelled
  exact ⟨ofHex?_doubled spelled, fun color => channels_of_short spelled⟩

/-- A color spelled with three digits, in letters of both cases. -/
theorem ofHex?_spells_orange :
    "#fA0".toList = ['#', 'f', 'A', '0'] ∧ ofHex? "#fA0" = ofHex? "#ffAA00" ∧
      ofHex? "#ffAA00" = some ⟨255, 170, 0, 1⟩ := by
  have spelled : "#fA0".toList = ['#', 'f', 'A', '0'] := by decide
  have written : WritesHex "#ffAA00" 255 170 0 := by decide
  have doubled := ((ofHex?_spells "#fA0").2.2.2 'f' 'A' '0' spelled).1
  exact ⟨spelled, doubled, (((ofHex?_spells "#ffAA00").2.2.1 255 170 0).mp written).2⟩

end EntityScript.Color
