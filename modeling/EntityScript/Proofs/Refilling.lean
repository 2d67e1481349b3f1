import EntityScript.Proofs.Accounts
import EntityScript.Proofs.Printable

/-!
Texts that differ in payloads and marks only.  An account is refilled when other payloads, or
other marks behind names, are put into slots of it, as long as the payloads stay clear of the
tokens at which payloads end there.
-/

namespace EntityScript

open Source (Span)

section Payloads

variable {ends : Nat → Token → Bool} {stops fewer : List Token} {depth : Nat}
  {lexemes part rest rest' : List Lexeme} {old new : Payload}

theorem staysClear_cons {token : Token} {tokens : List Token} :
    staysClear stops depth (token :: tokens) = true ↔
      (token.endsStatement = false ∧ (depth = 0 → token ∉ stops)) ∧
        staysClear stops (token.depthAfter depth) tokens = true := by
  rw [staysClear, Bool.and_eq_true, Bool.not_eq_true', Bool.or_eq_false_iff,
    Bool.and_eq_false_imp, decide_eq_true_eq, decide_eq_false_iff_not]

theorem staysClear_mono {tokens : List Token} (subset : fewer ⊆ stops)
    (clear : staysClear stops depth tokens = true) : staysClear fewer depth tokens = true := by
  induction tokens generalizing depth with
  | nil => rfl
  | cons token rest inductionHypothesis =>
      obtain ⟨⟨goes, inside⟩, further⟩ := staysClear_cons.mp clear
      exact staysClear_cons.mpr
        ⟨⟨goes, fun outside among => inside outside (subset among)⟩, inductionHypothesis further⟩

/-- A payload goes on as long as it stays clear, and ends at the token behind it. -/
theorem splitPayload_eq (stopping : ∀ depth token, ends depth token =
      (token.endsStatement || (depth = 0 && token ∈ stops))) :
    splitPayload ends depth lexemes = (part, rest) ↔
      lexemes = part ++ rest ∧ staysClear stops depth (part.map (·.token)) = true ∧
        ends (depthBehind depth (part.map (·.token))) (nextToken rest) = true := by
  constructor
  · intro split
    induction lexemes generalizing depth part with
    | nil =>
        cases split
        refine ⟨rfl, rfl, ?_⟩
        rw [stopping]
        rfl
    | cons first more inductionHypothesis =>
        rw [splitPayload] at split
        split at split
        next stop =>
          cases split
          exact ⟨rfl, rfl, stop⟩
        next goes =>
          obtain ⟨rfl, rfl⟩ := Prod.mk.inj split
          obtain ⟨whole, clear, stop⟩ := inductionHypothesis rfl
          refine ⟨congrArg (first :: ·) whole, ?_, stop⟩
          rw [List.map_cons, staysClear, ← stopping, eq_false_of_ne_true goes, clear]
          rfl
  · rintro ⟨rfl, clear, stop⟩
    exact splitPayload_append stops stopping clear stop

/-- The payload is one that is taken of a text: it is not empty, and its span is that of its
lexemes. -/
def Payload.Made (payload : Payload) : Prop := ∃ first more, payload = Payload.of first more

/-- The payload may be put where the other one stands, in front of a token that is none of the
given ones unless the other one ends there. -/
structure Payload.Replaces (stops : List Token) (new old : Payload) : Prop where
  made : new.Made
  clear : ∀ fewer ⊆ stops, staysClear fewer 0 old.tokens = true →
    staysClear fewer 0 new.tokens = true
  depth : depthBehind 0 old.tokens = 0 → depthBehind 0 new.tokens = 0

theorem Payload.Replaces.refl (first : Lexeme) (more : List Lexeme) :
    (Payload.of first more).Replaces stops (Payload.of first more) :=
  ⟨⟨first, more, rfl⟩, fun _ _ clear => clear, fun closed => closed⟩

theorem Payload.Replaces.mono (subset : fewer ⊆ stops) (replaces : new.Replaces stops old) :
    new.Replaces fewer old :=
  ⟨replaces.made, fun _ within => replaces.clear _ (List.Subset.trans within subset),
    replaces.depth⟩

/-- Where a payload was taken, another one that replaces it is taken in its place. -/
theorem Payload.Replaces.split (stopping : ∀ depth token, ends depth token =
      (token.endsStatement || (depth = 0 && token ∈ fewer)))
    (replaces : new.Replaces stops old) (subset : fewer ⊆ stops)
    (split : splitPayload ends 0 lexemes = (old.lexemes, rest))
    (same : nextToken rest' = nextToken rest) :
    splitPayload ends 0 (new.lexemes ++ rest') = (new.lexemes, rest') := by
  obtain ⟨-, clear, stop⟩ := (splitPayload_eq stopping).mp split
  refine (splitPayload_eq stopping).mpr ⟨rfl, replaces.clear fewer subset clear, ?_⟩
  rw [stopping, Bool.or_eq_true] at stop
  rw [stopping, same, Bool.or_eq_true]
  refine stop.imp_right fun outside => ?_
  simp only [Bool.and_eq_true, decide_eq_true_eq] at outside ⊢
  exact ⟨replaces.depth outside.1, outside.2⟩

end Payloads

/-- The tokens that a payload in front of the slots must stay clear of. -/
def stopsBefore : List Slot → List Token
  | [] => statementStops
  | slot :: _ =>
      if slot = .word (.name "to") then .name "to" :: statementStops else statementStops

theorem statementStops_subset_stopsBefore (slots : List Slot) :
    statementStops ⊆ stopsBefore slots := by
  unfold stopsBefore
  split
  next => exact fun _ among => among
  next =>
    split
    · exact List.subset_cons_self _ _
    · exact fun _ among => among

/-- Whether a slot may have marks behind a name. -/
def Slot.isMarked : Slot → Bool
  | annotations | delta _ => true
  | _ => false

/-- Payloads of the account may have been exchanged for others that they are related to, and the
marks behind names for any others. -/
inductive Refills (R : Payload → Payload → Prop) : Account → Account → Prop
  | nil : Refills R [] []
  | keep {entry account other} (further : Refills R account other) :
      Refills R (entry :: account) (entry :: other)
  | payload {old new part account other} (related : R old new)
      (replaces : new.Replaces (stopsBefore account.slots) old)
      (further : Refills R account other) :
      Refills R ((.payload old, part) :: account) ((.payload new, new.lexemes) :: other)
  | marks {slot part part' account other} (marked : slot.isMarked = true) (fits : slot.Fits part')
      (further : Refills R account other) :
      Refills R ((slot, part) :: account) ((slot, part') :: other)

namespace Refills

variable {R : Payload → Payload → Prop} {slot : Slot} {part : List Lexeme}
  {account other behind : Account}

theorem refl (account : Account) : Refills R account account := by
  induction account with
  | nil => exact .nil
  | cons entry rest inductionHypothesis => exact .keep inductionHypothesis

theorem prepend (before : Account) (refills : Refills R account other) :
    Refills R (before ++ account) (before ++ other) := by
  induction before with
  | nil => exact refills
  | cons entry rest inductionHypothesis => exact .keep inductionHypothesis

theorem exists_append (refills : Refills R (account ++ behind) other) :
    ∃ first second, other = first ++ second ∧ Refills R account first ∧
      Refills R behind second := by
  induction account generalizing other with
  | nil => exact ⟨[], other, rfl, .nil, refills⟩
  | cons entry rest inductionHypothesis =>
      cases refills with
      | keep further =>
          obtain ⟨first, second, rfl, inside, beyond⟩ := inductionHypothesis further
          exact ⟨_, second, rfl, .keep inside, beyond⟩
      | payload related replaces further =>
          obtain ⟨first, second, rfl, inside, beyond⟩ := inductionHypothesis further
          refine ⟨_, second, rfl, .payload related (replaces.mono ?_) inside, beyond⟩
          -- Without a slot behind it a payload has fewer tokens to stay clear of.
          cases rest with
          | nil => exact statementStops_subset_stopsBefore behind.slots
          | cons => exact fun _ among => among
      | marks marked fits further =>
          obtain ⟨first, second, rfl, inside, beyond⟩ := inductionHypothesis further
          exact ⟨_, second, rfl, .marks marked fits inside, beyond⟩

theorem exists_fixed (outside : slot.isPayload = false) (unmarked : slot.isMarked = false)
    (refills : Refills R ((slot, part) :: account) other) :
    ∃ more, other = (slot, part) :: more ∧ Refills R account more := by
  cases refills with
  | keep further => exact ⟨_, rfl, further⟩
  | payload => cases outside
  | marks marked => cases unmarked.symm.trans marked

theorem exists_marked (marked : slot.isMarked = true) (fits : slot.Fits part)
    (refills : Refills R ((slot, part) :: account) other) :
    ∃ part' more, other = (slot, part') :: more ∧ slot.Fits part' ∧ Refills R account more := by
  cases refills with
  | keep further => exact ⟨part, _, rfl, fits, further⟩
  | payload => cases marked
  | marks _ fits further => exact ⟨_, _, rfl, fits, further⟩

theorem exists_payload [Std.Refl R] {first : Lexeme} {more : List Lexeme}
    (refills : Refills R ((.payload (Payload.of first more), first :: more) :: account) other) :
    ∃ new beyond, other = (.payload new, new.lexemes) :: beyond ∧ R (Payload.of first more) new ∧
      new.Replaces (stopsBefore account.slots) (Payload.of first more) ∧
      Refills R account beyond := by
  cases refills with
  | keep further => exact ⟨_, _, rfl, Std.Refl.refl _, .refl first more, further⟩
  | payload related replaces further => exact ⟨_, _, rfl, related, replaces, further⟩
  | marks marked => cases marked

end Refills

/-- In front of the rest the lexemes are laid out in the slots, with payloads that were taken of a
text, and however these are refilled, the slots and lexemes that come of it are good. -/
def Refillable (R : Payload → Payload → Prop) (lexemes : List Lexeme) (slots : List Slot)
    (rest : List Lexeme) (good : List Slot → List Lexeme → Prop) : Prop :=
  ∃ account : Account, account.slots = slots ∧ account.lexemes ++ rest = lexemes ∧
    account.Fits ∧ account.Balanced ∧ SlotsHold Payload.Made account.slots ∧
    ∀ other, Refills R account other → good other.slots other.lexemes

namespace Refillable

variable {R : Payload → Payload → Prop} {lexemes middle rest part : List Lexeme}
  {slot : Slot} {slots others : List Slot} {good better : List Slot → List Lexeme → Prop}

theorem mono (refillable : Refillable R lexemes slots rest good)
    (implies : ∀ slots part, good slots part → better slots part) :
    Refillable R lexemes slots rest better := by
  obtain ⟨account, same, whole, fits, balanced, made, again⟩ := refillable
  exact ⟨account, same, whole, fits, balanced, made,
    fun other refills => implies _ _ (again other refills)⟩

theorem nil : Refillable R rest [] rest fun slots part => slots = [] ∧ part = [] :=
  ⟨[], rfl, rfl, nofun, fun _ _ => Iff.rfl, slotsHold_nil,
    fun _ refills => by cases refills; exact ⟨rfl, rfl⟩⟩

theorem append (refillable : Refillable R lexemes slots middle good)
    (behind : Refillable R middle others rest better) :
    Refillable R lexemes (slots ++ others) rest fun slots part =>
      ∃ first second before beyond, slots = first ++ second ∧ part = before ++ beyond ∧
        good first before ∧ better second beyond := by
  obtain ⟨account, rfl, rfl, fits, balanced, made, again⟩ := refillable
  obtain ⟨account', rfl, rfl, fits', balanced', made', again'⟩ := behind
  refine ⟨account ++ account', by simp, by simp, fits.append fits', balanced.append balanced',
    Account.slots_append ▸ slotsHold_append.mpr ⟨made, made'⟩, ?_⟩
  intro other refills
  obtain ⟨first, second, rfl, inside, beyond⟩ := refills.exists_append
  exact ⟨_, _, _, _, Account.slots_append, Account.lexemes_append, again _ inside, again' _ beyond⟩

/-- A slot that is neither a payload nor marked stays as it is. -/
theorem fixed (slot : Slot) (inside : slot.bounds = false) (outside : slot.isPayload = false)
    (unmarked : slot.isMarked = false) (fits : slot.Fits part) :
    Refillable R (part ++ rest) [slot] rest fun slots part' => slots = [slot] ∧ part' = part := by
  refine ⟨[(slot, part)], rfl, by simp [Account.lexemes], by simpa [Account.Fits] using fits,
    .single inside part, slotsHold_cons.mpr ⟨Slot.holds_of_isPayload outside, slotsHold_nil⟩,
    fun other refills => ?_⟩
  obtain ⟨more, rfl, further⟩ := refills.exists_fixed outside unmarked
  cases further
  exact ⟨rfl, by simp [Account.lexemes]⟩

theorem marked (slot : Slot) (inside : slot.bounds = false) (marked : slot.isMarked = true)
    (fits : slot.Fits part) :
    Refillable R (part ++ rest) [slot] rest fun slots part' =>
      slots = [slot] ∧ slot.Fits part' := by
  have outside : slot.isPayload = false := by cases slot <;> first | rfl | cases marked
  refine ⟨[(slot, part)], rfl, by simp [Account.lexemes], by simpa [Account.Fits] using fits,
    .single inside part, slotsHold_cons.mpr ⟨Slot.holds_of_isPayload outside, slotsHold_nil⟩,
    fun other refills => ?_⟩
  obtain ⟨part', more, rfl, fits', further⟩ := refills.exists_marked marked fits
  cases further
  exact ⟨rfl, by simpa [Account.lexemes] using fits'⟩

theorem word {lexeme : Lexeme} {token : Token} (found : lexeme.token = token)
    (plain : token.continues = true) (refillable : Refillable R middle slots rest good) :
    Refillable R (lexeme :: middle) (.word token :: slots) rest fun slots part =>
      ∃ others beyond, slots = .word token :: others ∧ part = lexeme :: beyond ∧
        good others beyond := by
  have fits : (Slot.word token).Fits [lexeme] := ⟨plain, by simp [found]⟩
  refine ((fixed _ rfl rfl rfl fits).append refillable).mono ?_
  rintro _ _ ⟨_, others, _, beyond, rfl, rfl, ⟨rfl, rfl⟩, held⟩
  exact ⟨others, beyond, rfl, rfl, held⟩

theorem block {opener last : Lexeme} {token : Token} (opens : opener.token = token)
    (plain : token.continues = true) (refillable : Refillable R middle slots (last :: rest) good)
    (closes : last.token = .kwEnd) :
    Refillable R (opener :: middle)
      (.opening token :: slots ++ [.closing (opener.span.union last.span)]) rest
      fun slots part => ∃ others inside,
        slots = .opening token :: others ++ [.closing (opener.span.union last.span)] ∧
        part = opener :: inside ++ [last] ∧ good others inside := by
  obtain ⟨account, rfl, rfl, fits, balanced, made, again⟩ := refillable
  refine ⟨_, ?_, ?_, ?_, balanced.block token opener last, ?_, ?_⟩
  · simp [Account.slots]
  · simp [Account.lexemes]
  · apply Account.Fits.append
    · exact List.forall_mem_cons.mpr ⟨⟨plain, by simp [opens]⟩, fits⟩
    · simpa [Account.Fits, Slot.Fits] using closes
  · rw [Account.slots_append]
    exact slotsHold_append.mpr ⟨slotsHold_cons.mpr ⟨trivial, made⟩,
      slotsHold_cons.mpr ⟨trivial, slotsHold_nil⟩⟩
  · intro other refills
    obtain ⟨_, _, rfl, opened, closed⟩ := refills.exists_append
    obtain ⟨more, rfl, inside⟩ := opened.exists_fixed rfl rfl
    obtain ⟨_, rfl, done⟩ := closed.exists_fixed rfl rfl
    cases done
    exact ⟨_, _, by simp [Account.slots], by simp [Account.lexemes], again more inside⟩

section Payload

variable [Std.Refl R] {first : Lexeme} {more : List Lexeme}
  (goes : ∀ lexeme ∈ first :: more, lexeme.token.endsStatement = false)

include goes

theorem payload : Refillable R (first :: more ++ rest) [.payload (Payload.of first more)] rest
    fun slots part => ∃ new, slots = [.payload new] ∧ part = new.lexemes ∧
      R (Payload.of first more) new ∧ new.Replaces statementStops (Payload.of first more) := by
  refine ⟨[(.payload (Payload.of first more), first :: more)], rfl, by simp [Account.lexemes],
    by simpa [Account.Fits] using ⟨rfl, goes⟩, .single rfl _,
    slotsHold_cons.mpr ⟨⟨first, more, rfl⟩, slotsHold_nil⟩, fun other refills => ?_⟩
  obtain ⟨new, beyond, rfl, related, replaces, further⟩ := refills.exists_payload
  cases further
  exact ⟨new, rfl, by simp [Account.lexemes], related, replaces⟩

theorem payloadWord {stop : Lexeme} {token : Token} (stops : stop.token = token)
    (plain : token.continues = true) :
    Refillable R (first :: more ++ stop :: rest)
      [.payload (Payload.of first more), .word token] rest
      fun slots part => ∃ new, slots = [.payload new, .word token] ∧
        part = new.lexemes ++ [stop] ∧ R (Payload.of first more) new ∧
        new.Replaces (stopsBefore [.word token]) (Payload.of first more) := by
  have fits : Account.Fits [(.payload (Payload.of first more), first :: more),
      (.word token, [stop])] :=
    List.forall_mem_cons.mpr ⟨⟨rfl, goes⟩, by simpa [Slot.Fits, stops] using plain⟩
  refine ⟨_, rfl, by simp [Account.lexemes], fits,
    .append (.single rfl _) (.single rfl [stop]),
    slotsHold_cons.mpr ⟨⟨first, more, rfl⟩, slotsHold_cons.mpr ⟨trivial, slotsHold_nil⟩⟩,
    fun other refills => ?_⟩
  obtain ⟨new, beyond, rfl, related, replaces, further⟩ := refills.exists_payload
  obtain ⟨_, rfl, done⟩ := further.exists_fixed rfl rfl
  cases done
  exact ⟨new, rfl, by simp [Account.lexemes], related, replaces⟩

end Payload

end Refillable

end EntityScript
