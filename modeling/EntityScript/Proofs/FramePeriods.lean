import EntityScript.Command
import EntityScript.Proofs.Reciprocals

/-!
The time between two frames, in whole nanoseconds.
-/

namespace EntityScript.Settings

open Number

/-- The whole number is one of those that are nearest to `n / d`. -/
def Nearest (n d whole : Nat) : Prop :=
  2 * n ≤ 2 * (whole * d) + d ∧ 2 * (whole * d) ≤ 2 * n + d

theorem nearest_divideToEven (n : Nat) {d : Nat} (positive : 0 < d) :
    Nearest n d (divideToEven n d) := by
  have whole := Nat.div_add_mod' n d
  have rest := Nat.mod_lt n positive
  unfold Nearest divideToEven
  dsimp only
  split
  · omega
  · split
    · rw [Nat.add_mul]
      omega
    · have even : n / d % 2 = 0 ∨ n / d % 2 = 1 := by omega
      rcases even with even | odd
      · rw [even, Nat.add_zero]
        omega
      · rw [odd, Nat.add_mul]
        omega

/-- A value that is close enough to a quotient is rounded to a whole number nearest to that, as the
whole numbers nearest to quotients change at quotients only that are not that close. -/
theorem Nearest.of_close {n rate m unit whole : Nat} (nearest : Nearest (m * n) unit whole)
    (positive : 0 < unit) (small : 2 * n < 2 ^ 51)
    (most : 2 ^ 51 * (m * rate) ≤ (2 ^ 51 + 1) * unit)
    (least : (2 ^ 51 - 1) * unit ≤ 2 ^ 51 * (m * rate)) : Nearest n rate whole := by
  constructor
  · have scaled : (2 ^ 51 - 1) * (2 * n) * unit ≤ 2 ^ 51 * (2 * (whole * rate) + rate) * unit := by
      calc (2 ^ 51 - 1) * (2 * n) * unit = 2 * n * ((2 ^ 51 - 1) * unit) := by ring
        _ ≤ 2 * n * (2 ^ 51 * (m * rate)) := Nat.mul_le_mul_left _ least
        _ = 2 ^ 51 * rate * (2 * (m * n)) := by ring
        _ ≤ 2 ^ 51 * rate * (2 * (whole * unit) + unit) := Nat.mul_le_mul_left _ nearest.1
        _ = 2 ^ 51 * (2 * (whole * rate) + rate) * unit := by ring
    have divided := Nat.le_of_mul_le_mul_right scaled positive
    omega
  · have scaled : 2 ^ 51 * (2 * (whole * rate)) * unit ≤
        ((2 ^ 51 + 1) * (2 * n) + 2 ^ 51 * rate) * unit := by
      calc 2 ^ 51 * (2 * (whole * rate)) * unit = 2 ^ 51 * rate * (2 * (whole * unit)) := by ring
        _ ≤ 2 ^ 51 * rate * (2 * (m * n) + unit) := Nat.mul_le_mul_left _ nearest.2
        _ = 2 * n * (2 ^ 51 * (m * rate)) + 2 ^ 51 * rate * unit := by ring
        _ ≤ 2 * n * ((2 ^ 51 + 1) * unit) + 2 ^ 51 * rate * unit :=
          Nat.add_le_add_right (Nat.mul_le_mul_left _ most) _
        _ = ((2 ^ 51 + 1) * (2 * n) + 2 ^ 51 * rate) * unit := by ring
    have divided := Nat.le_of_mul_le_mul_right scaled positive
    omega

/-- The frames per second that are aimed at. -/
def rate (settings : Settings) : Nat :=
  if settings.targetFps = 0 then 60 else settings.targetFps.toNat

theorem rate_bounds (settings : Settings) : 0 < settings.rate ∧ settings.rate < 2 ^ 32 := by
  unfold rate
  split
  · decide
  next some_ =>
    have bounded := settings.targetFps.toNat_lt
    have nonzero : settings.targetFps.toNat ≠ 0 := fun zero => some_ (UInt32.toNat_inj.mp zero)
    omega

theorem framePeriod_eq (settings : Settings) :
    settings.framePeriod = nanosOfSeconds (1 / Number.ofNat settings.rate) := by
  unfold framePeriod rate
  dsimp only
  split <;> rfl

theorem nearest_framePeriod (settings : Settings) :
    Nearest nanosPerSecond settings.rate settings.framePeriod := by
  obtain ⟨positive, small⟩ := settings.rate_bounds
  obtain ⟨m, k, some_, made, most, least⟩ := exists_parts_reciprocal positive (by omega)
  have period : settings.framePeriod = divideToEven (m * nanosPerSecond) (2 ^ (k + 1)) := by
    rw [framePeriod_eq, nanosOfSeconds, made]
    simp only [Nat.shiftLeft_eq, Nat.one_mul]
  rw [period]
  exact (nearest_divideToEven _ (by positivity)).of_close (by positivity) (by decide) most least

/-- At a frame every half nanosecond the time between frames is rounded up. -/
theorem framePeriod_half {settings : Settings} (half : settings.rate = 2 * nanosPerSecond) :
    settings.framePeriod = 1 := by
  have rounded : nanosOfSeconds (1 / Number.ofNat (2 * nanosPerSecond)) = 1 := by decide +kernel
  rw [framePeriod_eq, half, rounded]

theorem framePeriod_pos_iff (settings : Settings) :
    0 < settings.framePeriod ↔ settings.rate ≤ 2 * nanosPerSecond := by
  obtain ⟨least, most⟩ := settings.nearest_framePeriod
  constructor
  · intro positive
    have once : 1 * settings.rate ≤ settings.framePeriod * settings.rate :=
      Nat.mul_le_mul_right _ positive
    omega
  · intro slow
    by_contra none_
    have zero : settings.framePeriod = 0 := by omega
    rw [zero, Nat.zero_mul] at least
    have half : settings.rate = 2 * nanosPerSecond := by omega
    rw [framePeriod_half half] at zero
    cases zero

/-- The time between frames is the whole number of nanoseconds nearest to what the rate asks for,
where a rate of zero counts as sixty.  There is some time exactly up to two frames in a nanosecond;
of a higher rate nothing is left. -/
theorem time_between_frames (settings : Settings) :
    (0 < settings.framePeriod ↔ settings.targetFps.toNat ≤ 2 * nanosPerSecond) ∧
      Nearest nanosPerSecond settings.rate settings.framePeriod := by
  refine ⟨?_, settings.nearest_framePeriod⟩
  rw [framePeriod_pos_iff, rate]
  split
  next zero => exact iff_of_true (by decide) (by simp [zero])
  next => exact Iff.rfl

/-- A settings file that sets the rate of frames. -/
def pacedAt (rate : String) : FileTree :=
  .ofFiles [("settings.json", "\x7b\"target_fps\": " ++ rate ++ "\x7d")]

/-- Where a settings file sets the greatest rate, no time is left between frames. -/
theorem no_time_between_frames :
    ∃ settings, Command.settings? (pacedAt "4294967295") (some "settings.json") = some settings ∧
      ¬0 < settings.framePeriod := by
  have seen : ((Command.settings? (pacedAt "4294967295") (some "settings.json")).map
      framePeriod) = some 0 := by
    decide +kernel
  obtain ⟨settings, found, none_⟩ := Option.map_eq_some_iff.mp seen
  exact ⟨settings, found, by omega⟩

end EntityScript.Settings
