import EntityScript.Number.Arithmetic

/-!
Settings of a run, and the two rules of time that follow from them.
-/

namespace EntityScript

structure Settings where
  /-- The size of the surface at the start, in pixels. -/
  width : UInt32
  height : UInt32
  /-- Frames per second in real time. -/
  targetFps : UInt32
  /-- The most seconds that a tick is told have passed; no bound when there is none. -/
  maxFrameDelta : Option Float
  /-- Whether a failing entity is logged and skipped rather than ending the frame. -/
  isolateErrors : Bool
  /-- The extension of script files in a directory. -/
  scriptExtension : String
  deriving DecidableEq, Repr

namespace Settings

def default : Settings := ⟨800, 600, 60, none, true, "ryx"⟩

instance : Inhabited Settings := ⟨default⟩

def nanosPerSecond : Nat := 1000000000

/-- The whole number nearest to a quotient, a half going to the even one. -/
def divideToEven (n d : Nat) : Nat :=
  let q := n / d
  let rest := 2 * (n % d)
  if rest < d then q
  else if d < rest then q + 1
  else q + q % 2

def nanosOfSeconds (seconds : Float) : Nat :=
  match Number.parts seconds with
  | .finite .positive m (.ofNat k) _ => (m <<< k) * nanosPerSecond
  | .finite .positive m (.negSucc k) _ => divideToEven (m * nanosPerSecond) (1 <<< (k + 1))
  | _ => 0

/-- A number of nanoseconds in seconds: whole seconds and the fraction are converted
apart and then added. -/
def secondsOfNanos (nanos : Nat) : Float :=
  Number.ofNat (nanos / nanosPerSecond)
    + Number.ofNat (nanos % nanosPerSecond) / Number.ofNat nanosPerSecond

/-- The time between frames in nanoseconds.  A rate of zero counts as sixty. -/
def framePeriod (settings : Settings) : Nat :=
  let rate := if settings.targetFps = 0 then 60 else settings.targetFps
  nanosOfSeconds (1 / Number.ofNat rate.toNat)

/-- The seconds a tick is told have passed when `delta` seconds were measured. -/
def clampDelta (settings : Settings) (delta : Float) : Float :=
  let delta := Number.greatest delta 0
  match settings.maxFrameDelta with
  | some most => if most < delta then most else delta
  | none => delta

end Settings

end EntityScript
