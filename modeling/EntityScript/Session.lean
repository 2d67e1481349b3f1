import EntityScript.World.Operations

/-!
Running a world frame by frame.  A frame applies key events, ticks, and renders.
-/

namespace EntityScript

open Script

/-- A world and how far it has run. -/
structure Session where
  world : World
  /-- The number of frames completed. -/
  frames : Nat
  /-- When the last frame that was given a time started, in nanoseconds. -/
  lastStart : Option Nat

namespace Session

def start (world : World) : Session := ⟨world, 0, none⟩

/-- Compute on the world of a session. -/
def onWorld {α : Type} (script : Script World α) : Script Session α :=
  fun ⟨world, frames, lastStart⟩ =>
    match script world with
    | .returned value world => .returned value ⟨world, frames, lastStart⟩
    | .raised error world => .raised error ⟨world, frames, lastStart⟩
    | .endless => .endless

/-- Count a frame and log it. -/
def completeFrame (delta : Float) (session : Session) : Session :=
  let frames := session.frames + 1
  { session with
    frames
    world := session.world.log (.frame frames delta session.world.registry.length) }

/-- One frame after so many seconds. -/
def step (elapsed : Float) : Script Session Unit := do
  let settings ← gets (·.world.settings)
  let delta := settings.clampDelta elapsed
  onWorld (modify World.pumpInput)
  onWorld (World.tickPhase delta)
  onWorld World.renderPhase
  modify (completeFrame delta)

/-- How long a frame of a fixed run takes: the first one takes no time if no frame was completed
before it. -/
def fixedTime (elapsed : Float) (index completed : Nat) : Float :=
  if index = 0 ∧ completed = 0 then 0 else elapsed

/-- A number of frames of a fixed run, from the one with the given index on. -/
def fixedFrames (elapsed : Float) : Nat → Nat → Script Session Unit
  | _, 0 => pure ()
  | index, frames + 1 => do
      let completed ← gets Session.frames
      step (fixedTime elapsed index completed)
      fixedFrames elapsed (index + 1) frames

/-- A number of frames with a fixed time between them; the first of all takes none. -/
def runFixed (elapsed : Float) (frames : Nat) : Script Session Unit :=
  fixedFrames elapsed 0 frames

/-- One frame at a time in nanoseconds.  The first takes no time, and so does one that is
earlier than the last. -/
def frameAt (now : Nat) : Script Session Unit := do
  let last ← gets Session.lastStart
  modify fun session => { session with lastStart := some now }
  match last with
  | none => step 0
  | some last => step (Settings.secondsOfNanos (now - last))

/-- A number of frames in time, one period apart from a start on. -/
def framesFrom (period : Nat) : Nat → Nat → Script Session Unit
  | 0, _ => pure ()
  | frames + 1, now => do
      frameAt now
      framesFrom period frames (now + period)

/-- Run in time until cancelled after a number of frames. -/
def runUntil (frames : Nat) : Script Session Nat := do
  let settings ← gets (·.world.settings)
  framesFrom settings.framePeriod frames 0
  modify fun session => { session with world := session.world.log (.cancelled session.frames) }
  gets Session.frames

end Session

end EntityScript
