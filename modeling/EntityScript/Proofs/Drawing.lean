import EntityScript.Proofs.Comparisons
import EntityScript.Proofs.MemberCalls

/-!
What the canvas records.  Scripts change a canvas by calls of nine kinds.  Six of them reach the
surface, each by one command; the paint of a shape and the size of a background are those that the
latest calls before it have chosen.
-/

namespace EntityScript.Canvas

namespace Call

/-- The fill that a call chooses for the shapes to come. -/
def fill? : Call → Option Color
  | fill color => some color
  | noFill => some .transparent
  | _ => none

/-- The stroke that a call chooses for the shapes to come. -/
def stroke? : Call → Option Color
  | stroke color => some color
  | noStroke => some .transparent
  | _ => none

/-- The size that a call chooses for the surface; no side is below zero. -/
def size? : Call → Option (Float × Float)
  | resolution width height => some (Number.greatest width 0, Number.greatest height 0)
  | _ => none

/-- The call reaches the surface. -/
def reaches : Call → Bool
  | fill _ | stroke _ | noFill | noStroke => false
  | _ => true

/-- The command of a call on a surface of a size, while shapes are painted in a given way. -/
def command? (size : Float × Float) (paint : Paint) : Call → Option DrawCommand
  | background color => some (.rectangle 0 0 size.1 size.2 ⟨color, .transparent⟩)
  | resolution width height => some (.resize (Number.greatest width 0) (Number.greatest height 0))
  | circle centre radius => some (.circle centre.x centre.y radius.abs paint)
  | rectangle corner width height => some (.rectangle corner.x corner.y width height paint)
  | picture image centre =>
      some (.image image.name (centre.x - image.width / 2) (centre.y - image.height / 2)
        image.width image.height)
  | fill _ | stroke _ | noFill | noStroke => none

/-- What the most recent of the calls that choose have chosen, and `initial` before any has. -/
def latest {α : Type} (choice? : Call → Option α) (initial : α) (calls : List Call) : α :=
  (calls.reverse.findSome? choice?).getD initial

variable {α : Type} {choice? : Call → Option α} {initial : α} {calls : List Call} {call : Call}
  {canvas : Canvas} {size : Float × Float} {paint : Paint}

@[simp]
theorem latest_concat :
    latest choice? initial (calls ++ [call]) =
      (choice? call).getD (latest choice? initial calls) := by
  cases chosen : choice? call <;> simp [latest, chosen]

theorem isSome_command? (call : Call) (size : Float × Float) (paint : Paint) :
    (call.command? size paint).isSome = call.reaches := by
  cases call <;> rfl

theorem perform_paint :
    (call.perform canvas).paint =
      ⟨call.fill?.getD canvas.paint.fill, call.stroke?.getD canvas.paint.stroke⟩ := by
  cases call <;> rfl

theorem perform_size :
    ((call.perform canvas).width, (call.perform canvas).height) =
      call.size?.getD (canvas.width, canvas.height) := by
  cases call <;> rfl

theorem perform_commands :
    (call.perform canvas).commands.toList =
      canvas.commands.toList ++
        (call.command? (canvas.width, canvas.height) canvas.paint).toList := by
  cases call <;>
    simp [perform, command?, setFill, setStroke, setBackground, setResolution, drawCircle,
      drawRectangle, drawImage, draw]

/-- The canvas after calls, the first in front. -/
def performAll (canvas : Canvas) (calls : List Call) : Canvas := calls.foldl perform canvas

@[simp]
theorem performAll_append {later : List Call} :
    performAll canvas (calls ++ later) = performAll (performAll canvas calls) later :=
  List.foldl_append

@[simp]
theorem performAll_cons :
    performAll canvas (call :: calls) = performAll (call.perform canvas) calls := rfl

theorem paint_performAll :
    (performAll canvas calls).paint =
      ⟨latest fill? canvas.paint.fill calls, latest stroke? canvas.paint.stroke calls⟩ := by
  induction calls using List.reverseRecOn with
  | nil => rfl
  | append_singleton calls call inductionHypothesis =>
      rw [performAll_append, performAll_cons]
      change (call.perform (performAll canvas calls)).paint = _
      simp [perform_paint, inductionHypothesis]

theorem size_performAll :
    ((performAll canvas calls).width, (performAll canvas calls).height) =
      latest size? (canvas.width, canvas.height) calls := by
  induction calls using List.reverseRecOn with
  | nil => rfl
  | append_singleton calls call inductionHypothesis =>
      rw [latest_concat, ← inductionHypothesis, ← perform_size, performAll_append]
      rfl

/-- Calls only add to the commands, one for each call that reaches the surface. -/
theorem commands_performAll (canvas : Canvas) (calls : List Call) :
    ∃ added, (performAll canvas calls).commands.toList = canvas.commands.toList ++ added ∧
      added.length = calls.countP reaches := by
  induction calls generalizing canvas with
  | nil => exact ⟨[], by simp [performAll]⟩
  | cons call rest inductionHypothesis =>
      obtain ⟨added, further, many⟩ := inductionHypothesis (call.perform canvas)
      let command := call.command? (canvas.width, canvas.height) canvas.paint
      refine ⟨command.toList ++ added, ?_, ?_⟩
      · rw [performAll_cons, further, perform_commands, List.append_assoc]
      · have one : command.toList.length = if call.reaches then 1 else 0 := by
          cases call <;> rfl
        rw [List.length_append, many, one, List.countP_cons, Nat.add_comm]

end Call

open Call

/-- The canvas of a given size after calls, the first in front. -/
def drawn (width height : Float) (calls : List Call) : Canvas :=
  performAll (.ofSize width height) calls

variable {width height : Float} {before after calls : List Call} {call : Call}

theorem size_commands_drawn :
    (drawn width height calls).commands.size = calls.countP reaches := by
  obtain ⟨added, all, many⟩ := commands_performAll (.ofSize width height) calls
  have long := congrArg List.length all
  simpa [drawn, ofSize, many] using long

/-- The command of a call stands behind those of the calls before it. -/
theorem command_drawn (reach : call.reaches = true) :
    (drawn width height (before ++ call :: after)).commands[before.countP reaches]? =
      call.command? (latest size? (width, height) before)
        ⟨latest fill? .black before, latest stroke? .black before⟩ := by
  let canvas := drawn width height before
  have counted : before.countP reaches = canvas.commands.toList.length :=
    size_commands_drawn.symm
  have chosenPaint : canvas.paint = ⟨latest fill? .black before, latest stroke? .black before⟩ :=
    paint_performAll
  have chosenSize : (canvas.width, canvas.height) = latest size? (width, height) before :=
    size_performAll
  obtain ⟨added, later, -⟩ := commands_performAll (call.perform canvas) after
  have recorded : (drawn width height (before ++ call :: after)).commands.toList =
      canvas.commands.toList ++ (call.command? (canvas.width, canvas.height) canvas.paint).toList
        ++ added := by
    rw [drawn, performAll_append, performAll_cons, ← perform_commands]
    exact later
  rw [← chosenPaint, ← chosenSize, counted, ← Array.getElem?_toList, recorded, List.append_assoc,
    List.getElem?_append_right (Nat.le_refl _), Nat.sub_self]
  have known := isSome_command? call (canvas.width, canvas.height) canvas.paint
  obtain ⟨command, made⟩ := Option.isSome_iff_exists.mp (known.trans reach)
  rw [made]
  rfl

/-- Sides that start at zero or above stay so; what is not a number is no side. -/
theorem nonneg_latest_size (firstSide : 0 ≤ width) (secondSide : 0 ≤ height) :
    0 ≤ (latest size? (width, height) calls).1 ∧ 0 ≤ (latest size? (width, height) calls).2 := by
  have zero : (0 : Float).isNaN = false := by decide
  induction calls using List.reverseRecOn with
  | nil => exact ⟨firstSide, secondSide⟩
  | append_singleton calls call inductionHypothesis =>
      rw [latest_concat]
      cases call with
      | resolution width height =>
          exact ⟨(Number.le_greatest width zero).2, (Number.le_greatest height zero).2⟩
      | _ => exact inductionHypothesis

/-- Of any calls, exactly those that reach the surface are recorded, each by one command and in
order.  A shape has the fill and the stroke that were chosen last, black before any was; a
background covers the size that was chosen last, without a stroke, and that size is never below
zero when the first was not.  Backgrounds, sizes and images choose no paint. -/
theorem draws_what_is_chosen (width height : Float) (calls : List Call) :
    (drawn width height calls).commands.size = calls.countP reaches ∧
      (∀ before call after, calls = before ++ call :: after → call.reaches = true →
        ∃ command,
          call.command? (latest size? (width, height) before)
              ⟨latest fill? .black before, latest stroke? .black before⟩ = some command ∧
            (drawn width height calls).commands[before.countP reaches]? = some command) ∧
      (0 ≤ width → 0 ≤ height → ∀ before after, calls = before ++ after →
        0 ≤ (latest size? (width, height) before).1 ∧
          0 ≤ (latest size? (width, height) before).2) ∧
      ∀ canvas : Canvas, (∀ color, (canvas.setBackground color).paint = canvas.paint) ∧
        (∀ width height, (canvas.setResolution width height).paint = canvas.paint) ∧
        ∀ image centre, (canvas.drawImage image centre).paint = canvas.paint := by
  refine ⟨size_commands_drawn, ?_, ?_, ?_⟩
  · rintro before call after rfl reach
    have known := isSome_command? call (latest size? (width, height) before)
      ⟨latest fill? .black before, latest stroke? .black before⟩
    obtain ⟨command, made⟩ := Option.isSome_iff_exists.mp (known.trans reach)
    exact ⟨command, made, (command_drawn reach).trans made⟩
  · intro firstSide secondSide before after _
    exact nonneg_latest_size firstSide secondSide
  · intro canvas
    exact ⟨fun color => rfl, fun width height => rfl, fun image centre => rfl⟩

/-- A circle without a fill is drawn all the same, and the next background has the new size. -/
theorem draws_circle_and_background :
    let calls : List Call :=
      [.noFill, .circle ⟨10, 10⟩ 5, .resolution 30 (-1), .background .black]
    (drawn 100 50 calls).commands.size = 3 ∧
      (drawn 100 50 calls).commands[0]? =
        some (.circle 10 10 (Float.abs 5) ⟨.transparent, .black⟩) ∧
      (drawn 100 50 calls).commands[2]? =
        some (.rectangle 0 0 (Number.greatest 30 0) (Number.greatest (-1) 0)
          ⟨.black, .transparent⟩) ∧
      0 ≤ Number.greatest (-1) 0 := by
  intro calls
  obtain ⟨size, recorded, nonneg, _⟩ := draws_what_is_chosen 100 50 calls
  obtain ⟨circle, made, drawnCircle⟩ :=
    recorded [.noFill] (.circle ⟨10, 10⟩ 5) [.resolution 30 (-1), .background .black] rfl rfl
  obtain ⟨background, covered, drawnBackground⟩ :=
    recorded [.noFill, .circle ⟨10, 10⟩ 5, .resolution 30 (-1)] (.background .black) [] rfl rfl
  cases made
  cases covered
  exact ⟨size, drawnCircle, drawnBackground,
    (nonneg (by decide) (by decide) [.noFill, .circle ⟨10, 10⟩ 5, .resolution 30 (-1)]
      [.background .black] rfl).2⟩

end EntityScript.Canvas
