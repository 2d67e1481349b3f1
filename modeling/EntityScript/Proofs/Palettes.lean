import EntityScript.Proofs.Drawing
import EntityScript.Proofs.Fields
import EntityScript.Proofs.Upholding

/-!
Palettes.  A palette is a set of colors that is closed under the ways in which scripts make colors.
Values, frames, canvases and worlds are within it if all their colors are, and what library members,
methods, operators and writes do to them stays within it.
-/

namespace EntityScript

open Script

/-- A set of colors. -/
abbrev Palette := Color → Prop

/-- Scripts make colors of the palette only. -/
structure Palette.Closed (palette : Palette) : Prop where
  black : palette .black
  transparent : palette .transparent
  ofHex {text : String} {color : Color} : Color.ofHex? text = some color → palette color
  ofChannels (red green blue alpha : Float) : palette (.ofChannels red green blue alpha)
  withAlpha {color : Color} (alpha : Float) : palette (color.withAlpha alpha)

section Within

variable (palette : Palette)

def Value.Within : Value → Prop
  | .color tint => palette tint
  | _ => True

def Bindings.Within (bindings : Bindings Value) : Prop :=
  ∀ entry ∈ bindings.entries, entry.2.Within palette

def Frame.Within (frame : Frame) : Prop := ∀ scope ∈ frame.scopes, scope.Within palette

def EntityCall.Within (call : EntityCall) : Prop := ∀ value ∈ call.arguments, value.Within palette

def Paint.Within (paint : Paint) : Prop := palette paint.fill ∧ palette paint.stroke

def DrawCommand.Within : DrawCommand → Prop
  | .rectangle _ _ _ _ paint | .circle _ _ _ paint => paint.Within palette
  | .resize .. | .image .. => True

structure Canvas.Within (canvas : Canvas) : Prop where
  paint : canvas.paint.Within palette
  commands : ∀ command ∈ canvas.commands.toList, command.Within palette

structure World.Within (world : World) : Prop where
  fields (id : EntityId) : (world.fields id).Within palette
  canvas : world.canvas.Within palette

structure Activation.Within (activation : Activation) : Prop where
  frame : activation.frame.Within palette
  world : activation.world.Within palette

def Canvas.Call.Within : Canvas.Call → Prop
  | .fill tint | .stroke tint | .background tint => palette tint
  | _ => True

end Within

variable {palette : Palette}

section Names

variable {bindings : Bindings Value} {name : String} {value : Value}

theorem Bindings.within_empty : (Bindings.empty : Bindings Value).Within palette := nofun

theorem Bindings.mem_of_find? {α : Type} {entries : List (String × α)} {value : α}
    (found : Bindings.find? name entries = some value) : (name, value) ∈ entries := by
  induction entries with
  | nil => cases found
  | cons entry rest inductionHypothesis =>
      obtain ⟨other, held⟩ := entry
      unfold Bindings.find? at found
      split at found
      next same =>
        cases found
        simp [same]
      next => exact List.mem_cons_of_mem _ (inductionHypothesis found)

theorem Bindings.Within.get? (within : bindings.Within palette)
    (found : bindings.get? name = some value) : value.Within palette :=
  within _ (Bindings.mem_of_find? found)

theorem Bindings.Within.insert (within : bindings.Within palette) (good : value.Within palette) :
    (bindings.insert name value).Within palette := by
  obtain ⟨entries⟩ := bindings
  unfold Bindings.Within Bindings.insert at *
  dsimp only at *
  induction entries with
  | nil => simpa [Bindings.insertEntry] using good
  | cons entry rest inductionHypothesis =>
      obtain ⟨here, others⟩ := List.forall_mem_cons.mp within
      unfold Bindings.insertEntry
      split
      · exact List.forall_mem_cons.mpr ⟨good, others⟩
      · exact List.forall_mem_cons.mpr ⟨here, inductionHypothesis others⟩

end Names

namespace Frame

variable {frame : Frame} {name : String} {value : Value}

theorem within_of (receiver : Option EntityRef) : (Frame.of receiver).Within palette := by
  simp [Within, of, scopes, Bindings.within_empty]

theorem Within.lookup (within : frame.Within palette) (name : String) :
    Yields (Value.Within palette) (frame.lookup name) := by
  have found {scopes : List (Bindings Value)} (good : ∀ scope ∈ scopes, scope.Within palette)
      {value : Value} (here : lookupIn name scopes = some value) : value.Within palette := by
    induction scopes with
    | nil => cases here
    | cons scope rest inductionHypothesis =>
        obtain ⟨innermost, others⟩ := List.forall_mem_cons.mp good
        rcases Option.or_eq_some_iff.mp here with near | ⟨_, far⟩
        · exact innermost.get? near
        · exact inductionHypothesis others far
  unfold Frame.lookup
  split
  next value here => exact yields_ok.mpr (found within here)
  next => exact yields_error

theorem yields_this (frame : Frame) : Yields (Value.Within palette) frame.this := by
  unfold Frame.this
  split
  · exact yields_ok.mpr trivial
  · exact yields_error

theorem Within.root (within : frame.Within palette) (root : PlaceRoot) :
    Yields (Value.Within palette) (frame.root root) := by
  cases root with
  | ident name => exact within.lookup name
  | this => exact frame.yields_this

theorem Within.define (within : frame.Within palette) (name : String)
    (good : value.Within palette) : (frame.define name value).Within palette := by
  obtain ⟨innermost, outer⟩ := List.forall_mem_cons.mp within
  exact List.forall_mem_cons.mpr ⟨innermost.insert good, outer⟩

theorem Within.assign (within : frame.Within palette) (name : String)
    (good : value.Within palette) : (frame.assign name value).Within palette := by
  have assigned {scopes : List (Bindings Value)} (all : ∀ scope ∈ scopes, scope.Within palette) :
      ∀ scope ∈ assignIn name value scopes, scope.Within palette := by
    induction scopes with
    | nil => exact all
    | cons scope rest inductionHypothesis =>
        obtain ⟨here, others⟩ := List.forall_mem_cons.mp all
        unfold assignIn
        split
        · exact List.forall_mem_cons.mpr ⟨here.insert good, others⟩
        · exact List.forall_mem_cons.mpr ⟨here, inductionHypothesis others⟩
  unfold Within
  rw [scopes_assign]
  exact assigned within

theorem Within.push (within : frame.Within palette) : frame.push.Within palette :=
  List.forall_mem_cons.mpr ⟨Bindings.within_empty, within⟩

theorem Within.pop (within : frame.Within palette) : frame.pop.Within palette := by
  obtain ⟨receiver, innermost, outer⟩ := frame
  cases outer with
  | nil => exact within
  | cons scope rest => exact (List.forall_mem_cons.mp within).2

theorem within_ofCall (receiver : EntityRef) (parameters : List String) {arguments : List Value}
    (good : ∀ value ∈ arguments, value.Within palette) :
    (Frame.ofCall receiver parameters arguments).Within palette := by
  have bound : ∀ definition ∈ bindArguments parameters arguments,
      definition.2.Within palette := by
    induction parameters generalizing arguments with
    | nil => nofun
    | cons parameter rest inductionHypothesis =>
        cases arguments with
        | nil => exact List.forall_mem_cons.mpr ⟨trivial, inductionHypothesis nofun⟩
        | cons argument others =>
            obtain ⟨here, more⟩ := List.forall_mem_cons.mp good
            exact List.forall_mem_cons.mpr ⟨here, inductionHypothesis more⟩
  have defined {definitions : List (String × Value)} {frame : Frame}
      (within : frame.Within palette)
      (all : ∀ definition ∈ definitions, definition.2.Within palette) :
      (frame.defineAll definitions).Within palette := by
    induction definitions generalizing frame with
    | nil => exact within
    | cons definition rest inductionHypothesis =>
        obtain ⟨here, others⟩ := List.forall_mem_cons.mp all
        exact inductionHypothesis (within.define definition.1 here) others
  exact defined (within_of _) bound

end Frame

namespace Canvas

theorem within_ofSize (closed : palette.Closed) (width height : Float) :
    (Canvas.ofSize width height).Within palette where
  paint := ⟨closed.black, closed.black⟩
  commands := nofun

theorem Call.within_perform (closed : palette.Closed) {canvas : Canvas} {call : Call}
    (within : canvas.Within palette) (good : call.Within palette) :
    (call.perform canvas).Within palette := by
  constructor
  · rw [perform_paint]
    have ⟨filled, stroked⟩ := within.paint
    cases call with
    | fill => exact ⟨good, stroked⟩
    | stroke => exact ⟨filled, good⟩
    | noFill => exact ⟨closed.transparent, stroked⟩
    | noStroke => exact ⟨filled, closed.transparent⟩
    | _ => exact ⟨filled, stroked⟩
  · rw [perform_commands]
    refine List.forall_mem_append.mpr ⟨within.commands, fun command member => ?_⟩
    rw [Option.mem_toList] at member
    cases call with
    | background =>
        cases member
        exact ⟨good, closed.transparent⟩
    | circle | rectangle =>
        cases member
        exact within.paint
    | resolution | picture =>
        cases member
        trivial
    | fill | stroke | noFill | noStroke => cases member

end Canvas

section Members

variable {value left right : Value} {arguments : List Value}

/-- A value that is left out is unset. -/
theorem Value.within_getD (good : ∀ value ∈ arguments, value.Within palette) (position : Nat) :
    (arguments[position]?.getD .unset).Within palette := by
  cases given : arguments[position]? with
  | none => trivial
  | some value => exact good value (List.mem_of_getElem? given)

/-- No operator makes a color. -/
theorem Value.within_of_combine? {op : BinaryOp} (combined : combine? op left right = some value) :
    value.Within palette := by
  unfold combine? at combined
  split at combined <;> cases combined <;> trivial

theorem Value.yields_binary (first : left.Within palette) (second : right.Within palette)
    (op : BinaryOp) : Yields (Value.Within palette) (Value.binary op left right) := by
  unfold Value.binary
  split
  · exact yields_ok.mpr trivial
  · exact yields_ok.mpr trivial
  · exact yields_ok.mpr (by split <;> assumption)
  · exact yields_ok.mpr (by split <;> assumption)
  · split
    · exact yields_error
    · split
      next combined => exact yields_ok.mpr (within_of_combine? combined)
      next => exact yields_error

theorem Value.yields_unary (operand : Value) (op : UnaryOp) :
    Yields (Value.Within palette) (Value.unary op operand) := by
  unfold Value.unary
  split
  · exact yields_ok.mpr trivial
  · split
    · exact yields_ok.mpr trivial
    · exact yields_ok.mpr trivial
    · exact yields_error
    · exact yields_error

theorem Value.within_of_colorless (colorless : value.kind ≠ .color) : value.Within palette := by
  cases value with
  | color => exact absurd rfl colorless
  | _ => trivial

/-- The members that make colors are two.  One asks for an alpha, which may be left out. -/
theorem Builtin.Answers.within {builtin : Builtin}
    (ofHex : ∀ text color, Color.ofHex? text = some color → palette color)
    (ofChannels : builtin = .colorNew → ∀ red green blue alpha,
      arguments[3]?.getD (.number 1) = .number alpha → palette (.ofChannels red green blue alpha))
    (answers : builtin.Answers arguments value) : value.Within palette := by
  cases answers with
  | plain colorless => exact Value.within_of_colorless colorless
  | read spelled => exact ofHex _ _ spelled
  | mixed red green blue member asked => exact ofChannels member red green blue _ asked

/-- Only one method makes colors. -/
theorem MethodAnswers.within {method : String}
    (withAlpha : method = "withAlpha" → ∀ (tint : Color) alpha,
      arguments[0]? = some (.number alpha) → palette (tint.withAlpha alpha))
    (answers : MethodAnswers method arguments value) : value.Within palette := by
  cases answers with
  | plain colorless => exact Value.within_of_colorless colorless
  | tinted tint chosen asked => exact withAlpha chosen tint _ asked

theorem Canvas.Call.within_of_from (good : ∀ value ∈ arguments, value.Within palette)
    {call : Canvas.Call} (given : call.From arguments) : call.Within palette := by
  cases call with
  | fill | stroke | background => exact good _ given
  | _ => trivial

end Members

end EntityScript
