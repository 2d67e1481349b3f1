import EntityScript.Proofs.History
import EntityScript.Script.Members

/-!
How calls of library members and methods end.  A call that is refused has done nothing, and neither
has one that is answered; a call that changes something does so once and as the last thing, when
nothing can be refused any more.  What members refuse, answer and change is said here once, arm by
arm.
-/

namespace EntityScript

open Script

/-- How a call can end that starts no others. -/
inductive CallEnds (refuses : ScriptError → Prop) (answers : Value → Prop)
    (changes : World → World → Prop) (world : World) : Outcome World Value → Prop where
  | refused {error} (why : refuses error) :
      CallEnds refuses answers changes world (.raised error world)
  | answered {value} (answer : answers value) :
      CallEnds refuses answers changes world (.returned value world)
  | changed {after} (change : changes world after) :
      CallEnds refuses answers changes world (.returned .unset after)

namespace CallEnds

variable {α : Type} {refuses : ScriptError → Prop} {answers : Value → Prop}
  {changes : World → World → Prop} {world : World}

/-- What is tried first has no effect, so that only the rest can have one. -/
theorem tried {attempt : Attempt α} {next : α → Script World Value}
    (refused : ∀ error, attempt = .error error → refuses error)
    (rest : ∀ value, attempt = .ok value →
      CallEnds refuses answers changes world (next value world)) :
    CallEnds refuses answers changes world ((ofAttempt attempt >>= next) world) := by
  cases found : attempt with
  | ok value => exact rest value found
  | error error => exact .refused (refused error found)

theorem consulted {look : World → Attempt α} {next : α → Script World Value}
    (refused : ∀ error, look world = .error error → refuses error)
    (rest : ∀ value, look world = .ok value →
      CallEnds refuses answers changes world (next value world)) :
    CallEnds refuses answers changes world ((consult look >>= next) world) := by
  rw [bind_eq, consult]
  cases found : look world with
  | ok value => exact rest value found
  | error error => exact .refused (refused error found)

theorem left_eq {outcome : Outcome World Value} {error : ScriptError} {left : World}
    (ends : CallEnds refuses answers changes world outcome)
    (raised : outcome = .raised error left) : left = world := by
  cases ends <;> cases raised
  rfl

theorem refuses_of_raised {outcome : Outcome World Value} {error : ScriptError} {left : World}
    (ends : CallEnds refuses answers changes world outcome)
    (raised : outcome = .raised error left) : refuses error := by
  cases ends <;> cases raised
  assumption

theorem answers_of_returned {outcome : Outcome World Value} {value : Value} {after : World}
    (ends : CallEnds refuses answers changes world outcome)
    (returned : outcome = .returned value after) (something : value ≠ .unset) : answers value := by
  cases ends <;> cases returned
  · assumption
  · exact absurd rfl something

end CallEnds

theorem follows_of_ends {R : History} {refuses : ScriptError → Prop} {answers : Value → Prop}
    {changes : World → World → Prop} {script : Script World Value} (composes : R.Composes)
    (ends : ∀ world, CallEnds refuses answers changes world (script world))
    (links : ∀ world after, changes world after → R.Links world after) :
    Follows id R script := by
  intro world after left
  have ending := ends world
  cases ran : script world with
  | returned value last =>
      rw [ran] at ending left
      cases left
      cases ending with
      | answered => exact .refl composes world
      | changed change => exact links world _ change
  | raised error last =>
      rw [ran] at left
      cases left
      rw [(ends world).left_eq ran]
      exact .refl composes world
  | endless =>
      rw [ran] at left
      cases left

/-! ### Conversions -/

/-- The error is about the kind of a value. -/
def ScriptError.OfKinds : ScriptError → Prop
  | typeMismatch _ | unsetArithmetic => True
  | _ => False

section Conversions

variable {value : Value} {error : ScriptError}

theorem ofKinds_of_asNumber (failed : value.asNumber = .error error) : error.OfKinds := by
  cases value <;> cases failed <;> trivial

theorem ofKinds_of_asVector (failed : value.asVector = .error error) : error.OfKinds := by
  cases value <;> cases failed <;> trivial

theorem ofKinds_of_asColor (failed : value.asColor = .error error) : error.OfKinds := by
  cases value <;> cases failed <;> trivial

theorem ofKinds_of_asText (failed : value.asText = .error error) : error.OfKinds := by
  cases value <;> cases failed <;> trivial

theorem ofKinds_of_asImage (failed : value.asImage = .error error) : error.OfKinds := by
  cases value <;> cases failed <;> trivial

theorem asNumber_eq_ok {number : Float} :
    value.asNumber = .ok number ↔ value = .number number := by
  cases value <;> simp [Value.asNumber, Value.mismatch]

theorem asColor_eq_ok {color : Color} : value.asColor = .ok color ↔ value = .color color := by
  cases value <;> simp [Value.asColor, Value.mismatch]

end Conversions

section Arguments

variable {α : Type} {function : String} {arguments : List Value} {position : Nat}
  {convert : Value → Attempt α} {error : ScriptError}

/-- An argument that is converted is missing, or is of the wrong kind. -/
theorem converted_eq_error
    (failed : (argument function arguments position >>= convert) = .error error) :
    arguments.length ≤ position ∧
        error = .arityMismatch function (position + 1) arguments.length ∨
      ∃ value, convert value = .error error := by
  unfold argument at failed
  split at failed
  next value found => exact .inr ⟨value, failed⟩
  next missing =>
    cases failed
    exact .inl ⟨List.getElem?_eq_none_iff.mp missing, rfl⟩

theorem converted_eq_ok {result : α}
    (converted : (argument function arguments position >>= convert) = .ok result) :
    ∃ value, arguments[position]? = some value ∧ convert value = .ok result := by
  unfold argument at converted
  split at converted
  next value found => exact ⟨value, found, converted⟩
  next => cases converted

theorem numberArgument_eq_ok {number : Float} :
    numberArgument function arguments position = .ok number ↔
      arguments[position]? = some (.number number) := by
  constructor
  · intro converted
    obtain ⟨value, found, same⟩ := converted_eq_ok converted
    rw [found, asNumber_eq_ok.mp same]
  · intro found
    simp [numberArgument, argument, found, Value.asNumber, bind, Except.bind]

theorem mem_of_colorArgument {color : Color}
    (converted : colorArgument function arguments position = .ok color) :
    .color color ∈ arguments := by
  obtain ⟨value, found, same⟩ := converted_eq_ok converted
  rw [asColor_eq_ok] at same
  exact same ▸ List.mem_of_getElem? found

end Arguments

/-! ### Library members -/

/-- The number of arguments that a member cannot do without. -/
def Builtin.least (builtin : Builtin) : Nat :=
  match builtin.shape with
  | .function least _ => least
  | .property => 0

/-- Why members refuse calls. -/
inductive Builtin.Refuses (builtin : Builtin) (arguments : List Value) : ScriptError → Prop where
  | missing {position} (few : arguments.length ≤ position) (needed : position < builtin.least) :
      builtin.Refuses arguments (.arityMismatch builtin.name (position + 1) arguments.length)
  | mistaken {error} (kinds : error.OfKinds) : builtin.Refuses arguments error
  | colorless (text) : builtin.Refuses arguments (.invalidColor text)
  | imageless (name) : builtin.Refuses arguments (.unknownImage name)

/-- What members answer.  Colors are read from a text, or put together from channels, with an alpha
that may be left out. -/
inductive Builtin.Answers (builtin : Builtin) (arguments : List Value) : Value → Prop where
  | plain {value} (colorless : value.kind ≠ .color) : builtin.Answers arguments value
  | read {text color} (spelled : Color.ofHex? text = some color) :
      builtin.Answers arguments (.color color)
  | mixed (red green blue) {alpha} (member : builtin = .colorNew)
      (asked : arguments[3]?.getD (.number 1) = .number alpha) :
      builtin.Answers arguments (.color (.ofChannels red green blue alpha))

/-- A call that a script makes of its canvas. -/
inductive Canvas.Call where
  | fill (color : Color)
  | stroke (color : Color)
  | noFill
  | noStroke
  | background (color : Color)
  | resolution (width height : Float)
  | circle (centre : Vector) (radius : Float)
  | rectangle (corner : Vector) (width height : Float)
  | picture (image : Image) (centre : Vector)

def Canvas.Call.perform (canvas : Canvas) : Call → Canvas
  | fill color => canvas.setFill color
  | stroke color => canvas.setStroke color
  | noFill => canvas.setFill .transparent
  | noStroke => canvas.setStroke .transparent
  | background color => canvas.setBackground color
  | resolution width height => canvas.setResolution width height
  | circle centre radius => canvas.drawCircle centre radius
  | rectangle corner width height => canvas.drawRectangle corner width height
  | picture image centre => canvas.drawImage image centre

/-- If the call is made with a color, then it is one of the arguments. -/
def Canvas.Call.From (arguments : List Value) : Canvas.Call → Prop
  | fill color | stroke color | background color => .color color ∈ arguments
  | _ => True

/-- The canvas is called, and nothing else changes. -/
def World.Painted (arguments : List Value) (world after : World) : Prop :=
  ∃ call : Canvas.Call, call.From arguments ∧
    after = { world with canvas := call.perform world.canvas }

section Members

variable {builtin : Builtin} {arguments : List Value} {world : World} {position : Nat}

theorem Builtin.refuses_converted {α : Type} {convert : Value → Attempt α}
    (needed : position < builtin.least)
    (mistakes : ∀ {value error}, convert value = .error error → error.OfKinds) :
    ∀ error, (argument builtin.name arguments position >>= convert) = .error error →
      builtin.Refuses arguments error := by
  intro error failed
  rcases converted_eq_error failed with ⟨few, rfl⟩ | ⟨value, mistake⟩
  · exact .missing few needed
  · exact .mistaken (mistakes mistake)

variable (needed : position < builtin.least)

include needed

theorem Builtin.refuses_number :
    ∀ error, numberArgument builtin.name arguments position = .error error →
      builtin.Refuses arguments error :=
  refuses_converted needed ofKinds_of_asNumber

theorem Builtin.refuses_vector :
    ∀ error, vectorArgument builtin.name arguments position = .error error →
      builtin.Refuses arguments error :=
  refuses_converted needed ofKinds_of_asVector

theorem Builtin.refuses_color :
    ∀ error, colorArgument builtin.name arguments position = .error error →
      builtin.Refuses arguments error :=
  refuses_converted needed ofKinds_of_asColor

theorem Builtin.refuses_text :
    ∀ error, textArgument builtin.name arguments position = .error error →
      builtin.Refuses arguments error :=
  refuses_converted needed ofKinds_of_asText

theorem Builtin.refuses_argument :
    ∀ error, argument builtin.name arguments position = .error error →
      builtin.Refuses arguments error := by
  intro error failed
  unfold argument at failed
  split at failed <;> cases failed
  next missing => exact .missing (List.getElem?_eq_none_iff.mp missing) needed

omit needed

/-- How a call of a member ends. -/
abbrev Builtin.Ends (builtin : Builtin) (arguments : List Value) (world : World) :
    Outcome World Value → Prop :=
  CallEnds (builtin.Refuses arguments) (builtin.Answers arguments) (World.Painted arguments) world

theorem painted_ends (call : Canvas.Call) (given : call.From arguments) :
    builtin.Ends arguments world
      (.returned .unset { world with canvas := call.perform world.canvas }) :=
  .changed ⟨call, given, rfl⟩

theorem callColored_ends (make : Color → Canvas.Call) {change : Canvas → Color → Canvas}
    (performs : ∀ canvas color, (make color).perform canvas = change canvas color)
    (given : ∀ color, .color color ∈ arguments → (make color).From arguments)
    (needed : 0 < builtin.least) :
    builtin.Ends arguments world (callColored change builtin.name arguments world) := by
  apply CallEnds.tried (Builtin.refuses_color needed)
  intro color converted
  have painted : builtin.Ends arguments world (.returned .unset _) :=
    painted_ends (make color) (given color (mem_of_colorArgument converted))
  rwa [performs] at painted

theorem callUnary_ends (f : Float → Float) (needed : 0 < builtin.least) :
    builtin.Ends arguments world (callUnary f builtin.name arguments world) := by
  apply CallEnds.tried (Builtin.refuses_number needed)
  intro x _
  exact .answered (.plain nofun)

theorem callBinary_ends (f : Float → Float → Float) (needed : 1 < builtin.least) :
    builtin.Ends arguments world (callBinary f builtin.name arguments world) := by
  apply CallEnds.tried (Builtin.refuses_number (Nat.lt_of_succ_lt needed))
  intro x _
  apply CallEnds.tried (Builtin.refuses_number needed)
  intro y _
  exact .answered (.plain nofun)

end Members

/-- In each arm everything is converted before the canvas changes. -/
theorem callBuiltin_ends (builtin : Builtin) (arguments : List Value) (world : World) :
    builtin.Ends arguments world (callBuiltin builtin arguments world) := by
  cases builtin with
  | setResolution =>
      refine .tried (Builtin.refuses_number (by decide)) fun width _ => ?_
      refine .tried (Builtin.refuses_number (by decide)) fun height _ => ?_
      exact painted_ends (.resolution width height) trivial
  | width | height | vectorZero | pi => exact .answered (.plain nofun)
  | setBackground => exact callColored_ends .background (fun _ _ => rfl) (fun _ => id) (by decide)
  | fill => exact callColored_ends .fill (fun _ _ => rfl) (fun _ => id) (by decide)
  | stroke => exact callColored_ends .stroke (fun _ _ => rfl) (fun _ => id) (by decide)
  | noFill => exact painted_ends .noFill trivial
  | noStroke => exact painted_ends .noStroke trivial
  | drawCircle =>
      refine .tried (Builtin.refuses_vector (by decide)) fun centre _ => ?_
      refine .tried (Builtin.refuses_number (by decide)) fun radius _ => ?_
      exact painted_ends (.circle centre radius) trivial
  | drawRect =>
      refine .tried (Builtin.refuses_vector (by decide)) fun corner _ => ?_
      refine .tried (Builtin.refuses_number (by decide)) fun width _ => ?_
      refine .tried (Builtin.refuses_number (by decide)) fun height _ => ?_
      exact painted_ends (.rectangle corner width height) trivial
  | drawImage =>
      refine .tried (Builtin.refuses_argument (by decide)) fun given _ => ?_
      refine .tried (fun _ failed => .mistaken (ofKinds_of_asImage failed)) fun image _ => ?_
      refine .tried (Builtin.refuses_vector (by decide)) fun centre _ => ?_
      exact painted_ends (.picture image centre) trivial
  | image =>
      refine .tried (Builtin.refuses_text (by decide)) fun wanted _ => ?_
      refine .consulted (fun error failed => ?_) fun image _ => .answered (.plain nofun)
      unfold World.image at failed
      split at failed <;> cases failed
      exact .imageless wanted
  | getVector =>
      refine .tried (Builtin.refuses_text (by decide)) fun left _ => ?_
      refine .tried (Builtin.refuses_text (by decide)) fun right _ => ?_
      refine .tried (Builtin.refuses_text (by decide)) fun up _ => ?_
      refine .tried (Builtin.refuses_text (by decide)) fun down _ => ?_
      exact .answered (.plain nofun)
  | isDown =>
      refine .tried (Builtin.refuses_text (by decide)) fun key _ => ?_
      exact .answered (.plain nofun)
  | colorNew =>
      have mixed (alpha : Float) (asked : arguments[3]?.getD (.number 1) = .number alpha) :
          Builtin.colorNew.Ends arguments world ((do
            let red ← ofAttempt (numberArgument Builtin.colorNew.name arguments 0)
            let green ← ofAttempt (numberArgument Builtin.colorNew.name arguments 1)
            let blue ← ofAttempt (numberArgument Builtin.colorNew.name arguments 2)
            pure (.color (.ofChannels red green blue alpha)) : Script World Value) world) := by
        refine .tried (Builtin.refuses_number (by decide)) fun red _ => ?_
        refine .tried (Builtin.refuses_number (by decide)) fun green _ => ?_
        refine .tried (Builtin.refuses_number (by decide)) fun blue _ => ?_
        exact .answered (.mixed red green blue rfl asked)
      unfold callBuiltin
      dsimp only
      cases given : arguments[3]? with
      | none => exact mixed 1 (by rw [given]; rfl)
      | some value =>
          refine .tried (fun _ failed => .mistaken (ofKinds_of_asNumber failed))
            fun alpha asked => ?_
          exact mixed alpha (by rw [given]; exact asNumber_eq_ok.mp asked)
  | colorFromHex =>
      refine .tried (Builtin.refuses_text (by decide)) fun text _ => ?_
      cases spelled : Color.ofHex? text with
      | some color => exact .answered (.read spelled)
      | none => exact .refused (.colorless text)
  | vectorNew =>
      refine .tried (Builtin.refuses_number (by decide)) fun x _ => ?_
      refine .tried (Builtin.refuses_number (by decide)) fun y _ => ?_
      exact .answered (.plain nofun)
  | sin | cos | tan | sqrt | abs | floor | ceil | round => exact callUnary_ends _ (by decide)
  | min | max | atan2 => exact callBinary_ends _ (by decide)
  | clamp =>
      refine .tried (Builtin.refuses_number (by decide)) fun x _ => ?_
      refine .tried (Builtin.refuses_number (by decide)) fun low _ => ?_
      refine .tried (Builtin.refuses_number (by decide)) fun high _ => ?_
      exact .answered (.plain nofun)

/-! ### Methods -/

/-- Why methods refuse calls. -/
inductive MethodRefuses : ScriptError → Prop where
  | count (method expected given) : MethodRefuses (.arityMismatch method expected given)
  | mistaken {error} (kinds : error.OfKinds) : MethodRefuses error
  | unknown (target method) : MethodRefuses (.unknownMethod target method)

/-- What methods answer.  The only colors are those that are given an alpha. -/
inductive MethodAnswers (method : String) (arguments : List Value) : Value → Prop where
  | plain {value} (colorless : value.kind ≠ .color) : MethodAnswers method arguments value
  | tinted (color : Color) {alpha} (chosen : method = "withAlpha")
      (asked : arguments[0]? = some (.number alpha)) :
      MethodAnswers method arguments (.color (color.withAlpha alpha))

section Methods

variable {arguments : List Value} {world : World}

theorem refuses_of_requireCount {method : String} {count : Nat} :
    ∀ error, requireCount method arguments count = .error error → MethodRefuses error := by
  intro error failed
  unfold requireCount at failed
  split at failed <;> cases failed
  exact .count method count _

theorem methodRefuses_converted {α : Type} {convert : Value → Attempt α} {method : String}
    {position : Nat} (mistakes : ∀ {value error}, convert value = .error error → error.OfKinds) :
    ∀ error, (argument method arguments position >>= convert) = .error error →
      MethodRefuses error := by
  intro error failed
  rcases converted_eq_error failed with ⟨_, rfl⟩ | ⟨value, mistake⟩
  · exact .count ..
  · exact .mistaken (mistakes mistake)

/-- Only one method changes anything. -/
theorem callMethod_ends (target : Value) (method : String) (arguments : List Value)
    (world : World) :
    CallEnds MethodRefuses (MethodAnswers method arguments)
      (fun before after => ∃ ref, after = before.destroy ref) world
      (callMethod target method arguments world) := by
  have counted := @refuses_of_requireCount arguments
  unfold callMethod
  split
  · refine .tried counted fun _ _ => .tried (methodRefuses_converted ofKinds_of_asVector) ?_
    exact fun other _ => .answered (.plain nofun)
  · refine .tried counted fun _ _ => .tried (methodRefuses_converted ofKinds_of_asVector) ?_
    exact fun other _ => .answered (.plain nofun)
  · refine .tried counted fun _ _ => .tried (methodRefuses_converted ofKinds_of_asNumber) ?_
    exact fun factor _ => .answered (.plain nofun)
  · exact .tried counted fun _ _ => .answered (.plain nofun)
  · exact .tried counted fun _ _ => .answered (.plain nofun)
  · refine .tried counted fun _ _ => .tried (methodRefuses_converted ofKinds_of_asVector) ?_
    exact fun other _ => .answered (.plain nofun)
  · refine .tried counted fun _ _ => .tried (methodRefuses_converted ofKinds_of_asVector) ?_
    exact fun other _ => .answered (.plain nofun)
  · exact .tried counted fun _ _ => .answered (.plain nofun)
  · refine .tried counted fun _ _ => .tried (methodRefuses_converted ofKinds_of_asNumber) ?_
    exact fun alpha asked => .answered (.tinted _ rfl (numberArgument_eq_ok.mp asked))
  · exact .tried counted fun _ _ => .changed ⟨_, rfl⟩
  · exact .tried counted fun _ _ => .answered (.plain nofun)
  · exact .refused (.unknown ..)

end Methods

end EntityScript
