import EntityScript.Bindings
import EntityScript.Value

/-!
What a body runs in: the entity it belongs to, if any, and its scopes.
-/

namespace EntityScript

/-- The receiver and the scopes of a call.  There is always an innermost scope. -/
structure Frame where
  receiver : Option EntityRef
  innermost : Bindings Value
  /-- The scopes around the innermost one, from the inside out. -/
  outer : List (Bindings Value)
  deriving DecidableEq, Repr

namespace Frame

/-- A frame with one scope and no names. -/
def of (receiver : Option EntityRef) : Frame := ⟨receiver, .empty, []⟩

/-- The scopes from the inside out. -/
def scopes (frame : Frame) : List (Bindings Value) := frame.innermost :: frame.outer

def define (frame : Frame) (name : String) (value : Value) : Frame :=
  { frame with innermost := frame.innermost.insert name value }

def defineAll (frame : Frame) (definitions : List (String × Value)) : Frame :=
  definitions.foldl (fun frame (name, value) => frame.define name value) frame

/-- The value of a name in the innermost scope that has it. -/
def lookupIn (name : String) : List (Bindings Value) → Option Value
  | [] => none
  | scope :: rest => (scope.get? name).or (lookupIn name rest)

def lookup? (frame : Frame) (name : String) : Option Value := lookupIn name frame.scopes

/-- Change a name in the innermost scope that has it. -/
def assignIn (name : String) (value : Value) : List (Bindings Value) → List (Bindings Value)
  | [] => []
  | scope :: rest =>
      if scope.contains name then scope.insert name value :: rest
      else scope :: assignIn name value rest

def assign (frame : Frame) (name : String) (value : Value) : Frame :=
  if frame.innermost.contains name then frame.define name value
  else { frame with outer := assignIn name value frame.outer }

def push (frame : Frame) : Frame := ⟨frame.receiver, .empty, frame.innermost :: frame.outer⟩

/-- The frame around the innermost scope. -/
def pop (frame : Frame) : Frame :=
  match frame.outer with
  | [] => frame
  | scope :: rest => ⟨frame.receiver, scope, rest⟩

end Frame

/-- Parameters with the arguments they are bound to: a missing argument is unset, and one
too many is dropped. -/
def bindArguments : List String → List Value → List (String × Value)
  | [], _ => []
  | parameter :: parameters, [] => (parameter, .unset) :: bindArguments parameters []
  | parameter :: parameters, argument :: arguments =>
      (parameter, argument) :: bindArguments parameters arguments

/-- The frame in which a method of an entity runs. -/
def Frame.ofCall (receiver : EntityRef) (parameters : List String) (arguments : List Value) :
    Frame :=
  (Frame.of (some receiver)).defineAll (bindArguments parameters arguments)

@[simp]
theorem Frame.lookup?_define (frame : Frame) (name other : String) (value : Value) :
    (frame.define name value).lookup? other =
      if name = other then some value else frame.lookup? other := by
  simp only [lookup?, scopes, define, lookupIn, Bindings.get?_insert]
  split <;> simp

/-- Definitions that all give a name the same value leave it that value, or as it was if there
are none. -/
theorem Frame.lookup?_defineAll {frame : Frame} {definitions : List (String × Value)}
    {name : String} {value : Value}
    (agree : ∀ definition ∈ definitions, definition.1 = name → definition.2 = value) :
    (frame.defineAll definitions).lookup? name =
      if name ∈ definitions.map Prod.fst then some value else frame.lookup? name := by
  unfold defineAll
  induction definitions generalizing frame with
  | nil => rfl
  | cons definition rest inductionHypothesis =>
      obtain ⟨other, found⟩ := definition
      rw [List.foldl_cons, inductionHypothesis fun later member => agree later (by simp [member]),
        lookup?_define]
      by_cases same : other = name
      · have value : found = value := agree (other, found) (by simp) same
        simp [same, value]
      · simp only [if_neg same, List.map_cons, List.mem_cons, Ne.symm same, false_or]

theorem bindArguments_nil (parameters : List String) :
    bindArguments parameters [] = parameters.map (·, .unset) := by
  induction parameters with
  | nil => rfl
  | cons parameter rest inductionHypothesis => rw [bindArguments, inductionHypothesis, List.map]

theorem bindArguments_single (first : String) (others : List String) (argument : Value) :
    bindArguments (first :: others) [argument] = (first, argument) :: others.map (·, .unset) := by
  rw [bindArguments, bindArguments_nil]

/-- A single argument goes to the first parameter, and the others are unset. -/
theorem Frame.lookup?_ofCall_single (receiver : EntityRef) {first : String}
    {others : List String} (argument : Value) (apart : first ∉ others) :
    (Frame.ofCall receiver (first :: others) [argument]).lookup? first = some argument ∧
      ∀ other ∈ others,
        (Frame.ofCall receiver (first :: others) [argument]).lookup? other = some .unset := by
  unfold ofCall
  rw [bindArguments_single]
  have names : (others.map fun other => (other, Value.unset)).map Prod.fst = others := by
    simp [Function.comp_def]
  have unset : ∀ name, ∀ definition ∈ others.map fun other => (other, Value.unset),
      definition.1 = name → definition.2 = .unset := by
    simp
  constructor
  · change (((Frame.of (some receiver)).define first argument).defineAll _).lookup? first = _
    rw [lookup?_defineAll (unset first), names, if_neg apart, lookup?_define, if_pos rfl]
  · intro other member
    change (((Frame.of (some receiver)).define first argument).defineAll _).lookup? other = _
    rw [lookup?_defineAll (unset other), names, if_pos member]

namespace Frame

/-- The later frame is the frame with a new value in the innermost scope that has the name. -/
def Rebinds (frame : Frame) (name : String) (old new : Value) (later : Frame) : Prop :=
  ∃ inner scope outer, frame.scopes = inner ++ scope :: outer ∧
    (∀ nearer ∈ inner, nearer.get? name = none) ∧ scope.get? name = some old ∧
    later.scopes = inner ++ scope.insert name new :: outer ∧ later.receiver = frame.receiver

variable {frame later : Frame} {name : String} {old : Value}

theorem scopes_assign (frame : Frame) (name : String) (new : Value) :
    (frame.assign name new).scopes = assignIn name new frame.scopes := by
  unfold assign
  by_cases here : frame.innermost.contains name = true
  · simp [here, scopes, assignIn, define]
  · simp [here, scopes, assignIn]

theorem receiver_assign (frame : Frame) (name : String) (new : Value) :
    (frame.assign name new).receiver = frame.receiver := by
  unfold assign
  split <;> rfl

theorem exists_innermost {scopes : List (Bindings Value)}
    (found : lookupIn name scopes = some old) :
    ∃ inner scope outer, scopes = inner ++ scope :: outer ∧
      (∀ nearer ∈ inner, nearer.get? name = none) ∧ scope.get? name = some old ∧
      ∀ new, assignIn name new scopes = inner ++ scope.insert name new :: outer := by
  induction scopes with
  | nil => cases found
  | cons scope rest inductionHypothesis =>
      rw [lookupIn] at found
      cases here : scope.get? name with
      | some value =>
          rw [here, Option.some_or] at found
          cases found
          refine ⟨[], scope, rest, rfl, nofun, here, fun new => ?_⟩
          simp [assignIn, Bindings.contains, here]
      | none =>
          rw [here, Option.none_or] at found
          obtain ⟨inner, holder, outer, rfl, apart, held, assigns⟩ := inductionHypothesis found
          refine ⟨scope :: inner, holder, outer, rfl, ?_, held, fun new => ?_⟩
          · exact List.forall_mem_cons.mpr ⟨here, apart⟩
          · simp [assignIn, Bindings.contains, here, assigns]

theorem rebinds_assign (found : frame.lookup? name = some old) (new : Value) :
    frame.Rebinds name old new (frame.assign name new) := by
  obtain ⟨inner, scope, outer, split, apart, held, assigns⟩ := exists_innermost found
  exact ⟨inner, scope, outer, split, apart, held, by rw [scopes_assign, assigns],
    frame.receiver_assign name new⟩

theorem eq_of_scopes (received : later.receiver = frame.receiver)
    (nested : later.scopes = frame.scopes) : later = frame := by
  obtain ⟨receiver, innermost, outer⟩ := frame
  obtain ⟨receiver', innermost', outer'⟩ := later
  obtain ⟨rfl, rfl⟩ := List.cons.inj nested
  cases received
  rfl

/-- To give a local the value it has does nothing. -/
theorem assign_eq_self (found : frame.lookup? name = some old) :
    frame.assign name old = frame := by
  obtain ⟨inner, scope, outer, split, _, held, assigned, received⟩ := rebinds_assign found old
  apply eq_of_scopes received
  rw [assigned, Bindings.insert_eq_self held, split]

end Frame

end EntityScript
