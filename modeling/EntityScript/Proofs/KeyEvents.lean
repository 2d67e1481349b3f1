import EntityScript.Keyboard

/-!
Key events on their way.  Whoever shares the queue pushes events at any time; polling takes all
that wait and applies them one after the other, while more may be pushed.  Each event is applied
once, in the order of the pushes, and the held keys are those whose last applied event is a press.
-/

namespace EntityScript

namespace KeyEvent

def key : KeyEvent → String
  | down key | up key => key

/-- The last event of a key. -/
def latest (key : String) (events : List KeyEvent) : Option KeyEvent :=
  events.reverse.find? (·.key = key)

theorem latest_concat (key : String) (events : List KeyEvent) (event : KeyEvent) :
    latest key (events ++ [event]) = if event.key = key then some event else latest key events := by
  by_cases same : event.key = key <;> simp [latest, same]

end KeyEvent

namespace Keyboard

theorem mem_holdAfter {held : List String} {event : KeyEvent} {key : String} :
    key ∈ holdAfter held event ↔
      if event.key = key then event = .down key else key ∈ held := by
  cases event with
  | down pressed =>
      by_cases same : pressed = key
      · by_cases already : key ∈ held <;> simp [holdAfter, KeyEvent.key, same, already]
      · by_cases already : pressed ∈ held <;>
          simp [holdAfter, KeyEvent.key, same, already, Ne.symm same]
  | up released =>
      by_cases same : released = key
      · simp [holdAfter, KeyEvent.key, same]
      · simp [holdAfter, KeyEvent.key, same, Ne.symm same]

theorem isDown_congr {keyboard other : Keyboard} (same : keyboard.held = other.held)
    (key : String) : keyboard.isDown key = other.isDown key :=
  congrArg (fun held => decide (key ∈ held)) same

@[simp]
theorem isDown_push (keyboard : Keyboard) (event : KeyEvent) (key : String) :
    (keyboard.push event).isDown key = keyboard.isDown key := rfl

/-- What happens to a keyboard. -/
inductive Act where
  /-- One of those who share the queue pushes an event. -/
  | push (holder : Nat) (event : KeyEvent)
  /-- Polling takes all the waiting events. -/
  | take
  /-- Polling applies the next of the events that it has taken. -/
  | apply (event : KeyEvent)
  /-- A script asks whether a key is held. -/
  | ask (key : String) (answer : Bool)

namespace Act

def pushed? : Act → Option KeyEvent
  | push _ event => some event
  | _ => none

def applied? : Act → Option KeyEvent
  | apply event => some event
  | _ => none

def polls : Act → Bool
  | take | apply _ => true
  | push .. | ask .. => false

end Act

/-- A keyboard, and the events that polling has taken but not applied yet. -/
structure Intake where
  keyboard : Keyboard
  batch : List KeyEvent

/-- Polling begins when the last batch is applied, and scripts run between polls only; pushes come
at any time. -/
inductive Intake.Step : Intake → Act → Intake → Prop where
  | push {keyboard batch holder event} :
      Step ⟨keyboard, batch⟩ (.push holder event) ⟨keyboard.push event, batch⟩
  | take {keyboard} : keyboard.connected = true →
      Step ⟨keyboard, []⟩ .take ⟨{ keyboard with waiting := [] }, keyboard.waiting⟩
  | apply {keyboard event rest} :
      Step ⟨keyboard, event :: rest⟩ (.apply event) ⟨keyboard.apply event, rest⟩
  | ask {keyboard key} : Step ⟨keyboard, []⟩ (.ask key (keyboard.isDown key)) ⟨keyboard, []⟩

/-- One act after the other, the first in front. -/
inductive Intake.Runs : Intake → List Act → Intake → Prop where
  | nil {intake} : Runs intake [] intake
  | concat {first acts middle act last} :
      Runs first acts middle → Step middle act last → Runs first (acts ++ [act]) last

namespace Intake

/-- A keyboard with a queue, and no event pushed yet. -/
def initial : Intake := ⟨.idle true, []⟩

variable {first middle last : Intake} {acts more : List Act} {act : Act}

theorem Runs.single (step : Step first act last) : Runs first [act] last := .concat .nil step

theorem Runs.append (before : Runs first acts middle) (after : Runs middle more last) :
    Runs first (acts ++ more) last := by
  induction after with
  | nil =>
      rw [List.append_nil]
      exact before
  | concat _ step inductionHypothesis =>
      rw [← List.append_assoc]
      exact .concat inductionHypothesis step

theorem Runs.connected (runs : Runs first acts last) :
    last.keyboard.connected = first.keyboard.connected := by
  induction runs with
  | nil => rfl
  | concat _ step inductionHypothesis => cases step <;> exact inductionHypothesis

/-- What the acts have pushed and applied accounts for the batch, the queue and the held keys. -/
structure Accounts (acts : List Act) (intake : Intake) : Prop where
  ordered : acts.filterMap Act.applied? ++ intake.batch ++ intake.keyboard.waiting =
    acts.filterMap Act.pushed?
  held (key : String) : intake.keyboard.isDown key = true ↔
    KeyEvent.latest key (acts.filterMap Act.applied?) = some (.down key)

theorem accounts_initial : Accounts [] initial where
  ordered := rfl
  held key := by simp [initial, idle, isDown, KeyEvent.latest]

theorem Accounts.step (accounts : Accounts acts middle) (step : Step middle act last) :
    Accounts (acts ++ [act]) last := by
  have ⟨ordered, held⟩ := accounts
  cases step with
  | push =>
      constructor
      · simp [List.filterMap_cons, Act.applied?, Act.pushed?, ← ordered, Keyboard.push]
      · intro key
        simpa [List.filterMap_cons, Act.applied?] using held key
  | take =>
      constructor
      · simp [List.filterMap_cons, Act.applied?, Act.pushed?, ← ordered]
      · intro key
        simpa [List.filterMap_cons, Act.applied?, isDown] using held key
  | @apply keyboard event rest =>
      constructor
      · simp [List.filterMap_cons, Act.applied?, Act.pushed?, ← ordered, Keyboard.apply]
      · intro key
        have before := held key
        simp only [isDown, decide_eq_true_eq] at before
        simp only [Keyboard.apply, isDown, decide_eq_true_eq, mem_holdAfter, List.filterMap_append,
          List.filterMap_cons, List.filterMap_nil, Act.applied?, KeyEvent.latest_concat]
        by_cases same : event.key = key <;> simp [same, before]
  | ask =>
      constructor
      · simp [List.filterMap_cons, Act.applied?, Act.pushed?, ← ordered]
      · intro key
        simpa [List.filterMap_cons, Act.applied?] using held key

/-- At every point of a run the events applied, taken and waiting are those that were pushed. -/
theorem Runs.accounts (runs : Runs initial acts last) : Accounts acts last := by
  induction runs with
  | nil => exact accounts_initial
  | concat _ step inductionHypothesis => exact inductionHypothesis.step step

/-- However the same pushes are divided among polls, once all are applied the same keys are
held. -/
theorem held_of_same_pushes {other : Intake} (runs : Runs initial acts last)
    (others : Runs initial more other)
    (same : acts.filterMap Act.pushed? = more.filterMap Act.pushed?)
    (applied : last.batch = [] ∧ last.keyboard.waiting = [])
    (otherApplied : other.batch = [] ∧ other.keyboard.waiting = []) (key : String) :
    last.keyboard.isDown key = other.keyboard.isDown key := by
  have first := runs.accounts
  have second := others.accounts
  have ordered := first.ordered
  have otherOrdered := second.ordered
  rw [applied.1, applied.2, List.append_nil, List.append_nil, same] at ordered
  rw [otherApplied.1, otherApplied.2, List.append_nil, List.append_nil] at otherOrdered
  rw [Bool.eq_iff_iff, first.held, second.held, ordered, otherOrdered]

/-- Between polls the same keys stay held, whatever is pushed, and that is what is answered. -/
theorem Runs.between_polls (runs : Runs first acts last) (still : ∀ act ∈ acts, act.polls = false) :
    last.keyboard.held = first.keyboard.held ∧
      ∀ key answer, .ask key answer ∈ acts → answer = first.keyboard.isDown key := by
  induction runs with
  | nil => exact ⟨rfl, nofun⟩
  | concat _ step inductionHypothesis =>
      obtain ⟨same, answers⟩ := inductionHypothesis fun act member =>
        still act (List.mem_append_left _ member)
      have quiet := still _ (List.mem_append_right _ (List.mem_singleton_self _))
      cases step with
      | push =>
          refine ⟨same, fun key answer asked => answers key answer ?_⟩
          simpa using asked
      | take | apply => cases quiet
      | @ask keyboard asking =>
          refine ⟨same, fun key answer asked => ?_⟩
          rcases List.mem_append.mp asked with earlier | now
          · exact answers key answer earlier
          · obtain ⟨rfl, rfl⟩ := Act.ask.inj (List.mem_singleton.mp now)
            exact isDown_congr same key

theorem runs_apply (keyboard : Keyboard) (batch : List KeyEvent) :
    Runs ⟨keyboard, batch⟩ (batch.map .apply)
      ⟨{ keyboard with held := batch.foldl holdAfter keyboard.held }, []⟩ := by
  induction batch generalizing keyboard with
  | nil => exact .nil
  | cons event rest inductionHypothesis =>
      exact .append (.single .apply) (inductionHypothesis (keyboard.apply event))

/-- A poll takes what waits and applies it all. -/
theorem runs_poll {keyboard : Keyboard} (connected : keyboard.connected = true) :
    Runs ⟨keyboard, []⟩ (.take :: keyboard.waiting.map .apply) ⟨keyboard.poll, []⟩ := by
  have applied := runs_apply { keyboard with waiting := [] } keyboard.waiting
  rw [poll, if_pos connected]
  exact .append (.single (.take connected)) applied

end Intake

theorem waiting_poll {keyboard : Keyboard} (connected : keyboard.connected = true) :
    keyboard.poll.waiting = [] := by
  rw [poll, if_pos connected]

end Keyboard

end EntityScript
