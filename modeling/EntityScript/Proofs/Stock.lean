import EntityScript.Proofs.Operations

/-!
The code that a world has: its main body, the types that are installed and those that entities
were made with.  Scripts run no other code and add none to it, so what holds of all the code
that a host installs goes on holding of all that a world has.
-/

namespace EntityScript

open Script

theorem Bindings.mem_entries_of_get? {α : Type} {bindings : Bindings α} {name : String} {value : α}
    (found : bindings.get? name = some value) : (name, value) ∈ bindings.entries := by
  obtain ⟨entries⟩ := bindings
  unfold get? at found
  induction entries with
  | nil => cases found
  | cons entry rest inductionHypothesis =>
      obtain ⟨other, old⟩ := entry
      by_cases same : other = name
      · simp_all [find?]
      · simp_all [find?]

/-- What holds of all methods of a type holds of each that a call is answered with. -/
theorem EntityType.all_method {P : Method → Bool} {type : EntityType} {call : EntityCall}
    {method : Method} (tick : type.tick.all P = true) (render : type.render.all P = true)
    (handlers : type.handlers.entries.all (P ·.2) = true)
    (found : call.method? type = some method) : P method = true := by
  cases call with
  | tick delta => exact (Option.all_eq_true ..).mp tick method found
  | render => exact (Option.all_eq_true ..).mp render method found
  | handler event payload =>
      exact List.all_eq_true.mp handlers (event, method) (Bindings.mem_entries_of_get? found)

/-- What is asked of code. -/
structure Stock where
  body : List Stmt → Prop
  type : EntityType → Prop

variable {stock : Stock}

structure Program.Stocked (stock : Stock) (program : Program) : Prop where
  main : ∀ body ∈ program.main, stock.body body
  types : ∀ type ∈ program.types, stock.type type

/-- What the unit is translated to meets the demands; one that cannot be translated is never
installed. -/
def SourceUnit.Stocked (stock : Stock) (unit : SourceUnit) : Prop :=
  ∀ program, Program.ofText unit.name unit.text = .ok program → program.Stocked stock

/-- Whatever the operation installs meets the demands. -/
def Operation.Stocked (stock : Stock) : Operation → Prop
  | .install program => program.Stocked stock
  | .load unit => unit.Stocked stock
  | .loadAll items => ∀ unit, .ok unit ∈ items → unit.Stocked stock
  | _ => True

/-- All the code that the world has meets the demands. -/
structure World.Stocked (stock : Stock) (world : World) : Prop where
  main {entry} : world.main = some entry → stock.body entry.body
  types {name type} : world.types.get? name = some type → stock.type type
  entities {id type} : world.type? id = some type → stock.type type

namespace World.Stocked

variable {world after : World}

theorem congr (stocked : world.Stocked stock) (main : after.main = world.main)
    (types : after.types = world.types) (entities : after.type? = world.type?) :
    after.Stocked stock where
  main found := stocked.main (by rwa [main] at found)
  types found := stocked.types (by rwa [types] at found)
  entities found := stocked.entities (by rwa [entities] at found)

theorem slight : History.Preserves Slight (World.Stocked stock) := by
  intro world events after stocked slight
  have covers : History.CoversEvaluation fun world _ after =>
      after.main = world.main ∧ after.types = world.types ∧ after.type? = world.type? := by
    refine ⟨⟨⟨rfl, rfl, rfl⟩, ?_⟩, ⟨rfl, rfl, by simp⟩, ⟨rfl, rfl, rfl⟩, ⟨rfl, rfl, rfl⟩, ?_,
      ⟨rfl, rfl, rfl⟩⟩
    · intro _ _ _ _ _ first rest
      exact ⟨rest.1.trans first.1, rest.2.1.trans first.2.1, rest.2.2.trans first.2.2⟩
    · intro world ref entity found unmarked
      rw [world.type?_destroy, world.destroy_eq ref found unmarked]
      exact ⟨rfl, rfl, rfl⟩
  obtain ⟨main, types, entities⟩ := slight.covered covers
  exact stocked.congr main types entities

theorem make (stocked : world.Stocked stock) {type : EntityType} (fits : stock.type type) :
    (world.make type).Stocked stock where
  main := stocked.main
  types := stocked.types
  entities {id other} found := by
    simp only [World.type?, World.entity?, World.entities_make, Array.getElem?_push] at found
    split at found
    · obtain rfl : type = other := by simpa using found
      exact fits
    · exact stocked.entities found

theorem log (stocked : world.Stocked stock) (entry : LogEntry) : (world.log entry).Stocked stock :=
  stocked.congr rfl rfl rfl

theorem installType (stocked : world.Stocked stock) (unit : String) {type : EntityType}
    (fits : stock.type type) : (world.installType unit type).Stocked stock := by
  have noted : (if world.types.contains type.name then
      world.log (.typeRedefined unit type.name) else world).Stocked stock := by
    split
    · exact stocked.log _
    · exact stocked
  refine ⟨noted.main, ?_, noted.entities⟩
  intro name other found
  simp only [World.installType, Bindings.get?_insert] at found
  split at found
  · cases found
    exact fits
  · exact noted.types found

theorem installMain (stocked : world.Stocked stock) (unit : String) {body : List Stmt}
    (fits : stock.body body) : (world.installMain unit body).Stocked stock := by
  have replaced {noted : World} (stocked : noted.Stocked stock) :
      ({ noted with main := some ⟨unit, body⟩ } : World).Stocked stock := by
    refine ⟨?_, stocked.types, stocked.entities⟩
    intro entry replaced
    cases replaced
    exact fits
  unfold World.installMain
  dsimp only
  split
  · exact replaced (stocked.log _)
  · exact replaced stocked

theorem install (stocked : world.Stocked stock) {program : Program}
    (fits : program.Stocked stock) : (world.install program).Stocked stock := by
  have installed : ∀ (types : List EntityType) (world : World), world.Stocked stock →
      (∀ type ∈ types, stock.type type) →
      (types.foldl (·.installType program.name) world).Stocked stock := by
    intro types
    induction types with
    | nil => exact fun _ stocked _ => stocked
    | cons type rest inductionHypothesis =>
        intro world stocked fits
        obtain ⟨here, others⟩ := List.forall_mem_cons.mp fits
        exact inductionHypothesis _ (stocked.installType program.name here) others
  have types := installed program.types world stocked fits.types
  unfold World.install
  dsimp only
  split
  · exact types.installMain _ (fits.main _ ‹_›)
  · exact types

theorem load (stocked : world.Stocked stock) {unit : SourceUnit} (fits : unit.Stocked stock)
    {loaded : World} (load : world.load unit = .ok loaded) : loaded.Stocked stock := by
  unfold World.load at load
  cases translated : Program.ofText unit.name unit.text with
  | error diagnostic => simp [translated] at load
  | ok program =>
      simp only [translated] at load
      cases load
      exact (stocked.install (fits program translated)).log _

theorem loadFrom {items : List (Except SourceFailure SourceUnit)}
    (fits : ∀ unit, .ok unit ∈ items → unit.Stocked stock) (stocked : world.Stocked stock)
    (report : LoadReport) : (world.loadFrom report items).1.Stocked stock := by
  induction items generalizing world report with
  | nil => exact stocked
  | cons item rest inductionHypothesis =>
      have others : ∀ unit, .ok unit ∈ rest → unit.Stocked stock :=
        fun unit member => fits unit (List.mem_cons_of_mem _ member)
      cases item with
      | error failure => exact inductionHypothesis others (stocked.log _) _
      | ok unit =>
          unfold World.loadFrom
          cases load : world.load unit with
          | error problem =>
              simp only [load, Except.map]
              exact inductionHypothesis others (stocked.log _) _
          | ok loaded =>
              simp only [load, Except.map]
              exact inductionHypothesis others (stocked.load (fits unit (by simp)) load) _

theorem removeDestroyed (stocked : world.Stocked stock) : world.removeDestroyed.Stocked stock := by
  refine stocked.congr ?_ ?_ (by simp)
  all_goals
    simp only [World.removeDestroyed]
    split <;> rfl

theorem initial (settings : Settings) (hasKeys : Bool) :
    (World.initial settings hasKeys).Stocked stock where
  main := nofun
  types := nofun
  entities found := by simp [World.initial, World.type?, World.entity?] at found

end World.Stocked

end EntityScript
