import EntityScript.Proofs.Declarations
import EntityScript.World.Changes
import EntityScript.World.Loading

/-!
What loading units comes to: the programs of the units that are accepted are installed in order,
and nothing else happens to the world but notes in its journal.
-/

namespace EntityScript

namespace Bindings

variable {α : Type}

/-- Give several names values in order. -/
def insertAll (bindings : Bindings α) (entries : List (String × α)) : Bindings α :=
  entries.foldl (fun bindings entry => bindings.insert entry.1 entry.2) bindings

variable {bindings : Bindings α} {entries : List (String × α)} {name : String} {value : α}

theorem insertAll_append (bindings : Bindings α) (entries more : List (String × α)) :
    bindings.insertAll (entries ++ more) = (bindings.insertAll entries).insertAll more :=
  List.foldl_append

theorem get?_insertAll_of_not_mem (unnamed : name ∉ entries.map Prod.fst) :
    (bindings.insertAll entries).get? name = bindings.get? name := by
  induction entries generalizing bindings with
  | nil => rfl
  | cons entry rest inductionHypothesis =>
      rw [List.map_cons, List.mem_cons, not_or] at unnamed
      exact (inductionHypothesis unnamed.2).trans
        ((get?_insert _ _ _ _).trans (if_neg (Ne.symm unnamed.1)))

/-- The last value that a name is given is the one that it has. -/
theorem get?_insertAll_of_last {before later : List (String × α)}
    (last : name ∉ later.map Prod.fst) :
    (bindings.insertAll (before ++ (name, value) :: later)).get? name = some value := by
  rw [insertAll_append]
  change (insertAll (insert _ name value) later).get? name = some value
  rw [get?_insertAll_of_not_mem last, get?_insert, if_pos rfl]

/-- New names come behind the others, in the order in which they first come up. -/
theorem names_insertAll :
    (bindings.insertAll entries).names =
      bindings.names ++ ((entries.map Prod.fst).filter (· ∉ bindings.names)).eraseDups := by
  induction entries generalizing bindings with
  | nil => exact (List.append_nil _).symm
  | cons entry rest inductionHypothesis =>
      obtain ⟨name, value⟩ := entry
      change (insertAll (bindings.insert name value) rest).names = _
      rw [inductionHypothesis, names_insert]
      by_cases known : name ∈ bindings.names
      · simp [known]
      · simp only [if_neg known, List.map_cons, List.append_assoc]
        rw [List.filter_cons_of_pos (by simpa using known), List.eraseDups_cons, List.filter_filter]
        simp only [List.cons_append, List.nil_append, List.mem_append, List.mem_singleton, not_or,
          Bool.decide_and, Bool.and_comm, decide_not]
        rfl

end Bindings

/-- What a provider yields: a unit, or why its text could not be had. -/
abbrev Provided := Except SourceFailure SourceUnit

namespace Provided

def name : Provided → String
  | .error failure => failure.unit
  | .ok unit => unit.name

/-- The program of the unit, or why there is none. -/
def outcome : Provided → Except UnitError Program
  | .error failure => .error (.source failure)
  | .ok unit =>
      (Program.ofText unit.name unit.text).mapError (UnitError.ofDiagnostic unit.name unit.text)

theorem outcome_ok (unit : SourceUnit) :
    outcome (.ok unit) =
      (Program.ofText unit.name unit.text).mapError (UnitError.ofDiagnostic unit.name unit.text) :=
  rfl

def isAccepted (item : Provided) : Bool := item.outcome.isOk

def program? (item : Provided) : Option Program := item.outcome.toOption

def error? (item : Provided) : Option UnitError :=
  match item.outcome with
  | .error error => some error
  | .ok _ => none

theorem unit_of_outcome {item : Provided} {error : UnitError}
    (failed : item.outcome = .error error) : error.unit = item.name := by
  cases item with
  | error failure =>
      cases failed
      rfl
  | ok unit =>
      rw [outcome_ok] at failed
      cases read : Program.ofText unit.name unit.text with
      | error diagnostic =>
          rw [read] at failed
          cases failed
          rfl
      | ok program =>
          rw [read] at failed
          cases failed

theorem name_of_outcome {item : Provided} {program : Program}
    (accepted : item.outcome = .ok program) :
    program.name = item.name ∧ (program.types.map EntityType.name).Nodup := by
  cases item with
  | error failure => cases accepted
  | ok unit =>
      rw [outcome_ok] at accepted
      cases read : Program.ofText unit.name unit.text with
      | error diagnostic =>
          rw [read] at accepted
          cases accepted
      | ok program =>
          rw [read] at accepted
          cases accepted
          exact ⟨(Program.declared read).1, Program.names_apart read⟩

end Provided

/-- The programs of the accepted units among the items. -/
def programs (items : List Provided) : List Program := items.filterMap Provided.program?

/-- What the programs define, in order. -/
def definitions (programs : List Program) : List (String × EntityType) :=
  programs.flatMap fun program => program.types.map fun type => (type.name, type)

def Program.mainEntry? (program : Program) : Option MainEntry :=
  program.main.map fun body => ⟨program.name, body⟩

namespace World

/-- The world with nothing in its journal. -/
def silent (world : World) : World := { world with journal := #[] }

variable {world other : World}

theorem silent_log (world : World) (entry : LogEntry) :
    (world.log entry).silent = world.silent := rfl

theorem silent_installType (world : World) (unit : String) (type : EntityType) :
    (world.installType unit type).silent =
      { world.silent with types := world.types.insert type.name type } := by
  unfold installType
  split <;> rfl

theorem types_installType (world : World) (unit : String) (type : EntityType) :
    (world.installType unit type).types = world.types.insert type.name type := by
  unfold installType
  split <;> rfl

theorem silent_installTypes (world : World) (unit : String) (types : List EntityType) :
    (types.foldl (·.installType unit) world).silent =
      { world.silent with
        types := world.types.insertAll (types.map fun type => (type.name, type)) } := by
  induction types generalizing world with
  | nil => rfl
  | cons type rest inductionHypothesis =>
      rw [List.foldl_cons, inductionHypothesis, silent_installType, types_installType]
      rfl

theorem silent_installMain (world : World) (unit : String) (body : List Stmt) :
    (world.installMain unit body).silent = { world.silent with main := some ⟨unit, body⟩ } := by
  unfold installMain
  split <;> rfl

theorem silent_install (world : World) (program : Program) :
    (world.install program).silent =
      { world.silent with
        types := world.types.insertAll (program.types.map fun type => (type.name, type))
        main := program.mainEntry?.or world.main } := by
  have types := world.silent_installTypes program.name program.types
  obtain ⟨name, main, defined⟩ := program
  cases main with
  | none => exact types
  | some body =>
      refine (silent_installMain _ name body).trans ?_
      rw [types]
      rfl

/-- Apart from the journal it depends on the programs alone what comes of installing them. -/
theorem silent_installAll (world : World) (programs : List Program) :
    (programs.foldl install world).silent =
      { world.silent with
        types := world.types.insertAll (definitions programs)
        main := (programs.filterMap Program.mainEntry?).getLast?.or world.main } := by
  induction programs generalizing world with
  | nil => rfl
  | cons program rest inductionHypothesis =>
      have types : (world.install program).types =
          world.types.insertAll (program.types.map fun type => (type.name, type)) :=
        congrArg World.types (world.silent_install program)
      have main : (world.install program).main = program.mainEntry?.or world.main :=
        congrArg World.main (world.silent_install program)
      rw [List.foldl_cons, inductionHypothesis, silent_install, types, main]
      have split : definitions (program :: rest) =
          (program.types.map fun type => (type.name, type)) ++ definitions rest := rfl
      have last : (rest.filterMap Program.mainEntry?).getLast?.or
          (program.mainEntry?.or world.main) =
            ((program :: rest).filterMap Program.mainEntry?).getLast?.or world.main := by
        rw [List.filterMap_cons, ← Option.or_assoc]
        cases program.mainEntry? with
        | none => rw [Option.or_none]
        | some entry => simp [List.getLast?_cons]
      rw [last, split, Bindings.insertAll_append]

theorem silent_installAll_congr (same : world.silent = other.silent) (programs : List Program) :
    (programs.foldl install world).silent = (programs.foldl install other).silent := by
  have types : world.silent.types = other.silent.types := by rw [same]
  have main : world.silent.main = other.silent.main := by rw [same]
  change world.types = other.types at types
  change world.main = other.main at main
  rw [silent_installAll, silent_installAll, same, types, main]

/-- An item is installed, or it is noted that it is not. -/
theorem loadFrom_cons (world : World) (report : LoadReport) (item : Provided)
    (rest : List Provided) :
    world.loadFrom report (item :: rest) =
      match item.outcome with
      | .error error =>
          (world.log (.unitFailed error)).loadFrom
            { report with failed := report.failed ++ [error] } rest
      | .ok program =>
          ((world.install program).log
            (.unitLoaded item.name program.types.length program.main.isSome)).loadFrom
              { report with loaded := report.loaded ++ [item.name] } rest := by
  cases item with
  | error failure => rfl
  | ok unit =>
      rw [loadFrom, load, Provided.outcome_ok]
      cases Program.ofText unit.name unit.text <;> rfl

/-- The accepted items are installed in order and reported as loaded, the others are reported as
failed. -/
theorem loadFrom_outcomes (items : List Provided) (world : World) (report : LoadReport) :
    (world.loadFrom report items).1.silent = ((programs items).foldl install world).silent ∧
      (world.loadFrom report items).2 =
        ⟨report.loaded ++ (items.filter Provided.isAccepted).map Provided.name,
          report.failed ++ items.filterMap Provided.error?⟩ := by
  induction items generalizing world report with
  | nil => simp [loadFrom, programs]
  | cons item rest inductionHypothesis =>
      rw [loadFrom_cons]
      cases came : item.outcome with
      | error error =>
          obtain ⟨left, reported⟩ := inductionHypothesis (world.log (.unitFailed error))
            { report with failed := report.failed ++ [error] }
          have skipped : programs (item :: rest) = programs rest := by
            simp [programs, Provided.program?, came, Except.toOption]
          constructor
          · rw [skipped]
            exact left.trans (silent_installAll_congr (world.silent_log _) _)
          · simp [reported, Provided.isAccepted, Provided.error?, came, Except.isOk, Except.toBool]
      | ok program =>
          obtain ⟨left, reported⟩ := inductionHypothesis
            ((world.install program).log
              (.unitLoaded item.name program.types.length program.main.isSome))
            { report with loaded := report.loaded ++ [item.name] }
          have taken : programs (item :: rest) = program :: programs rest := by
            simp [programs, Provided.program?, came, Except.toOption]
          constructor
          · rw [taken, List.foldl_cons]
            exact left.trans (silent_installAll_congr (silent_log _ _) _)
          · simp [reported, Provided.isAccepted, Provided.error?, came, Except.isOk, Except.toBool]

end World

/-- Each item is either loaded or failed, and each failure names its unit. -/
theorem Provided.errors (items : List Provided) :
    (items.filterMap error?).map UnitError.unit = (items.filter (!·.isAccepted)).map name := by
  induction items with
  | nil => rfl
  | cons item rest inductionHypothesis =>
      cases came : item.outcome with
      | error error =>
          have failed : item.error? = some error := by simp [error?, came]
          have rejected : (!item.isAccepted) = true := by
            simp [isAccepted, came, Except.isOk, Except.toBool]
          rw [List.filterMap_cons_some failed, List.filter_cons, if_pos rejected, List.map_cons,
            List.map_cons, unit_of_outcome came, inductionHypothesis]
      | ok program =>
          have loaded : item.error? = none := by simp [error?, came]
          have accepted : ¬(!item.isAccepted) = true := by
            simp [isAccepted, came, Except.isOk, Except.toBool]
          rw [List.filterMap_cons_none loaded, List.filter_cons, if_neg accepted,
            inductionHypothesis]

theorem names_apart_of_mem {items : List Provided} {program : Program}
    (among : program ∈ programs items) : (program.types.map EntityType.name).Nodup := by
  obtain ⟨item, _, accepted⟩ := List.mem_filterMap.mp among
  cases came : item.outcome with
  | error error =>
      rw [Provided.program?, came] at accepted
      cases accepted
  | ok program =>
      rw [Provided.program?, came] at accepted
      cases accepted
      exact (Provided.name_of_outcome came).2

/-- What is loaded when items are loaded into a world. -/
structure Loading (world : World) (items : List Provided) (after : World) (report : LoadReport) :
    Prop where
  installed : after.silent = ((programs items).foldl World.install world).silent
  /-- Nothing else changes but the journal. -/
  others : after.silent = { world.silent with types := after.types, main := after.main }
  /-- The entities that there are keep the types that they were made with. -/
  type? : after.type? = world.type?
  /-- The last program that defines a type is the one that counts. -/
  defined : ∀ before program later, programs items = before ++ program :: later →
    ∀ type ∈ program.types, (∀ other ∈ later, type.name ∉ other.types.map EntityType.name) →
      after.types.get? type.name = some type
  kept : ∀ name, (∀ program ∈ programs items, name ∉ program.types.map EntityType.name) →
    after.types.get? name = world.types.get? name
  /-- Types that are new come last, in the order in which they are first defined. -/
  order : after.types.names = world.types.names ++
    (((programs items).flatMap (·.types.map EntityType.name)).filter
      (· ∉ world.types.names)).eraseDups
  main : after.main = ((programs items).filterMap Program.mainEntry?).getLast?.or world.main
  loaded : report.loaded = (items.filter Provided.isAccepted).map Provided.name
  failed : report.failed = items.filterMap Provided.error?
  errors : report.failed.map UnitError.unit =
    (items.filter (!·.isAccepted)).map Provided.name
  counted : report.loaded.length + report.failed.length = items.length

theorem definitions_names (programs : List Program) :
    (definitions programs).map Prod.fst = programs.flatMap (·.types.map EntityType.name) := by
  simp [definitions, List.map_flatMap, Function.comp_def]

/-- The definition of a type that no later program defines again is the last one of its name. -/
theorem exists_definitions_split (before : List Program) {later : List Program}
    {program : Program} {type : EntityType} (among : type ∈ program.types)
    (apart : (program.types.map EntityType.name).Nodup)
    (last : ∀ other ∈ later, type.name ∉ other.types.map EntityType.name) :
    ∃ front back, definitions (before ++ program :: later) = front ++ (type.name, type) :: back ∧
      type.name ∉ back.map Prod.fst := by
  obtain ⟨front, back, split⟩ := List.append_of_mem among
  rw [split, List.map_append, List.map_cons] at apart
  obtain ⟨_, apart, _⟩ := List.nodup_append.mp apart
  have alone := (List.nodup_cons.mp apart).1
  refine ⟨definitions before ++ front.map (fun type => (type.name, type)),
    back.map (fun type => (type.name, type)) ++ definitions later, ?_, ?_⟩
  · simp [definitions, split]
  · rw [List.map_append, List.mem_append, definitions_names, List.mem_flatMap, not_or]
    refine ⟨by simpa [Function.comp_def] using alone, ?_⟩
    rintro ⟨other, behind, again⟩
    exact last other behind again

theorem loading_installs_accepted_units (world : World) (items : List Provided) :
    Loading world items (world.loadAll items).1 (world.loadAll items).2 := by
  obtain ⟨installed, reported⟩ := world.loadFrom_outcomes items .empty
  change (world.loadAll items).1.silent = _ at installed
  change (world.loadAll items).2 = _ at reported
  generalize (world.loadAll items).1 = after at installed ⊢
  generalize (world.loadAll items).2 = report at reported ⊢
  have closed := installed.trans (world.silent_installAll (programs items))
  have types : after.types = world.types.insertAll (definitions (programs items)) :=
    congrArg World.types closed
  have main : after.main = ((programs items).filterMap Program.mainEntry?).getLast?.or world.main :=
    congrArg World.main closed
  have entities : after.silent.entities = world.entities := by rw [closed]; rfl
  have failures := Provided.errors items
  refine
    { installed
      others := by rw [closed, types, main]
      type? := World.type?_congr entities
      defined := ?defined
      kept := ?kept
      order := by rw [types, Bindings.names_insertAll, definitions_names]
      main
      loaded := by rw [reported]; rfl
      failed := by rw [reported]; rfl
      errors := by rw [reported]; exact failures
      counted := ?counted }
  case defined =>
    intro before program later split type among last
    have accepted : program ∈ programs items := by rw [split]; simp
    obtain ⟨front, back, entries, alone⟩ :=
      exists_definitions_split before among (names_apart_of_mem accepted) last
    rw [types, split, entries]
    exact Bindings.get?_insertAll_of_last alone
  case kept =>
    intro name undefined
    rw [types]
    apply Bindings.get?_insertAll_of_not_mem
    rw [definitions_names, List.mem_flatMap]
    rintro ⟨program, accepted, defined⟩
    exact undefined program accepted defined
  case counted =>
    have lengths := congrArg List.length failures
    rw [List.length_map, List.length_map] at lengths
    rw [reported]
    change ([] ++ _).length + ([] ++ _).length = _
    rw [List.nil_append, List.nil_append, List.length_map, lengths,
      ← List.length_eq_length_filter_add]

/-- The second unit is rejected for the last of its definitions, and leaves nothing. -/
example :
    let loading := (World.initial .default false).loadAll
      [.ok ⟨"a", "entity A end"⟩,
        .ok ⟨"b", "main -> end entity B end entity C render(x) -> end end"⟩,
        .error ⟨"c", "gone"⟩]
    loading.1.types.names = ["A"] ∧ loading.1.main.isNone = true ∧ loading.2.loaded = ["a"] ∧
      loading.2.failed.map UnitError.unit = ["b", "c"] := by
  decide +kernel

end EntityScript
