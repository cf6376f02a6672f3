/-
**Two commands on one document.**

Validation and the report on health each read the document, parse it and look at it for themselves.
Both read the same text, and what they find in it never contradicts.

Main definitions:

* `CommandLine.documentText` — the text that a command on a document reads;
* `CommandLine.Judges` — a command reads a document, and whether it has issues is up to the text.

Main results:

* `CommandLine.Judges.exitCode_iff` — such a command ends with the code for issues just if the text
  is read and has issues;
* `CommandLine.health_agrees_with_validation` — **what a report on a text says, and that health
  finds issues where validation does**.
-/

import JsonShelf.CommandLine.Program
import JsonShelf.Files.FileSystem
import JsonShelf.Proofs.Computation
import JsonShelf.Proofs.Validation.Reasons

set_option autoImplicit false

namespace JsonShelf.CommandLine

open Files (FileScript)

variable {store : DirectoryStore} {path : DocPath} {α β : Type}

/-- The text of a document, as any command on it reads it with these options. -/
def documentText (dir : Option String) (config : String) (path : DocPath) : Task String := do
  let (settings, root) ← locate ⟨dir, config, .show path.text false⟩
  match openStore settings root with
  | .error e => throw (("open data directory " ++ root) :: e.chain)
  | .ok store => onStore store (Shelf.readText path)

/-- The command reads the document, and the text alone tells whether it finds issues. -/
def Judges (path : DocPath) (verdict : String → Bool) (command : Command) : Prop :=
  ∃ answer : String → Answer, (∀ text, (answer text).hasIssues = verdict text) ∧
    ∀ settings root store, carryOut settings root store command =
      answer <$> onStore store (Shelf.readText path)

/-! ### Parts of a command -/

theorem onStore_map (f : α → β) (useCase : UseCase α) :
    onStore store (f <$> useCase) = f <$> onStore store useCase := by
  have hresult : ∀ result : Except ShelfError α,
      (result.map f).mapError ShelfError.chain = (result.mapError ShelfError.chain).map f := by
    intro result
    cases result <;> rfl
  refine ExceptT.ext ?_
  rw [ExceptT.run_map, onStore, onStore, ExceptT.run_mk, ExceptT.run_mk, ExceptT.run_map,
    DirectoryStore.interpret, DirectoryStore.interpret, Script.interpret_map]
  simp only [bind_pure_comp, Functor.map_map, hresult]

theorem judges_validate (file : String) (asJson : Bool) :
    Judges (.ofArgument file) (fun text => !(validateText text).valid) (.validate file asJson) := by
  refine ⟨fun text => ⟨if asJson then (validateText text).toJson.pretty ++ "\n"
    else Report.validation (.ofArgument file) (validateText text), !(validateText text).valid⟩,
    fun _ => rfl, ?_⟩
  intro settings root store
  have hread : Shelf.validate (.ofArgument file) =
      validateText <$> Shelf.readText (.ofArgument file) := by
    rw [Shelf.validate, bind_pure_comp]
  rw [carryOut, hread, onStore_map]
  simp only [bind_pure_comp, Functor.map_map]

theorem judges_health (file : String) (format : Format) :
    Judges (.ofArgument file) (fun text => (HealthReport.ofText text).hasIssues)
      (.health (some file) format) := by
  have hread : Shelf.health (.ofArgument file) =
      HealthReport.ofText <$> Shelf.readText (.ofArgument file) := by
    rw [Shelf.health, bind_pure_comp]
  -- the formats differ in the wording alone
  have hwording : ∀ wording : List (DocPath × HealthReport) → String,
      (∀ settings root store, carryOut settings root store (.health (some file) format) =
        (fun text => ⟨wording [(.ofArgument file, .ofText text)],
          (HealthReport.ofText text).hasIssues⟩) <$>
            onStore store (Shelf.readText (.ofArgument file))) →
      Judges (.ofArgument file) (fun text => (HealthReport.ofText text).hasIssues)
        (.health (some file) format) :=
    fun _ hcarryOut => ⟨_, fun _ => rfl, hcarryOut⟩
  cases format with
  | text =>
      refine hwording Report.health ?_
      intro settings root store
      simp [carryOut, reportHealth, hread, onStore_map]
  | json =>
      refine hwording (fun reports => (Answer.json (healthJson reports)).stdout) ?_
      intro settings root store
      simp [carryOut, reportHealth, hread, onStore_map]
  | markdown =>
      refine hwording Report.Markdown.health ?_
      intro settings root store
      simp [carryOut, reportHealth, hread, onStore_map]

/-! ### Exit codes -/

/-- Such a command ends with the code for issues just if the text is read and has issues. -/
theorem Judges.exitCode_iff {verdict : String → Bool} {command : Command} {σ : Type}
    (h : Judges path verdict command) (dir : Option String) (config : String)
    (handle : (c : Files.Call) → σ → c.Reply × σ) (state : σ) :
    (outcomeOf (Script.run handle (invoke ⟨dir, config, command⟩).run state).1).exitCode = 2 ↔
      ∃ text, (Script.run handle (documentText dir config path).run state).1 = .ok text ∧
        verdict text = true := by
  obtain ⟨answer, hissues, hcarryOut⟩ := h
  have hinvoke : invoke ⟨dir, config, command⟩ = answer <$> documentText dir config path := by
    have hlocate : locate ⟨dir, config, .show path.text false⟩ = locate ⟨dir, config, command⟩ :=
      rfl
    rw [invoke, documentText, hlocate, map_bind]
    refine bind_congr fun (settings, root) => ?_
    dsimp only
    cases openStore settings root with
    | error e => rfl
    | ok store => exact hcarryOut settings root store
  rw [hinvoke, ExceptT.run_map, Script.run_map]
  cases (Script.run handle (documentText dir config path).run state).1 with
  | ok text => simp [outcomeOf, Except.map, hissues]
  | error causes => simp [outcomeOf, Except.map]

/-- A program that is asked for something ends as the command does. -/
theorem run_of_parse {arguments : List String} {invocation : Invocation} {σ : Type}
    (h : parse arguments = .ok invocation) (handle : (c : Files.Call) → σ → c.Reply × σ)
    (state : σ) :
    (Script.run handle (run arguments) state).1 =
      outcomeOf (Script.run handle (invoke invocation).run state).1 := by
  rw [run, h]
  dsimp only
  rw [bind_pure_comp, Script.run_map]

/-- **What a report on a text says is what validation says, and what is said of the structure**;
there are issues just if there are suggestions; and where validation of a document ends with the
code for issues, the report on its health does so, however the system replies. -/
theorem health_agrees_with_validation :
    (∀ text,
      (HealthReport.ofText text).issues = (validateText text).errors.map Issue.dotted ++
        (match Json.parse text with
        | .ok value =>
          (if 10 < value.depth then ["JSON structure is very deeply nested (>10 levels)"]
            else []) ++
            (if value.items?.any (1000 < ·.length) then ["Large array detected (>1000 items)"]
              else [])
        | .error _ => []) ∧
      (HealthReport.ofText text).suggestions =
        (match Json.parse text with
        | .ok value =>
          (if (validateText text).valid then []
            else ["Normalize records so every element shares the same fields and types"]) ++
          ((if 10 < value.depth then ["Consider flattening the structure for better performance"]
              else []) ++
            (if value.items?.any (1000 < ·.length) then
              ["Consider paginating or splitting into multiple files"] else []))
        | .error _ => ["Fix the JSON syntax before editing this file"]) ∧
      ((validateText text).valid = true ↔ (validateText text).errors = []) ∧
      ((HealthReport.ofText text).hasIssues = true ↔ (HealthReport.ofText text).issues ≠ []) ∧
      ((HealthReport.ofText text).hasIssues = true ↔ (HealthReport.ofText text).suggestions ≠ [])) ∧
    ∀ (σ : Type) (handle : (c : Files.Call) → σ → c.Reply × σ) (state : σ) (dir : Option String)
      (config file : String) (asJson : Bool) (format : Format) (arguments arguments' : List String),
      parse arguments = .ok ⟨dir, config, .validate file asJson⟩ →
      parse arguments' = .ok ⟨dir, config, .health (some file) format⟩ →
      (Script.run handle (run arguments) state).1.exitCode = 2 →
      (Script.run handle (run arguments') state).1.exitCode = 2 := by
  constructor
  · intro text
    obtain ⟨hissues, hsuggestions⟩ := HealthReport.hasIssues_ofText_iff text
    refine ⟨?_, ?_, valid_validateText_iff text, hissues, hsuggestions⟩
    · refine (HealthReport.issues_ofText text).trans ?_
      cases Json.parse text <;> rfl
    · refine (HealthReport.suggestions_ofText text).trans ?_
      cases Json.parse text <;> rfl
  · intro σ handle state dir config file asJson format arguments arguments' hvalidate hhealth hcode
    rw [run_of_parse hvalidate, (judges_validate file asJson).exitCode_iff dir config] at hcode
    obtain ⟨text, hread, hinvalid⟩ := hcode
    rw [run_of_parse hhealth, (judges_health file format).exitCode_iff dir config]
    refine ⟨text, hread, HealthReport.hasIssues_ofText_of_not_valid ?_⟩
    simpa using hinvalid

/-- A file system with one document, which breaks off. -/
def brokenSystem : FileSystem :=
  ⟨.directory [("site", .directory [("data", .directory
    [("a.json", .file "[1".toUTF8 ⟨0, 0, 0⟩)])])], ["site"], [], ⟨0, 0, 0⟩⟩

/-- Both commands end with the code for issues on the document that breaks off, and the report says
what validation says. -/
theorem health_agrees_with_validation_broken :
    (Script.run FileSystem.perform (run ["validate", "a"]) brokenSystem).1.exitCode = 2 ∧
      (Script.run FileSystem.perform (run ["health", "a", "--json"]) brokenSystem).1.exitCode = 2 ∧
      (HealthReport.ofText "[1").issues = (validateText "[1").errors.map Issue.dotted ∧
      (HealthReport.ofText "[1").suggestions =
        ["Fix the JSON syntax before editing this file"] := by
  obtain ⟨htext, hcodes⟩ := health_agrees_with_validation
  obtain ⟨hissues, hsuggestions, -⟩ := htext "[1"
  have hbroken : (Json.parse "[1").toBool = false := by decide +kernel
  have hvalidate : (Script.run FileSystem.perform (run ["validate", "a"]) brokenSystem).1.exitCode =
      2 := by decide +kernel
  have hhealth := hcodes FileSystem FileSystem.perform brokenSystem none "jsonboard.toml" "a" false
    .json ["validate", "a"] ["health", "a", "--json"] (by decide +kernel) (by decide +kernel)
    hvalidate
  cases hparse : Json.parse "[1" with
  | ok value =>
      rw [hparse] at hbroken
      cases hbroken
  | error e =>
      rw [hparse] at hissues hsuggestions
      rw [List.append_nil] at hissues
      exact ⟨hvalidate, hhealth, hissues, hsuggestions⟩

end JsonShelf.CommandLine
