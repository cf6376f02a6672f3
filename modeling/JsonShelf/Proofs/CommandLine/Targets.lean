/-
**Which document a command acts on.**

A command on one document is given its name, and the name is read as an argument: blanks around it
do not count, and an extension may be left out.  Every command then stays on the document that was
read.  For a name taken from the listing this is the listed document, unless its path begins with a
blank: a listing tells the names of files as they are.

Main definitions:

* `CommandLine.Command.file?` — the name that a command is given;
* `CommandLine.ActsOn` — a task does nothing but call on the store about one document.

Main results:

* `CommandLine.actsOn_carryOut` — a command acts on the document that its name means;
* `CommandLine.actsOn_listed_iff` — **given the name of a listed document, a command acts on this
  document and on no other exactly when the path does not begin with a blank**.
-/

import JsonShelf.CommandLine.Program
import JsonShelf.Proofs.Paths.Arguments
import JsonShelf.Proofs.Shelf.Reach

set_option autoImplicit false

namespace JsonShelf.CommandLine

variable {store : DirectoryStore} {path : DocPath} {α β : Type}

/-- The name of a document that a command is given. -/
def Command.file? : Command → Option String
  | .show file _ | .shape file _ | .validate file _ | .create file _ | .save file _ | .delete file
  | .addRecord file _ | .updateRecord file .. | .deleteRecord file _ => some file
  | .health file _ => file
  | .files _ | .initSchema _ => none

/-- The task does nothing but call on the store about the document. -/
def ActsOn (store : DirectoryStore) (path : DocPath) (task : Task α) : Prop :=
  ∃ script : StoreScript (Except Chain α), task.run = store.interpret script ∧
    script.Only fun c => c.path? = some path

namespace ActsOn

/-! ### Parts of a task -/

theorem pure (a : α) : ActsOn store path (Pure.pure a : Task α) :=
  ⟨.done (.ok a), rfl, trivial⟩

theorem throw (causes : Chain) : ActsOn store path (MonadExcept.throw causes : Task α) :=
  ⟨.done (.error causes), rfl, trivial⟩

/-- A task of two parts acts on a document if both of them do. -/
theorem bind {x : Task α} {f : α → Task β} (hx : ActsOn store path x)
    (hf : ∀ a, ActsOn store path (f a)) : ActsOn store path (x >>= f) := by
  obtain ⟨first, hfirst, honly⟩ := hx
  choose second hsecond hrest using hf
  refine ⟨first >>= fun result => match result with
    | .ok a => second a
    | .error causes => .done (.error causes), ?_, honly.bind ?_⟩
  · rw [ExceptT.run_bind, hfirst, DirectoryStore.interpret, DirectoryStore.interpret,
      Script.interpret_bind]
    refine congrArg (_ >>= ·) (funext fun result => ?_)
    cases result with
    | ok a => exact hsecond a
    | error causes => rfl
  · intro result
    cases result with
    | ok a => exact hrest a
    | error causes => trivial

/-- A use case that stays on a document acts on it. -/
theorem onStore {useCase : UseCase α} (h : useCase.StaysOn path) :
    ActsOn store path (onStore store useCase) := by
  refine ⟨useCase.run >>= fun result => .done (result.mapError ShelfError.chain), ?_,
    Script.Only.bind h fun _ => trivial⟩
  rw [DirectoryStore.interpret, Script.interpret_bind]
  rfl

theorem readArgument (what text : String) :
    ActsOn store path (readArgument what text) := by
  unfold CommandLine.readArgument
  split
  · exact pure _
  · exact throw _

theorem writable (value : Option Json) : ActsOn store path (writable value) := by
  unfold CommandLine.writable
  split
  · exact pure _
  · exact throw _

end ActsOn

/-! ### Commands -/

/-- **A command acts on the document that its name means**, and on no other. -/
theorem actsOn_carryOut (settings : Settings) (root : String) {command : Command} {file : String}
    (h : command.file? = some file) :
    ActsOn store (.ofArgument file) (carryOut settings root store command) := by
  cases command with
  | files format => cases h
  | initSchema out => cases h
  | «show» name asView =>
      cases h
      refine (ActsOn.onStore .read).bind fun view => ?_
      split
      · exact (ActsOn.writable _).bind fun _ => ActsOn.pure _
      · exact ActsOn.pure _
  | shape name asJson =>
      cases h
      exact (ActsOn.onStore .shape).bind fun _ => ActsOn.pure _
  | validate name asJson =>
      cases h
      exact (ActsOn.onStore .validate).bind fun _ => ActsOn.pure _
  | health name? format =>
      cases h
      refine (ActsOn.onStore .health).bind fun report => (ActsOn.pure _).bind fun reports => ?_
      cases format <;> exact ActsOn.pure _
  | create name data =>
      cases h
      have hdata : ActsOn store (.ofArgument file) (data.mapM (readArgument "--data")) := by
        cases data with
        | none => exact ActsOn.pure _
        | some text => exact (ActsOn.readArgument _ text).bind fun _ => ActsOn.pure _
      exact hdata.bind fun _ => (ActsOn.onStore (.create _)).bind fun _ => ActsOn.pure _
  | save name data =>
      cases h
      exact (ActsOn.readArgument _ _).bind fun _ =>
        (ActsOn.onStore (.save _)).bind fun _ => ActsOn.pure _
  | delete name =>
      cases h
      exact (ActsOn.onStore .delete).bind fun _ => ActsOn.pure _
  | addRecord name record =>
      cases h
      exact (ActsOn.readArgument _ _).bind fun _ =>
        (ActsOn.onStore (.addRecord _)).bind fun _ => ActsOn.pure _
  | updateRecord name target patch =>
      cases h
      refine (ActsOn.readArgument _ _).bind fun patch => ?_
      cases target with
      | byId id => exact (ActsOn.onStore (.updateRecordById _ _)).bind fun _ => ActsOn.pure _
      | byIndex index =>
          exact (ActsOn.onStore (.updateRecordByIndex _ _)).bind fun _ => ActsOn.pure _
  | deleteRecord name id =>
      cases h
      exact (ActsOn.onStore (.deleteRecord _)).bind fun _ => ActsOn.pure _

/-- **Given the name of a listed document, a command acts on this document and on no other exactly
when the path does not begin with a blank.**  Otherwise it acts on another document. -/
theorem actsOn_listed_iff (settings : Settings) (root : String) (store : DirectoryStore)
    (filter : ScanFilter) (s : String) (h : filter.allowsFile (.ofString s) = true) :
    (DocPath.ofArgument (DocPath.ofString s).text = DocPath.ofString s ↔
      (DocPath.ofString s).beginsBlank = false) ∧
    ∀ command : Command, command.file? = some (DocPath.ofString s).text →
      ∃ path, ActsOn store path (carryOut settings root store command) ∧
        (path = DocPath.ofString s ↔ (DocPath.ofString s).beginsBlank = false) := by
  have hjson : (DocPath.ofString s).hasJsonExtension = true := by
    simp only [ScanFilter.allowsFile, Bool.and_eq_true] at h
    exact h.1.1.1.1.1.1
  have hself := DocPath.ofArgument_eq_self_iff hjson
  exact ⟨hself, fun command hfile => ⟨_, actsOn_carryOut settings root hfile, hself⟩⟩

/-- A blank that is not at the start does no harm. -/
theorem actsOn_listed_iff_blankInside : ∃ filter, ScanFilter.ofPolicy .standard = .ok filter ∧
    filter.allowsFile (.ofString "./reports\\ q1 .json/.") = true ∧
    ∀ settings root store command, Command.file? command = some "reports/ q1 .json/." →
      ActsOn store (.ofString "reports/ q1 .json/.") (carryOut settings root store command) := by
  have hlisted : (ScanFilter.ofPolicy .standard).map
      (·.allowsFile (.ofString "./reports\\ q1 .json/.")) = .ok true := by decide +kernel
  obtain ⟨filter, hfilter, hallows⟩ := map_eq_ok.1 hlisted
  refine ⟨filter, hfilter, hallows, ?_⟩
  intro settings root store command hfile
  have hpath : DocPath.ofString "./reports\\ q1 .json/." = .ofString "reports/ q1 .json/." := by
    decide +kernel
  have htext : (DocPath.ofString "./reports\\ q1 .json/.").text = "reports/ q1 .json/." := by
    decide +kernel
  obtain ⟨-, hacts⟩ := actsOn_listed_iff settings root store filter _ hallows
  obtain ⟨path, hpathActs, hself⟩ := hacts command (htext ▸ hfile)
  rw [hself.2 (by decide +kernel), hpath] at hpathActs
  exact hpathActs

/-- A name that begins with a blank is listed, and means another document. -/
theorem not_ofArgument_of_leadingBlank : ∃ filter, ScanFilter.ofPolicy .standard = .ok filter ∧
    filter.allowsFile (.ofString " a.json") = true ∧
    DocPath.ofArgument (DocPath.ofString " a.json").text ≠ DocPath.ofString " a.json" ∧
    DocPath.ofArgument (DocPath.ofString " a.json").text = DocPath.ofString "a.json" := by
  have hlisted : (ScanFilter.ofPolicy .standard).map
      (·.allowsFile (.ofString " a.json")) = .ok true := by decide +kernel
  obtain ⟨filter, hfilter, hallows⟩ := map_eq_ok.1 hlisted
  exact ⟨filter, hfilter, hallows, by decide, by decide⟩

end JsonShelf.CommandLine
