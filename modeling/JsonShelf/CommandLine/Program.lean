/-
**The program.**

Main definitions:

* `CommandLine.Outcome` — exit code and output of a program;
* `CommandLine.carryOut` — carries out a command on a store;
* `CommandLine.run` — the program for some arguments.
-/

import JsonShelf.CommandLine.Arguments
import JsonShelf.Config.Settings
import JsonShelf.Report.Markdown
import JsonShelf.Shape.Document
import JsonShelf.Shelf.Inspection
import JsonShelf.Shelf.Records
import JsonShelf.Store.Directory

set_option autoImplicit false

namespace JsonShelf.CommandLine

open Files (FileScript)

/-- Exit code and output of a program. -/
structure Outcome where
  exitCode : Nat
  stdout : String
  stderr : String
  deriving DecidableEq, Repr

/-- What went wrong and what caused it, outermost first. -/
abbrev Chain := List String

/-- A script of calls on files that may fail. -/
abbrev Task := ExceptT Chain FileScript

/-- What a command prints, and whether it found issues. -/
structure Answer where
  stdout : String
  hasIssues : Bool

/-- An answer without issues. -/
def Answer.plain (stdout : String) : Answer := ⟨stdout, false⟩

/-- A line of output. -/
def Answer.line (text : String) : Answer := .plain (text ++ "\n")

/-- A value over several lines. -/
def Answer.json (value : Json) : Answer := .line value.pretty

/-- Adds what was tried to the causes of a failure. -/
def during {α : Type} (what : String) (task : Task α) : Task α :=
  ExceptT.mk do return (← task.run).mapError fun causes => what :: causes

/-- An attempt on files, whose failures are told in the words of the system. -/
def onFiles {α : Type} (attempt : Files.Attempt α) : Task α :=
  ExceptT.mk do return (← attempt.run).mapError fun fault => [fault.message]

/-- Reads a value given on the command line. -/
def readArgument (what text : String) : Task Json :=
  match Json.parse text with
  | .ok value => return value
  | .error e => throw ["parse " ++ what ++ " as JSON", e.message]

/-- A document, if its time of change can be written. -/
def writable (value : Option Json) : Task Json :=
  match value with
  | some value => return value
  | none => throw ["The year component cannot be formatted into the requested format."]

/-! ### Places -/

/-- The text of the config file; empty if there is none. -/
def configText (path : String) : Task String := do
  match ← (ExceptT.lift (Files.readText path).run : Task _) with
  | .ok text => return text
  | .error .notFound => return ""
  | .error fault => throw ["read config " ++ path, fault.message]

/-- The settings in force and the data directory.  The data directory of the command line is taken
from the working directory, any other from the directory of the config file. -/
def locate (invocation : Invocation) : Task (Settings × String) := do
  let text ← configText invocation.config
  match Settings.load invocation.dir text with
  | .error e => throw e.chain
  | .ok settings =>
    let base := if invocation.dir.isSome then "" else (Paths.parent? invocation.config).getD ""
    return (settings, Paths.join base settings.dir)

/-- The store in a data directory. -/
def openStore (settings : Settings) (root : String) : Except StoreError DirectoryStore := do
  let filter ← (ScanFilter.ofPolicy settings.scan).mapError StoreError.invalidPattern
  return ⟨root, filter⟩

/-- Makes a text the whole content of a file, in a directory that need not exist. -/
def writeOut (path text : String) : Task Unit := do
  match Paths.parent? path with
  | none | some "" => pure ()
  | some parent => during ("create " ++ parent) (onFiles (Files.createDirectories parent))
  during ("write " ++ path) (onFiles (Files.writeText path text))

/-! ### Commands -/

/-- Carries out a use case on a store. -/
def onStore {α : Type} (store : DirectoryStore) (useCase : UseCase α) : Task α :=
  ExceptT.mk do return (← store.interpret useCase.run).mapError ShelfError.chain

/-- The document that a report on some documents is written as. -/
def healthJson (reports : List (DocPath × HealthReport)) : Json :=
  .array (reports.map fun (path, report) =>
    .object [("file", .string path.text), ("health", report.toJson)])

/-- Lists all documents. -/
def listFiles (store : DirectoryStore) (format : Format) : Task Answer := do
  let summaries ← onStore store Shelf.list
  match format with
  | .text => return .plain (Report.files summaries)
  | .json => return .json (← writable (Summary.listToJson? summaries))
  | .markdown => return .plain (Report.Markdown.files summaries)

/-- Reports on the health of one document or of all. -/
def reportHealth (store : DirectoryStore) (file : Option String) (format : Format) :
    Task Answer := do
  let reports ← match file with
    | some name =>
      let path := DocPath.ofArgument name
      pure [(path, ← onStore store (Shelf.health path))]
    | none => onStore store Shelf.healthOfAll
  let hasIssues := reports.any (·.2.hasIssues)
  match format with
  | .text => return ⟨Report.health reports, hasIssues⟩
  | .json => return { Answer.json (healthJson reports) with hasIssues }
  | .markdown => return ⟨Report.Markdown.health reports, hasIssues⟩

/-- Carries out a command on the store of a data directory. -/
def carryOut (settings : Settings) (root : String) (store : DirectoryStore) :
    Command → Task Answer
  | .files format => listFiles store format
  | .show file asView => do
    let view ← onStore store (Shelf.read (.ofArgument file))
    if asView then return .json (← writable view.toJson?) else return .json view.data
  | .shape file asJson => do
    let path := DocPath.ofArgument file
    let shape ← onStore store (Shelf.shape path)
    return if asJson then .json shape.toJson else .plain (Report.shape path shape)
  | .validate file asJson => do
    let path := DocPath.ofArgument file
    let result ← onStore store (Shelf.validate path)
    let stdout := if asJson then result.toJson.pretty ++ "\n" else Report.validation path result
    return ⟨stdout, !result.valid⟩
  | .health file format => reportHealth store file format
  | .initSchema out => do
    let schema ← onStore store (Shelf.schemaModule (some (← (Files.now : FileScript _))))
    let out := out.getD (Paths.join root settings.schemaOut)
    during "write schema module" (writeOut out schema.text)
    return .line ("wrote " ++ out ++ " (" ++ toString schema.paths.length ++ " files)")
  | .create file data => do
    let path := DocPath.ofArgument file
    let value ← data.mapM (readArgument "--data")
    onStore store (Shelf.create path value)
    return .line ("created " ++ path.text)
  | .save file data => do
    let path := DocPath.ofArgument file
    let isNew ← onStore store (Shelf.save path (← readArgument "--data" data))
    return .line ((if isNew then "created " else "saved ") ++ path.text)
  | .delete file => do
    let path := DocPath.ofArgument file
    onStore store (Shelf.delete path)
    return .line ("deleted " ++ path.text)
  | .addRecord file record => do
    let record ← readArgument "record" record
    return .json (← onStore store (Shelf.addRecord (.ofArgument file) record))
  | .updateRecord file target patch => do
    let path := DocPath.ofArgument file
    let patch ← readArgument "patch" patch
    match target with
    | .byId id => return .json (← onStore store (Shelf.updateRecordById path id patch))
    | .byIndex index => return .json (← onStore store (Shelf.updateRecordByIndex path index patch))
  | .deleteRecord file id => do
    return .json (← onStore store (Shelf.deleteRecord (.ofArgument file) id))

/-- Carries out a command, with the options of the program. -/
def invoke (invocation : Invocation) : Task Answer := do
  let (settings, root) ← locate invocation
  match openStore settings root with
  | .error e => throw (("open data directory " ++ root) :: e.chain)
  | .ok store => carryOut settings root store invocation.command

/-- What stands before the causes of a failure on standard error. -/
def failureMark : String := "jsonboard error: "

/-- The outcome of a command: the code tells failures and issues apart from success. -/
def outcomeOf : Except Chain Answer → Outcome
  | .ok answer => ⟨if answer.hasIssues then 2 else 0, answer.stdout, ""⟩
  | .error causes => ⟨1, "", failureMark ++ ": ".intercalate causes ++ "\n"⟩

/-- The program for some arguments. -/
def run (arguments : List String) : FileScript Outcome := do
  match parse arguments with
  | .ok invocation => return outcomeOf (← (invoke invocation).run)
  | .error .help => return ⟨0, "", ""⟩
  | .error (.wrong why) => return ⟨2, "", "error: " ++ why ++ "\n"⟩

end JsonShelf.CommandLine
