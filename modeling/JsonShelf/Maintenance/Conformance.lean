/-
**Conformance on fixtures.**

A fixture is a directory with documents, and perhaps with a file that tells how they are listed.
The program is run on each fixture, and its listing is compared with the one told.

Main definitions:

* `Maintenance.runProgram` — the document that the program prints for some arguments;
* `Maintenance.checkFixture` — one fixture;
* `Maintenance.conform` — all of them.
-/

import JsonShelf.Json.TextList
import JsonShelf.Maintenance.Console

set_option autoImplicit false

namespace JsonShelf.Maintenance

open CommandLine (Outcome during onFiles)
open Files (Attempt)

/-! ### Running the program -/

/-- The program of a project. -/
def programOf (root : String) : String :=
  ["target", "debug", "jsonboard"].foldl Paths.join root

/-- Runs the program, which has to be one that can be run. -/
def launch (program : String) (arguments : List String) : Attempt Outcome := do
  let status ← Files.status program
  if status.isProgram then ExceptT.lift (CommandLine.run arguments)
  else throw .permissionDenied

/-- The document that the program prints for a data directory and some arguments.  It prints one
also when it finds issues. -/
def runProgram (program data : String) (arguments : List String) :
    CommandLine.Task Json := do
  let command := "jsonboard " ++ " ".intercalate arguments
  let outcome ← during ("run " ++ command)
    (onFiles (launch program (["--dir", data] ++ arguments)))
  if outcome.exitCode = 0 || outcome.exitCode = 2 then
    match Json.parse outcome.stdout with
    | .ok document => return document
    | .error e => throw ["parse output of " ++ command, e.message]
  else
    throw [command ++ " exited with Some(" ++ toString outcome.exitCode ++ "): " ++ outcome.stderr]

/-- The paths in a listing. -/
def listedPaths (listing : Json) : List String :=
  (listing.items?.getD []).filterMap fun file => (file.get? "relativePath").bind Json.text?

/-! ### Fixtures -/

/-- The listing that a fixture tells, if it tells one. -/
def toldListing (golden : String) : Chore (Option (List String)) := do
  if ← asking (Files.exists? golden) then
    let text ← quietly (during ("read " ++ golden) (onFiles (Files.readText golden)))
    match Json.parseTexts text with
    | .ok paths => return some paths
    | .error e => throw ["parse " ++ golden, e.message]
  else
    return none

/-- What is wrong with the listing of a fixture. -/
def listingErrors (name : String) (listed : List String) : Option (List String) → List String
  | none => []
  | some told =>
    if told = listed then []
    else [name ++ ": listing " ++ Text.quotedList listed ++ " differs from expected.files.json " ++
      Text.quotedList told]

/-- Runs the program on a fixture; gives what is wrong with its listing. -/
def checkFixture (program fixture name : String) : Chore (List String) := do
  let data := Paths.join fixture "data"
  let listed := listedPaths (← quietly (runProgram program data ["files", "--json"]))
  listed.forM fun path => discard (quietly (runProgram program data ["validate", path, "--json"]))
  let _ ← quietly (runProgram program data ["health", "--json"])
  let errors := listingErrors name listed (← toldListing (Paths.join fixture "expected.files.json"))
  say ("  ✓ " ++ name ++ " (" ++ toString listed.length ++ " files)")
  return errors

/-- Runs the program on an entry of the directory of fixtures, if it is a fixture. -/
def checkEntry (program fixtures name : String) : Chore (Option (List String)) := do
  let fixture := Paths.join fixtures name
  if ← asking (Files.isDirectory (Paths.join fixture "data")) then
    return some (← checkFixture program fixture name)
  else
    return none

/-- Runs the program on all fixtures of a project. -/
def conform (root : String) : Chore Unit := do
  let program := programOf root
  if !(← asking (Files.exists? program)) then
    throw ["jsonboard binary not found at " ++ program ++
      ".\nRun \x60cargo build -p jsonboard-cli\x60 first."]
  let fixtures := ["tests", "fixtures"].foldl Paths.join root
  let names ← quietly (during "read tests/fixtures/" (onFiles (Files.entries fixtures)))
  let checked := (← names.mapM (checkEntry program fixtures)).filterMap id
  if checked.isEmpty then
    throw ["no fixtures with a data/ directory under " ++ fixtures]
  let errors := checked.flatten
  if !errors.isEmpty then
    warnAll ("\nConformance errors:" :: errors.map ("  - " ++ ·))
    throw ["conformance failed with " ++ toString errors.length ++ " errors"]
  say ("\n✓ All " ++ toString checked.length ++ " fixtures conform.")

end JsonShelf.Maintenance
