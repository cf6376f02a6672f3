/-
**Keeping the schema files.**

The published schemas are kept in files, which are written anew or compared with what would be
written.

Main definitions:

* `Maintenance.projectRoot` — the directory of the project;
* `Maintenance.emitSchemas` — writes the files;
* `Maintenance.validateSchemas` — compares them.
-/

import JsonShelf.JsonSchema.Published
import JsonShelf.Maintenance.Console

set_option autoImplicit false

namespace JsonShelf.Maintenance

open CommandLine (during onFiles)
open JsonSchema (Published published)

/-- The name of the directory of the chores inside that of the project. -/
def choresName : String := "xtask"

/-- The directory of the project, from the one that is told or from the working directory: the one
above it if it is that of the chores. -/
def projectRoot (told : Option String) : Chore String := do
  let dir ← match told with
    | some dir => pure dir
    | none => quietly (during "determine current directory" (onFiles Files.workingDirectory))
  if Paths.fileName? dir = some choresName then
    match Paths.parent? dir with
    | some parent => return parent
    | none => throw [choresName ++ " has no parent directory"]
  else
    return dir

/-- The directory of the schema files. -/
def schemasOf (root : String) : String := Paths.join root "schemas"

/-- Writes the file of a schema. -/
def emitSchema (dir : String) (schema : Published) : Chore Unit := do
  let path := Paths.join dir schema.fileName
  quietly (during ("write " ++ path) (onFiles (Files.writeText path schema.text)))
  say ("Wrote " ++ path)

/-- Writes the files of all schemas. -/
def emitSchemas (root : String) : Chore Unit := do
  let dir := schemasOf root
  quietly (during "create schemas directory" (onFiles (Files.createDirectories dir)))
  published.forM (emitSchema dir)
  say "\nSchemas emitted successfully."

/-- How the file of a schema stands to the schema. -/
inductive Standing where
  | missing
  | outOfDate
  | upToDate
  deriving DecidableEq, Repr

/-- How the file of a schema stands to the schema. -/
def standingOf (dir : String) (schema : Published) : Chore Standing := do
  let path := Paths.join dir schema.fileName
  if ← asking (Files.exists? path) then
    let text ← quietly (during ("read " ++ path) (onFiles (Files.readText path)))
    return if text = schema.text then .upToDate else .outOfDate
  else
    return .missing

/-- Names the files of one standing, under a heading. -/
def warnOf (heading : String) (standing : Standing) (found : List (Published × Standing)) :
    Chore Unit :=
  match found.filter (·.2 = standing) with
  | [] => pure ()
  | named => warnAll (heading :: named.map fun entry => "  - " ++ entry.1.fileName)

/-- Compares the files of all schemas with what would be written. -/
def validateSchemas (root : String) : Chore Unit := do
  let found ← published.mapM fun schema => return (schema, ← standingOf (schemasOf root) schema)
  if found.all (·.2 = .upToDate) then
    say "All schemas are up to date."
  else
    warnOf "Missing schemas:" .missing found
    warnOf "Schemas out of date:" .outOfDate found
    warn "\nRun \x60cargo xtask emit-schemas\x60 to regenerate."
    throw ["schema validation failed"]

/-- Names all schemas. -/
def listSchemas : Chore Unit :=
  published.forM fun schema => say schema.id

end JsonShelf.Maintenance
