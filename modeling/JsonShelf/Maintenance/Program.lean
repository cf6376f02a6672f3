/-
**The program for chores.**

Main definitions:

* `Maintenance.Job` — what can be asked of the program;
* `Maintenance.run` — the program for some arguments.
-/

import JsonShelf.Maintenance.Conformance
import JsonShelf.Maintenance.Schemas

set_option autoImplicit false

namespace JsonShelf.Maintenance

open CommandLine (Outcome Chain)
open Files (FileScript)

/-- What can be asked of the program. -/
inductive Job where
  | help
  | emitSchemas
  | validateSchemas
  | conform
  | listSchemas
  deriving DecidableEq, Repr

/-- The job of a name. -/
def Job.ofName? : String → Option Job
  | "help" | "--help" | "-h" => some help
  | "emit-schemas" => some emitSchemas
  | "validate-schemas" => some validateSchemas
  | "conform" => some conform
  | "print-schema-ids" => some listSchemas
  | _ => none

/-- What the program can do. -/
def helpLines : List String :=
  ["xtask commands:",
    "  help              Show this message",
    "  emit-schemas      Generate JSON schemas from Rust types to schemas/",
    "  validate-schemas  Check if schemas/ matches generated output (for CI)",
    "  print-schema-ids  Print known schema IDs",
    "  conform           Check jsonboard output on tests/fixtures against the schemas"]

/-- Does a job; `told` is the directory that is told as that of the project. -/
def Job.perform (told : Option String) : Job → Chore Unit
  | help => warnAll helpLines
  | emitSchemas => do Maintenance.emitSchemas (← projectRoot told)
  | validateSchemas => do Maintenance.validateSchemas (← projectRoot told)
  | conform => do Maintenance.conform (← projectRoot told)
  | listSchemas => Maintenance.listSchemas

/-- The chore that the arguments ask for; help if they ask for none. -/
def chore (told : Option String) (arguments : List String) : Chore Unit :=
  let name := arguments.head?.getD "help"
  match Job.ofName? name with
  | some job => do
    match ← (ExceptT.lift (job.perform told).run : Chore (Except Chain Unit)) with
    | .ok _ => return
    | .error causes => throw ("xtask failed" :: causes)
  | none =>
    throw ["unknown xtask command: " ++ name ++ "\n\nRun \x60cargo xtask help\x60 for usage."]

/-- The program for some arguments. -/
def run (told : Option String) (arguments : List String) : FileScript Outcome := do
  match ← (chore told arguments).run.run Console.empty with
  | (.ok _, console) => return ⟨0, console.stdout, console.stderr⟩
  | (.error causes, console) =>
    return ⟨1, console.stdout, console.stderr ++ failureReport causes⟩

end JsonShelf.Maintenance
