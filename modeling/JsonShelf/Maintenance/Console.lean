/-
**Chores and what they print.**

A chore prints as it goes on, and what it has printed stays when it fails.

Main definitions:

* `Maintenance.Console` — what has been printed;
* `Maintenance.Chore` — work on files that prints and may fail;
* `Maintenance.say`, `Maintenance.warn` — print a line;
* `Maintenance.failureReport` — what is printed of a failure and its causes.
-/

import JsonShelf.CommandLine.Program

set_option autoImplicit false

namespace JsonShelf.Maintenance

open CommandLine (Chain)
open Files (FileScript)

/-- What has been printed, on standard output and on standard error. -/
structure Console where
  stdout : String
  stderr : String
  deriving DecidableEq, Repr

/-- Nothing has been printed. -/
def Console.empty : Console := ⟨"", ""⟩

/-- Work on files that prints and may fail. -/
abbrev Chore := ExceptT Chain (StateT Console FileScript)

/-- Prints a line on standard output. -/
def say (line : String) : Chore Unit :=
  modify fun console => { console with stdout := console.stdout ++ line ++ "\n" }

/-- Prints a line on standard error. -/
def warn (line : String) : Chore Unit :=
  modify fun console => { console with stderr := console.stderr ++ line ++ "\n" }

/-- Prints several lines on standard error. -/
def warnAll (lines : List String) : Chore Unit :=
  lines.forM warn

/-- A task that prints nothing. -/
def quietly {α : Type} (task : CommandLine.Task α) : Chore α :=
  ExceptT.mk (StateT.lift task.run)

/-- Work on files that prints nothing and does not fail. -/
def asking {α : Type} (script : FileScript α) : Chore α :=
  quietly (ExceptT.lift script)

/-! ### Failures -/

/-- A text whose lines are preceded by `first` and then by `next`. -/
def indented (first next text : String) : String :=
  first ++ ("\n" ++ next).intercalate (Text.split (· == '\n') text)

/-- The causes of a failure, which are numbered if there are several. -/
def causeLines : List String → List String
  | [cause] => [indented "    " "    " cause]
  | causes => causes.zipIdx.map fun (cause, n) =>
    indented (Text.padStart 5 (toString n) ++ ": ") "       " cause

/-- What is printed of a failure and its causes, outermost first. -/
def failureReport : Chain → String
  | [] => "Error: \n"
  | [what] => "Error: " ++ what ++ "\n"
  | what :: causes => "Error: " ++ what ++ "\n\nCaused by:\n" ++ Text.lined (causeLines causes)

end JsonShelf.Maintenance
