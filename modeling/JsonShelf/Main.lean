/-
**Running the programs.**

Main definitions:

* `Host.reply` — the reply of the system to a call on files;
* `main` — the program;
* `maintain` — the program for chores.
-/

import JsonShelf.Maintenance.Program
import Std.Time.DateTime.Timestamp

set_option autoImplicit false

namespace JsonShelf

namespace Host

open Files (Fault Status Call FileScript)

/-- A failure of the system by its number. -/
def faultOfNumber (number : UInt32) (text : String) : Fault :=
  match number.toNat with
  | 2 => .notFound
  | 13 => .permissionDenied
  | 17 => .alreadyExists
  | 20 => .notDirectory
  | 21 => .isDirectory
  | 36 => .nameTooLong
  | _ => .other text

/-- A failure of the system as one of a call. -/
def faultOf (e : IO.Error) : Fault :=
  let text := toString e
  match e with
  | .noFileOrDirectory .. => .notFound
  | .alreadyExists .. => .alreadyExists
  | .permissionDenied _ number _ | .inappropriateType _ number _ | .invalidArgument _ number _ =>
    faultOfNumber number text
  | _ => .other text

/-- Carries out an action, and keeps its failure. -/
def attempt {α : Type} (action : IO α) : IO (Except Fault α) := do
  match ← action.toBaseIO with
  | .ok result => return .ok result
  | .error e => return .error (faultOf e)

/-- A time of the system. -/
def timestampOf (time : IO.FS.SystemTime) : Timestamp :=
  .ofUnix time.sec time.nsec.toNat

/-- What the system knows of a file or directory. -/
def statusOf (facts : IO.FS.Metadata) : Status :=
  let isDirectory := facts.type == .dir
  { isDirectory, isProgram := !isDirectory, size := facts.byteSize.toNat
    modified := some (timestampOf facts.modified) }

/-- Makes an empty file, which must not exist. -/
def makeFile (path : String) : IO Unit := do
  let _ ← IO.FS.Handle.mk ⟨path⟩ .writeNew

/-- The present time. -/
def now : IO Timestamp := do
  let elapsed := (← Std.Time.Timestamp.now).toNanosecondsSinceUnixEpoch.val
  return .ofUnix (elapsed / 1000000000) (elapsed % 1000000000).toNat

/-- The reply of the system to a call on files. -/
def reply : (c : Call) → IO c.Reply
  | .read path => attempt (IO.FS.readBinFile ⟨path⟩)
  | .write path content => attempt (IO.FS.writeBinFile ⟨path⟩ content)
  | .makeFile path => attempt (makeFile path)
  | .remove path => attempt (IO.FS.removeFile ⟨path⟩)
  | .makeDirectory path => attempt (IO.FS.createDir ⟨path⟩)
  | .status path => attempt do
    let place := { ← IO.currentDir with toString := path }
    return statusOf (← place.metadata)
  | .entries path => attempt do
    let place := { ← IO.currentDir with toString := path }
    return ((← place.readDir).map (·.fileName)).toList
  | .workingDirectory => attempt do return (← IO.currentDir).toString
  | .now => now

/-- Runs a script on the files of the system. -/
def carryOut {α : Type} (script : FileScript α) : IO α :=
  script.interpret reply

/-- Prints what a program prints, and gives its exit code. -/
def report (outcome : CommandLine.Outcome) : IO UInt32 := do
  (← IO.getStdout).putStr outcome.stdout
  (← IO.getStderr).putStr outcome.stderr
  return outcome.exitCode.toUInt32

end Host

/-- The program for chores; `told` is the directory of the chores, if it is known. -/
def maintain (told : Option String) (arguments : List String) : IO UInt32 := do
  Host.report (← Host.carryOut (Maintenance.run told arguments))

end JsonShelf

/-- The program. -/
def main (arguments : List String) : IO UInt32 := do
  JsonShelf.Host.report (← JsonShelf.Host.carryOut (JsonShelf.CommandLine.run arguments))
