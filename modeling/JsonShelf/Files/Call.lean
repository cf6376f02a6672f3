/-
**Calls on files.**

Main definitions:

* `Files.Fault` — why a call fails, with the wording of the system;
* `Files.Status` — what is known of a file or directory;
* `Files.Call`, `Files.Call.Reply` — what can be asked, and what is replied;
* `Files.readText`, `Files.writeText`, `Files.create` — scripts for whole files;
* `Files.createDirectories`, `Files.copyTree` — scripts for directories and trees.
-/

import JsonShelf.Paths.Components
import JsonShelf.Script
import JsonShelf.Timestamp

set_option autoImplicit false

namespace JsonShelf.Files

/-- Why a call fails. -/
inductive Fault where
  | notFound
  | alreadyExists
  | notDirectory
  | isDirectory
  | nameTooLong
  | permissionDenied
  /-- The content of a file is no UTF-8 text. -/
  | notText
  /-- A path holds a character that no path can hold. -/
  | nulInPath
  | other (text : String)
  deriving DecidableEq, Repr

/-- The wording of the system. -/
def Fault.message : Fault → String
  | notFound => "No such file or directory (os error 2)"
  | alreadyExists => "File exists (os error 17)"
  | notDirectory => "Not a directory (os error 20)"
  | isDirectory => "Is a directory (os error 21)"
  | permissionDenied => "Permission denied (os error 13)"
  | nameTooLong => "File name too long (os error 36)"
  | notText => "stream did not contain valid UTF-8"
  | nulInPath => "file name contained an unexpected NUL byte"
  | other text => text

/-- What is known of a file or directory. -/
structure Status where
  isDirectory : Bool
  /-- Is it a file that can be run as a program? -/
  isProgram : Bool
  /-- The size in bytes. -/
  size : Nat
  modified : Option Timestamp
  deriving DecidableEq, Repr

/-- What can be asked of the files of a system. -/
inductive Call where
  /-- The content of a file. -/
  | read (path : String)
  /-- Makes the content the whole content of a file, which need not exist. -/
  | write (path : String) (content : ByteArray)
  /-- Makes an empty file, which must not exist. -/
  | makeFile (path : String)
  | remove (path : String)
  | makeDirectory (path : String)
  | status (path : String)
  /-- The names in a directory. -/
  | entries (path : String)
  /-- The path of the working directory. -/
  | workingDirectory
  /-- The present time. -/
  | now

/-- What a call is replied. -/
def Call.Reply : Call → Type
  | read _ => Except Fault ByteArray
  | write .. | makeFile _ | remove _ | makeDirectory _ => Except Fault Unit
  | status _ => Except Fault Status
  | entries _ => Except Fault (List String)
  | workingDirectory => Except Fault String
  | now => Timestamp

/-- A script of calls on files. -/
abbrev FileScript := Script Call Call.Reply

/-- A script of calls on files that may fail. -/
abbrev Attempt := ExceptT Fault FileScript

/-! ### Single calls -/

/-- The content of a file. -/
def read (path : String) : Attempt ByteArray := Script.perform (Call.read path)

/-- Makes the content the whole content of a file. -/
def write (path : String) (content : ByteArray) : Attempt Unit :=
  Script.perform (Call.write path content)

/-- Makes an empty file, which must not exist. -/
def makeFile (path : String) : Attempt Unit := Script.perform (Call.makeFile path)

/-- Takes away a file. -/
def remove (path : String) : Attempt Unit := Script.perform (Call.remove path)

/-- Makes a directory. -/
def makeDirectory (path : String) : Attempt Unit := Script.perform (Call.makeDirectory path)

/-- What is known of a file or directory. -/
def status (path : String) : Attempt Status := Script.perform (Call.status path)

/-- The names in a directory. -/
def entries (path : String) : Attempt (List String) := Script.perform (Call.entries path)

/-- The path of the working directory. -/
def workingDirectory : Attempt String := Script.perform Call.workingDirectory

/-- The present time. -/
def now : FileScript Timestamp := Script.perform Call.now

/-! ### Questions -/

/-- Does the path lead to a directory? -/
def isDirectory (path : String) : FileScript Bool := do
  match ← (status path).run with
  | .ok status => return status.isDirectory
  | .error _ => return false

/-- Does the path lead to a file? -/
def isFile (path : String) : FileScript Bool := do
  match ← (status path).run with
  | .ok status => return !status.isDirectory
  | .error _ => return false

/-- Does the path lead anywhere? -/
def exists? (path : String) : FileScript Bool := do
  match ← (status path).run with
  | .ok _ => return true
  | .error _ => return false

/-- What comes of an attempt, whether it fails or not. -/
def outcome {α : Type} (attempt : Attempt α) : Attempt (Except Fault α) :=
  ExceptT.lift attempt.run

/-! ### Files and trees -/

/-- The content of a file as a text. -/
def readText (path : String) : Attempt String := do
  match String.fromUTF8? (← read path) with
  | some text => return text
  | none => throw .notText

/-- Makes a text the whole content of a file. -/
def writeText (path text : String) : Attempt Unit :=
  write path text.toUTF8

/-- Fills a file that was just made.  If the content cannot be written, the file is taken away
again, and whether that succeeds does not matter. -/
def fillNew (path : String) (content : ByteArray) : Attempt Unit := do
  match ← outcome (write path content) with
  | .ok _ => return
  | .error fault =>
    let _ ← outcome (remove path)
    throw fault

/-- Makes a file with some content, which must not exist. -/
def create (path : String) (content : ByteArray) : Attempt Unit := do
  makeFile path
  fillNew path content

/-- The path and the paths of the directories above it, as far as they need making; `bound` bounds
their number. -/
def ancestors : Nat → String → List String
  | 0, _ => []
  | bound + 1, path =>
    match Paths.parent? path with
    | none => []
    | some parent => if (Paths.components path).isEmpty then [] else path :: ancestors bound parent

/-- Makes the first of the directories whose parent exists, trying one after the other; gives those
that are still missing, the last one first. -/
def makeFirst (missing : List String) : List String → Attempt (List String)
  | [] => return missing
  | path :: above => do
    match ← outcome (makeDirectory path) with
    | .ok _ => return missing
    | .error .notFound => makeFirst (path :: missing) above
    | .error .alreadyExists =>
      if ← isDirectory path then return missing else throw .alreadyExists
    | .error fault => throw fault

/-- Makes a directory unless it is there. -/
def ensureDirectory (path : String) : Attempt Unit := do
  match ← outcome (makeDirectory path) with
  | .ok _ => return
  | .error .alreadyExists => if ← isDirectory path then return else throw .alreadyExists
  | .error fault => throw fault

/-- Makes a directory and those above it, as far as they are missing. -/
def createDirectories (path : String) : Attempt Unit := do
  for missing in ← makeFirst [] (ancestors path.length.succ path) do
    ensureDirectory missing

/-- Makes the content of one file that of another, which is emptied before. -/
def copyFile (source target : String) : Attempt Unit := do
  let _ ← read source
  write target .empty
  write target (← read source)

/-- Copies what is in a directory into another one, which is made if it is missing; `bound` bounds
the depth. -/
def copyTree : Nat → String → String → Attempt Unit
  | 0, _, _ => throw .nameTooLong
  | bound + 1, source, target => do
    createDirectories target
    for name in ← entries source do
      let inner := Paths.join source name
      if ← isDirectory inner then copyTree bound inner (Paths.join target name)
      else copyFile inner (Paths.join target name)

end JsonShelf.Files
