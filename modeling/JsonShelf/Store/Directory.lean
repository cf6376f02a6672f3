/-
**A store in a directory.**

A store keeps each document in a file of its own below a data directory.

Main definitions:

* `DirectoryStore` — a data directory and the filter of its listing;
* `DirectoryStore.carryOut` — the calls on files that a call on the store comes down to;
* `DirectoryStore.interpret` — a script of calls on the store as one of calls on files.
-/

import JsonShelf.Scan.Discovery

set_option autoImplicit false

namespace JsonShelf

open Files (FileScript Attempt)

/-- A data directory and the filter of its listing. -/
structure DirectoryStore where
  root : String
  filter : ScanFilter

namespace DirectoryStore

/-- A failure of the system in the words of the store. -/
def storeError (path : DocPath) : Files.Fault → StoreError
  | .notFound => .notFound path
  | .alreadyExists => .alreadyExists path
  | fault => .system path fault.message

/-- The path of the file of a document. -/
def fileOf (store : DirectoryStore) (path : DocPath) : String :=
  Paths.join store.root path.text

/-- Carries out an attempt on the file of a document, if the path can name one. -/
def onFile {α : Type} (store : DirectoryStore) (path : DocPath) (act : String → Attempt α) :
    FileScript (Except StoreError α) :=
  match checkPath path with
  | .error e => return .error e
  | .ok _ => do return (← (act (store.fileOf path)).run).mapError (storeError path)

/-- Makes the directories above a file, as far as they are missing. -/
def ensureParent (file : String) : Attempt Unit :=
  match Paths.parent? file with
  | some parent => Files.createDirectories parent
  | none => return

/-- What is known of a file. -/
def factsOf (file : String) : Attempt StoredFacts := do
  let status ← Files.status file
  return ⟨status.size, status.modified⟩

/-- The calls on files that a call on the store comes down to. -/
def carryOut (store : DirectoryStore) : (c : StoreCall) → FileScript c.Reply
  | .readText path => store.onFile path Files.readText
  | .writeText path text => store.onFile path fun file => do
    ensureParent file
    Files.writeText file text
  | .createText path text => store.onFile path fun file => do
    ensureParent file
    Files.create file text.toUTF8
  | .remove path => store.onFile path Files.remove
  | .contains path => store.onFile path fun file => Files.isFile file
  | .facts path => store.onFile path factsOf
  | .list => Scan.discover store.root store.filter

/-- A script of calls on the store as one of calls on files. -/
def interpret {α : Type} (store : DirectoryStore) (script : StoreScript α) : FileScript α :=
  Script.interpret store.carryOut script

end DirectoryStore

end JsonShelf
