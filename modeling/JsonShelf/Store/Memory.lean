/-
**A store in memory.**

The store holds texts by path, in the order of the paths, and lists those that the standard policy
lets through and that parse.  It is a simplification in one point: it reads no clock, so it does not
know when a text was last changed.

Main definitions:

* `MemoryStore` — texts by path;
* `MemoryStore.get?`, `MemoryStore.insert`, `MemoryStore.erase` — one text;
* `MemoryStore.perform` — the reply to a call and the store after it;
* `MemoryStore.run` — runs a script on a store.
-/

import JsonShelf.Json.Parser
import JsonShelf.Scan.Policy
import JsonShelf.Store.Call

set_option autoImplicit false

namespace JsonShelf

/-- Texts by path, in the order of the paths. -/
structure MemoryStore where
  entries : List (DocPath × String)
  deriving DecidableEq

namespace MemoryStore

/-- A store without texts. -/
def empty : MemoryStore := ⟨[]⟩

/-- The text under a path. -/
def get? (store : MemoryStore) (path : DocPath) : Option String :=
  store.entries.lookup path

/-- The entries with the text under a path, at its place in the order. -/
def insertEntry (path : DocPath) (text : String) :
    List (DocPath × String) → List (DocPath × String)
  | [] => [(path, text)]
  | (p, t) :: rest =>
    if p = path then (path, text) :: rest
    else if path.text < p.text then (path, text) :: (p, t) :: rest
    else (p, t) :: insertEntry path text rest

/-- The store with the text under a path. -/
def insert (store : MemoryStore) (path : DocPath) (text : String) : MemoryStore :=
  ⟨insertEntry path text store.entries⟩

/-- The store without a text under the path. -/
def erase (store : MemoryStore) (path : DocPath) : MemoryStore :=
  ⟨store.entries.filter (·.1 != path)⟩

/-- The store of some texts; the last text of a path counts. -/
def ofList (files : List (DocPath × String)) : MemoryStore :=
  files.foldl (fun store file => store.insert file.1 file.2) empty

/-- Is a text listed under the path? -/
def isListed (filter : ScanFilter) (entry : DocPath × String) : Bool :=
  filter.allowsFile entry.1 && (Json.parse entry.2).toBool

/-- The paths of the texts that are listed, in order. -/
def list (store : MemoryStore) : Except StoreError (List DocPath) := do
  let filter ← (ScanFilter.ofPolicy .standard).mapError StoreError.invalidPattern
  return (store.entries.filter (isListed filter)).map Prod.fst

/-- The text under a path, which has to be there. -/
def find (store : MemoryStore) (path : DocPath) : Except StoreError String := do
  checkPath path
  match store.get? path with
  | some text => return text
  | none => throw (.notFound path)

/-- What is known of the text under a path: its size, and no time of a change, since the store keeps
none.  The time of a change is passed on where it is shown, and nothing depends on it. -/
def facts (store : MemoryStore) (path : DocPath) : Except StoreError StoredFacts := do
  return ⟨(← store.find path).utf8ByteSize, none⟩

/-- The store after a call, if the call succeeds. -/
def changed (store : MemoryStore) : StoreCall → Except StoreError MemoryStore
  | .writeText path text => do
    checkPath path
    return store.insert path text
  | .createText path text => do
    checkPath path
    if (store.get? path).isSome then throw (.alreadyExists path) else return store.insert path text
  | .remove path => do
    let _ ← store.find path
    return store.erase path
  | .readText _ | .contains _ | .facts _ | .list => return store

/-- What a change without result makes of the store. -/
def commit (store : MemoryStore) (call : StoreCall) : Except StoreError Unit × MemoryStore :=
  match store.changed call with
  | .ok after => (.ok (), after)
  | .error e => (.error e, store)

/-- The reply to a call and the store after it. -/
def perform : (c : StoreCall) → MemoryStore → c.Reply × MemoryStore
  | .readText path, store => (store.find path, store)
  | .writeText path text, store => store.commit (.writeText path text)
  | .createText path text, store => store.commit (.createText path text)
  | .remove path, store => store.commit (.remove path)
  | .contains path, store => ((checkPath path).map fun _ => (store.get? path).isSome, store)
  | .facts path, store => (store.facts path, store)
  | .list, store => (store.list, store)

/-- Runs a script on a store. -/
def run {α : Type} (script : StoreScript α) (store : MemoryStore) : α × MemoryStore :=
  Script.run perform script store

end MemoryStore

end JsonShelf
