/-
**Building TOML tables.**

A document fills its tables in any order, but each table only once: by one header, by dotted keys,
or inline.

Main definitions:

* `Toml.Origin`, `Toml.Item` — how a table came about, and what is being built;
* `Toml.insertAt` — a value under a dotted key;
* `Toml.openTable`, `Toml.appendTable` — the tables that headers begin;
* `Toml.Item.toToml` — the value that was built.
-/

import JsonShelf.Toml.Value

set_option autoImplicit false

namespace JsonShelf.Toml

/-- How a table came about. -/
inductive Origin where
  /-- It was needed by a header of a table inside it. -/
  | implied
  /-- It was needed by a dotted key. -/
  | dotted
  /-- A header began it. -/
  | header
  deriving DecidableEq, Repr

/-- What is being built under a key. -/
inductive Item where
  /-- A value that takes nothing more. -/
  | value (v : Toml)
  | table (origin : Origin) (entries : List (String × Item))
  /-- The tables of an array, the last one first; each with its entries. -/
  | tables (last : List (String × Item)) (before : List Toml)

/-- What is being built in a table. -/
abbrev Entries := Members Item

mutual

/-- The value that was built. -/
def Item.toToml : Item → Toml
  | .value v => v
  | .table _ entries => .table (entriesToToml entries)
  | .tables last before => .array (before.reverse ++ [.table (entriesToToml last)])

/-- The values that were built, by key. -/
def entriesToToml : List (String × Item) → List (String × Toml)
  | [] => []
  | (key, item) :: rest => (key, item.toToml) :: entriesToToml rest

end

/-- Changes the table at the end of some keys, which are made where they are missing: `change` is
given the origin of the table, if there is one, and its entries.  Values take nothing more, and the
table of a header takes no dotted keys. -/
def within (isDotted : Bool) (change : Option Origin → Entries → Except Fault Entries) :
    List String → Option Origin → Entries → Except Fault Entries
  | [], origin, entries => change origin entries
  | key :: rest, _, entries => do
    match Members.get? key entries with
    | none =>
      let origin := if isDotted then Origin.dotted else Origin.implied
      let inner ← within isDotted change rest (some origin) []
      return Members.put key (.table origin inner) entries
    | some (.value _) => throw (.cannotExtend key)
    | some (.tables last before) =>
      -- a key that names an array of tables leads into the last of them
      return Members.put key
        (.tables (← within isDotted change rest (some .header) last) before) entries
    | some (.table origin inner) =>
      if isDotted && origin = .header then throw (.duplicateKey key)
      else
        return Members.put key
          (.table origin (← within isDotted change rest (some origin) inner)) entries

/-- Puts an item under a key that must be new. -/
def addNew (key : String) (item : Item) (entries : Entries) : Except Fault Entries :=
  match Members.get? key entries with
  | some _ => .error (.duplicateKey key)
  | none => .ok (entries ++ [(key, item)])

/-- Puts a value under a dotted key.  The tables on the way must have come about by dotted keys. -/
def insertAt (path : List String) (key : String) (v : Toml) (entries : Entries) :
    Except Fault Entries :=
  within true (fun origin inner =>
    if path.isEmpty || origin = some .dotted then addNew key (.value v) inner
    else .error (.duplicateKey key)) path none entries

/-- Begins the table of a header, which must be new or implied so far. -/
def openTable (path : List String) (key : String) (entries : Entries) : Except Fault Entries :=
  within false (fun _ inner =>
    match Members.get? key inner with
    | none => .ok (inner ++ [(key, .table .header [])])
    | some (.table .implied old) => .ok (Members.put key (.table .header old) inner)
    | some _ => .error (.duplicateKey key)) path none entries

/-- Begins one more table of an array of tables. -/
def appendTable (path : List String) (key : String) (entries : Entries) : Except Fault Entries :=
  within false (fun _ inner =>
    match Members.get? key inner with
    | none => .ok (inner ++ [(key, .tables [] [])])
    | some (.tables last before) =>
      .ok (Members.put key (.tables [] (.table (entriesToToml last) :: before)) inner)
    | some _ => .error (.duplicateKey key)) path none entries

/-- Puts a value under a dotted key into the table that a header began. -/
def insertBelow (header : List String) (path : List String) (key : String) (v : Toml)
    (entries : Entries) : Except Fault Entries :=
  within false (fun _ inner => insertAt path key v inner) header none entries

end JsonShelf.Toml
