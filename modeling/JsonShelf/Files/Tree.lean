/-
**Trees of files.**

Main definitions:

* `Files.Node` — a file with its content, or a directory with its entries;
* `Files.Node.find?` — the node at the end of some names;
* `Files.Node.replace`, `Files.Node.erase` — a tree with one node changed or taken away;
* `Files.Node.files` — the files of a tree with their content.

Main results:

* `Files.Node.find?_nil`, `Files.Node.find?_cons` — how names are followed.
-/

import JsonShelf.Json.Members
import JsonShelf.Timestamp

set_option autoImplicit false

namespace JsonShelf.Files

/-- A file with its content and time of change, or a directory with its entries by name. -/
inductive Node where
  | file (content : ByteArray) (modified : Timestamp)
  | directory (entries : List (String × Node))

namespace Node

instance : Inhabited Node := ⟨directory []⟩

/-- The entries of a directory. -/
def entries? : Node → Option (Members Node)
  | directory entries => some entries
  | file .. => none

/-- Is it a directory? -/
def isDirectory (node : Node) : Bool := node.entries?.isSome

/-- The node at the end of some names. -/
def find? (node : Node) : List String → Option Node
  | [] => some node
  | name :: rest => ((node.entries?).bind (Members.get? name)).bind (find? · rest)

@[simp] theorem find?_nil (node : Node) : node.find? [] = some node := by
  rw [find?]

theorem find?_cons (node : Node) (name : String) (rest : List String) :
    node.find? (name :: rest) =
      ((node.entries?).bind (Members.get? name)).bind (find? · rest) := by
  rw [find?]

/-- The tree with a node at the end of some names, the last of which may be new to its
directory. -/
def replace (new : Node) : List String → Node → Node
  | [], _ => new
  | _ :: _, file content modified => file content modified
  | [name], directory entries => directory (Members.put name new entries)
  | name :: rest, directory entries =>
    match Members.get? name entries with
    | some child => directory (Members.put name (replace new rest child) entries)
    | none => directory entries

/-- The tree without the node at the end of some names. -/
def erase : List String → Node → Node
  | [], node => node
  | _ :: _, file content modified => file content modified
  | [name], directory entries => directory (entries.filter (·.1 != name))
  | name :: rest, directory entries =>
    match Members.get? name entries with
    | some child => directory (Members.put name (erase rest child) entries)
    | none => directory entries

/-! ### All files -/

mutual

/-- The files of a tree that lies at the end of some names: the names that lead to each, and its
content. -/
def filesBelow (above : List String) : Node → List (List String × ByteArray)
  | file content _ => [(above, content)]
  | directory entries => filesOfEntries above entries

/-- `Files.Node.filesBelow` for the entries of a directory. -/
def filesOfEntries (above : List String) : List (String × Node) → List (List String × ByteArray)
  | [] => []
  | (name, node) :: rest => filesBelow (above ++ [name]) node ++ filesOfEntries above rest

end

/-- The files of a tree with their content. -/
def files (node : Node) : List (List String × ByteArray) := filesBelow [] node

end Node

end JsonShelf.Files
