/-
**What a walk finds.**

A walk asks the system for the names in a directory and goes on below those that are directories and
may be entered.  On a system that answers from a tree of files it finds exactly the files that lie
deep enough below directories which may all be entered.

Main definitions:

* `Files.Serves` — the system answers calls on what is below a path as a tree of files says;
* `Scan.Reaches` — names lead from a directory to a file, through directories that may be entered.

Main results:

* `Scan.reaches_singleton`, `Scan.reaches_cons_iff` — one step of the way;
* `Scan.exists_run_walk` — **a walk finds the files that it reaches, down to its level**.
-/

import JsonShelf.Proofs.Computation
import JsonShelf.Proofs.Files.ReadAfterWrite
import JsonShelf.Proofs.Json.Members
import JsonShelf.Scan.Discovery
import Mathlib.Tactic.Choose

set_option autoImplicit false

namespace JsonShelf

open Files (Node)

/-! ### Systems -/

/-- The system answers calls on what is below a path as a tree of files says, and stays as it is. -/
structure Files.Serves {σ : Type} (handle : (c : Files.Call) → σ → c.Reply × σ) (state : σ)
    (root : String) (tree : Node) : Prop where
  status : ∀ (place : List String) (node : Node), tree.find? place = some node →
    ∃ status : Files.Status, handle (.status (place.foldl Paths.join root)) state =
      (.ok status, state) ∧ status.isDirectory = node.isDirectory
  entries : ∀ (place : List String) (entries : Members Node),
    tree.find? place = some (.directory entries) →
      ∃ names, handle (.entries (place.foldl Paths.join root)) state = (.ok names, state) ∧
        names.Perm (Members.keys entries)
  read : ∀ (place : List String) (content : ByteArray) (modified : Timestamp),
    tree.find? place = some (.file content modified) →
      handle (.read (place.foldl Paths.join root)) state = (.ok content, state)

namespace Scan

variable {σ : Type} {handle : (c : Files.Call) → σ → c.Reply × σ} {state : σ} {root name : String}
  {tree node : Node} {filter : ScanFilter} {above place rest names : List String}
  {entries : Members Node} {level : Nat}

theorem run_isDirectory (h : Files.Serves handle state root tree)
    (hnode : tree.find? place = some node) :
    Script.run handle (Files.isDirectory (place.foldl Paths.join root)) state =
      (node.isDirectory, state) := by
  obtain ⟨status, hstatus, hdirectory⟩ := h.status place node hnode
  have hcall : Script.run handle (Files.status (place.foldl Paths.join root)).run state =
      (.ok status, state) := hstatus
  rw [Files.isDirectory, Script.run_bind_of_run hcall, ← hdirectory]
  rfl

/-! ### Ways to files -/

/-- The names lead on from a directory to a file, through directories that may be entered. -/
structure Reaches (filter : ScanFilter) (tree : Node) (above names : List String) : Prop where
  ne_nil : names ≠ []
  isFile : ∃ content modified, tree.find? (above ++ names) = some (.file content modified)
  entered : ∀ directories, directories ≠ [] → directories <+: names → directories ≠ names →
    filter.allowsDirectory (pathOf (above ++ directories)) = true

theorem reaches_singleton : Reaches filter tree above [name] ↔
    ∃ content modified, tree.find? (above ++ [name]) = some (.file content modified) := by
  refine ⟨Reaches.isFile, fun hfile => ⟨List.cons_ne_nil _ _, hfile, ?_⟩⟩
  intro directories hne hprefix hproper
  obtain ⟨first, inner, rfl⟩ := List.exists_cons_of_ne_nil hne
  obtain ⟨rfl, hinner⟩ := List.cons_prefix_cons.1 hprefix
  exact absurd (congrArg (first :: ·) (List.prefix_nil.1 hinner)) hproper

/-- One step of a way that goes on. -/
theorem reaches_cons_iff (hrest : rest ≠ []) : Reaches filter tree above (name :: rest) ↔
    filter.allowsDirectory (pathOf (above ++ [name])) = true ∧
      Reaches filter tree (above ++ [name]) rest := by
  have hassoc : ∀ back, above ++ name :: back = above ++ [name] ++ back := fun back => by simp
  constructor
  · rintro ⟨-, hfile, hentered⟩
    refine ⟨hentered [name] (List.cons_ne_nil _ _) (by simp) (by simpa using Ne.symm hrest),
      hrest, ?_, ?_⟩
    · rwa [hassoc] at hfile
    · intro directories hne hprefix hproper
      rw [← hassoc]
      refine hentered (name :: directories) (List.cons_ne_nil _ _) ?_ ?_
      · exact List.cons_prefix_cons.2 ⟨rfl, hprefix⟩
      · exact fun heq => hproper (List.cons.inj heq).2
  · rintro ⟨hallowed, -, hfile, hentered⟩
    refine ⟨List.cons_ne_nil _ _, by rwa [hassoc], ?_⟩
    intro directories hne hprefix hproper
    obtain ⟨first, inner, rfl⟩ := List.exists_cons_of_ne_nil hne
    obtain ⟨rfl, hinner⟩ := List.cons_prefix_cons.1 hprefix
    by_cases hnil : inner = []
    · rwa [hnil]
    · rw [hassoc]
      exact hentered inner hnil hinner fun heq => hproper (by rw [heq])

/-! ### Walks -/

/-- What a walk finds at one entry of a directory. -/
def visit (filter : ScanFilter) (root : String) (level : Nat) (above : List String)
    (name : String) : Files.FileScript (List (List String)) := do
  let place := above ++ [name]
  if ← Files.isDirectory (place.foldl Paths.join root) then
    if filter.allowsDirectory (pathOf place) then walk filter root level place
    else return []
  else
    return [place]

theorem walk_succ (filter : ScanFilter) (root : String) (level : Nat) (above : List String) :
    walk filter root (level + 1) above =
      (Files.entries (above.foldl Paths.join root)).run >>= fun reply => match reply with
        | .error _ => return []
        | .ok names => do return (← names.mapM (visit filter root level above)).flatten :=
  rfl

/-- What is found are the files that are reached below a directory, down to a level. -/
def FoundBelow (filter : ScanFilter) (tree : Node) (level : Nat) (above : List String)
    (found : List (List String)) : Prop :=
  ∀ names, names ∈ found ↔
    ∃ rest, names = above ++ rest ∧ rest.length ≤ level ∧ Reaches filter tree above rest

/-- A way to a file ends there. -/
theorem eq_nil_of_reaches {content : ByteArray} {modified : Timestamp}
    (hfile : tree.find? (above ++ [name]) = some (.file content modified))
    (h : Reaches filter tree above (name :: rest)) : rest = [] := by
  refine Decidable.byContradiction fun hrest => ?_
  obtain ⟨content', modified', hbelow⟩ := ((reaches_cons_iff hrest).1 h).2.isFile
  obtain ⟨next, after, rfl⟩ := List.exists_cons_of_ne_nil hrest
  rw [Node.find?_append, hfile, Option.bind_some, Node.find?_cons] at hbelow
  cases hbelow

/-- A way through a directory goes on. -/
theorem ne_nil_of_reaches (hdirectory : tree.find? (above ++ [name]) = some (.directory entries))
    (h : Reaches filter tree above (name :: rest)) : rest ≠ [] := by
  rintro rfl
  obtain ⟨content, modified, hfile⟩ := reaches_singleton.1 h
  rw [hdirectory] at hfile
  cases hfile

/-- What is found at an entry, if a walk finds what it should below it. -/
theorem exists_run_visit (h : Files.Serves handle state root tree)
    (hnode : tree.find? (above ++ [name]) = some node)
    (hwalk : ∀ entries, node = .directory entries → ∃ found,
      Script.run handle (walk filter root level (above ++ [name])) state = (found, state) ∧
        FoundBelow filter tree level (above ++ [name]) found) :
    ∃ found, Script.run handle (visit filter root level above name) state = (found, state) ∧
      ∀ names, names ∈ found ↔ ∃ rest, names = above ++ name :: rest ∧ rest.length ≤ level ∧
        Reaches filter tree above (name :: rest) := by
  rw [visit, Script.run_bind_of_run (run_isDirectory h hnode)]
  cases node with
  | file content modified =>
      refine ⟨[above ++ [name]], rfl, fun names => ?_⟩
      rw [List.mem_singleton]
      constructor
      · rintro rfl
        exact ⟨[], rfl, Nat.zero_le _, reaches_singleton.2 ⟨content, modified, hnode⟩⟩
      · rintro ⟨rest, rfl, -, hreaches⟩
        rw [eq_nil_of_reaches hnode hreaches]
  | directory entries =>
      by_cases hallowed : filter.allowsDirectory (pathOf (above ++ [name])) = true
      · obtain ⟨found, hrun, hfound⟩ := hwalk entries rfl
        refine ⟨found, ?_, fun names => ?_⟩
        · rw [← hrun]
          simp [hallowed, Node.isDirectory, Node.entries?]
        · rw [hfound]
          constructor
          · rintro ⟨rest, rfl, hlength, hreaches⟩
            exact ⟨rest, by simp, hlength,
              (reaches_cons_iff hreaches.ne_nil).2 ⟨hallowed, hreaches⟩⟩
          · rintro ⟨rest, rfl, hlength, hreaches⟩
            have hrest := ne_nil_of_reaches hnode hreaches
            exact ⟨rest, by simp, hlength, ((reaches_cons_iff hrest).1 hreaches).2⟩
      · refine ⟨[], ?_, fun names => ⟨fun hmem => absurd hmem List.not_mem_nil, ?_⟩⟩
        · simp [hallowed, Node.isDirectory, Node.entries?, Script.run, pure]
        · rintro ⟨rest, rfl, -, hreaches⟩
          have hrest := ne_nil_of_reaches hnode hreaches
          exact absurd ((reaches_cons_iff hrest).1 hreaches).1 hallowed

/-- **A walk finds the files that it reaches, down to its level.** -/
theorem exists_run_walk (filter : ScanFilter) (level : Nat)
    (h : Files.Serves handle state root tree)
    (habove : tree.find? above = some (.directory entries)) :
    ∃ found, Script.run handle (walk filter root level above) state = (found, state) ∧
      FoundBelow filter tree level above found := by
  induction level generalizing above entries with
  | zero =>
      refine ⟨[], rfl, fun names => ⟨nofun, ?_⟩⟩
      rintro ⟨rest, -, hlength, hreaches⟩
      exact absurd (List.length_eq_zero_iff.1 (Nat.le_zero.1 hlength)) hreaches.ne_nil
  | succ level ih =>
      obtain ⟨listed, hlisted, hperm⟩ := h.entries above entries habove
      -- every name that is listed leads to a node of the tree
      have hnode : ∀ name ∈ listed, ∃ node, tree.find? (above ++ [name]) = some node := by
        intro name hname
        obtain ⟨node, hnode⟩ := Members.exists_get?_iff.2 (hperm.mem_iff.1 hname)
        refine ⟨node, ?_⟩
        rw [Node.find?_append, habove, Option.bind_some, Node.find?_directory_cons, hnode]
        exact Node.find?_nil node
      have hvisit : ∀ name ∈ listed, ∃ found,
          Script.run handle (visit filter root level above name) state = (found, state) ∧
            ∀ names, names ∈ found ↔ ∃ rest, names = above ++ name :: rest ∧
              rest.length ≤ level ∧ Reaches filter tree above (name :: rest) := by
        intro name hname
        obtain ⟨node, hnode⟩ := hnode name hname
        exact exists_run_visit h hnode fun entries hdirectory => ih (hdirectory ▸ hnode)
      choose! found hrun hfound using hvisit
      have hcall : Script.run handle (Files.entries (above.foldl Paths.join root)).run state =
          (.ok listed, state) := hlisted
      refine ⟨(listed.map found).flatten, ?_, fun names => ?_⟩
      · rw [walk_succ, Script.run_bind_of_run hcall, Script.run_bind_of_run (Script.run_mapM hrun)]
        rfl
      · rw [List.mem_flatten]
        constructor
        · rintro ⟨part, hpart, hmem⟩
          obtain ⟨name, hname, rfl⟩ := List.mem_map.1 hpart
          obtain ⟨rest, rfl, hlength, hreaches⟩ := (hfound name hname names).1 hmem
          exact ⟨name :: rest, rfl, Nat.succ_le_succ hlength, hreaches⟩
        · rintro ⟨rest, rfl, hlength, hreaches⟩
          obtain ⟨name, after, rfl⟩ := List.exists_cons_of_ne_nil hreaches.ne_nil
          have hname : name ∈ listed := by
            obtain ⟨content, modified, hfile⟩ := hreaches.isFile
            rw [Node.find?_append, habove, Option.bind_some, Node.find?_directory_cons,
              Option.bind_eq_some_iff] at hfile
            obtain ⟨node, hget, -⟩ := hfile
            exact hperm.mem_iff.2 (Members.exists_get?_iff.1 ⟨node, hget⟩)
          refine ⟨found name, List.mem_map_of_mem hname, ?_⟩
          exact (hfound name hname _).2 ⟨after, rfl, Nat.le_of_succ_le_succ hlength, hreaches⟩

end Scan

end JsonShelf
