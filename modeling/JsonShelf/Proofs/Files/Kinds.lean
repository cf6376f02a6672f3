/-
**What stands where.**

A change of a file system makes or takes away one file or one directory.  The directories above get
other entries by it, but they are directories as before, and everything else stays as it was.  So a
change is told by what stands at each place, without what is in the directories.

Main definitions:

* `Files.Kind` — a file with its content, or a directory;
* `FileSystem.kindAt` — what stands at a place.

Main results:

* `Files.Node.kindAt_replace_directory` — **a change of one entry is a change at one place**;
* `FileSystem.leadsTo_of_directories` — paths lead where they led while the directories stay.
-/

import JsonShelf.Proofs.Files.Below

set_option autoImplicit false

namespace JsonShelf

/-- A file with its content and time of change, or a directory. -/
inductive Files.Kind where
  | file (content : ByteArray) (modified : Timestamp)
  | directory

namespace Files.Node

variable {root new node : Node} {entries : Members Node} {place other rest : List String}
  {name : String}

/-- What a node is, without what is in it. -/
def kind : Node → Kind
  | file content modified => .file content modified
  | directory _ => .directory

/-- What stands at the end of some names. -/
def kindAt (root : Node) (place : List String) : Option Kind := (root.find? place).map kind

theorem kindAt_eq_directory :
    root.kindAt place = some .directory ↔
      ∃ entries, root.find? place = some (directory entries) := by
  unfold kindAt
  cases root.find? place with
  | none => exact ⟨nofun, nofun⟩
  | some node =>
      cases node with
      | file content modified => exact ⟨nofun, nofun⟩
      | directory entries => exact ⟨fun _ => ⟨entries, rfl⟩, fun _ => rfl⟩

theorem kindAt_eq_file {content : ByteArray} {modified : Timestamp} :
    root.kindAt place = some (.file content modified) ↔
      root.find? place = some (file content modified) := by
  unfold kindAt
  cases root.find? place with
  | none => exact ⟨nofun, nofun⟩
  | some node =>
      cases node with
      | file content modified => exact ⟨fun h => by cases h; rfl, fun h => by cases h; rfl⟩
      | directory entries => exact ⟨nofun, nofun⟩

theorem kindAt_eq_none : root.kindAt place = none ↔ root.find? place = none :=
  Option.map_eq_none_iff

theorem kindAt_directory_cons : (directory entries).kindAt (name :: rest) =
    (Members.get? name entries).bind (·.kindAt rest) := by
  rw [kindAt, find?_directory_cons, Option.map_bind]
  rfl

theorem kindAt_directory_nil : (directory entries).kindAt [] = some .directory := by
  rw [kindAt, find?_nil]
  rfl

/-- There is nothing below the node. -/
def IsLeaf (node : Node) : Prop := ∀ name rest, node.kindAt (name :: rest) = none

theorem isLeaf_file (content : ByteArray) (modified : Timestamp) :
    IsLeaf (file content modified) := by
  intro name rest
  rw [kindAt, find?_cons]
  rfl

theorem isLeaf_empty : IsLeaf (directory []) := by
  intro name rest
  rw [kindAt_directory_cons]
  rfl

theorem IsLeaf.kindAt_eq (h : node.IsLeaf) :
    node.kindAt rest = if rest = [] then some node.kind else none := by
  cases rest with
  | nil => rw [kindAt, find?_nil]; rfl
  | cons name rest => rw [h name rest]; rfl

/-- Nothing stands below a place where no directory is. -/
theorem kindAt_below (h : ((Members.get? name entries).bind (·.kindAt [])) ≠ some .directory)
    (hrest : rest ≠ []) : (Members.get? name entries).bind (·.kindAt rest) = none := by
  cases hget : Members.get? name entries with
  | none => rfl
  | some node =>
      cases node with
      | file content modified =>
          rw [Option.bind_some, (isLeaf_file content modified).kindAt_eq, if_neg hrest]
      | directory inside =>
          rw [hget, Option.bind_some, kindAt_directory_nil] at h
          exact absurd rfl h

/-! ### Changes of one entry -/

theorem replace_cons_of_get? {child : Node} (hchild : Members.get? name entries = some child) :
    replace new (name :: place) (directory entries) =
      directory (Members.put name (replace new place child) entries) := by
  by_cases hplace : place = []
  · rw [hplace, replace, replace]
  · exact replace_cons hplace hchild

/-- Putting an entry into a directory is replacing the directory. -/
theorem replace_concat (h : root.find? place = some (directory entries)) :
    replace new (place ++ [name]) root =
      replace (directory (Members.put name new entries)) place root := by
  induction place generalizing root with
  | nil =>
      rw [find?_nil] at h
      cases h
      rw [List.nil_append, replace, replace]
  | cons first place ih =>
      obtain ⟨above, child, rfl, hchild, hfind⟩ := exists_child h
      rw [List.cons_append, replace_cons_of_get? hchild, replace_cons_of_get? hchild, ih hfind]

/-- Taking an entry out of a directory is replacing the directory. -/
theorem erase_concat (h : root.find? place = some (directory entries)) :
    erase (place ++ [name]) root =
      replace (directory (entries.filter (·.1 != name))) place root := by
  induction place generalizing root with
  | nil =>
      rw [find?_nil] at h
      cases h
      rw [List.nil_append, erase, replace]
  | cons first place ih =>
      obtain ⟨above, child, rfl, hchild, hfind⟩ := exists_child h
      rw [List.cons_append, replace_cons_of_get? hchild, ← ih hfind]
      cases hplace : place ++ [name] with
      | nil => exact absurd hplace (List.append_ne_nil_of_right_ne_nil place (by simp))
      | cons next rest =>
          rw [erase, hchild]
          intro hnil
          cases hnil

/-- **A change of one entry is a change at one place**, if no directory stood there and what is
there afterwards has nothing below it. -/
theorem kindAt_replace_directory {entries' : Members Node} {new? : Option Node}
    (h : root.find? place = some (directory entries))
    (hold : root.kindAt (place ++ [name]) ≠ some .directory)
    (hentries : ∀ key, Members.get? key entries' =
      if name = key then new? else Members.get? key entries)
    (hnew : ∀ new, new? = some new → new.IsLeaf) :
    (replace (directory entries') place root).kindAt other =
      if other = place ++ [name] then new?.map kind else root.kindAt other := by
  induction place generalizing root other with
  | nil =>
      rw [find?_nil] at h
      cases h
      rw [List.nil_append, kindAt_directory_cons] at hold
      rw [List.nil_append, replace]
      cases other with
      | nil => rw [kindAt_directory_nil, kindAt_directory_nil, if_neg (List.cons_ne_nil _ _).symm]
      | cons first rest =>
          rw [kindAt_directory_cons, kindAt_directory_cons, hentries]
          split
          · next heq =>
            subst heq
            by_cases hrest : rest = []
            · rw [if_pos (by rw [hrest]), hrest]
              cases new? with
              | none => rfl
              | some new => rw [Option.bind_some, (hnew new rfl).kindAt_eq, if_pos rfl]; rfl
            · rw [if_neg (by simpa using hrest), kindAt_below hold hrest]
              cases new? with
              | none => rfl
              | some new => rw [Option.bind_some, (hnew new rfl).kindAt_eq, if_neg hrest]
          · next hne => rw [if_neg fun e => hne (List.cons.inj e).1.symm]
  | cons first place ih =>
      obtain ⟨above, child, rfl, hchild, hfind⟩ := exists_child h
      rw [List.cons_append, kindAt_directory_cons, hchild, Option.bind_some] at hold
      rw [List.cons_append, replace_cons_of_get? hchild]
      cases other with
      | nil => rw [kindAt_directory_nil, kindAt_directory_nil, if_neg (List.cons_ne_nil _ _).symm]
      | cons next rest =>
          rw [kindAt_directory_cons, kindAt_directory_cons, Members.get?_put]
          split
          · next heq =>
            subst heq
            rw [Option.bind_some, ih hfind hold, hchild, Option.bind_some]
            simp
          · next hno => rw [if_neg fun e => hno (List.cons.inj e).1.symm]

/-- What stands where after something was put somewhere. -/
theorem kindAt_replace (h : root.find? place = some (directory entries))
    (hold : root.kindAt (place ++ [name]) ≠ some .directory) (hnew : new.IsLeaf) :
    (replace new (place ++ [name]) root).kindAt other =
      if other = place ++ [name] then some new.kind else root.kindAt other := by
  rw [replace_concat h, kindAt_replace_directory h hold (fun key => Members.get?_put _ _ _ _)
    (by rintro _ ⟨⟩; exact hnew)]
  rfl

/-- What stands where after something was taken away. -/
theorem kindAt_erase (h : root.find? place = some (directory entries))
    (hold : root.kindAt (place ++ [name]) ≠ some .directory) :
    (erase (place ++ [name]) root).kindAt other =
      if other = place ++ [name] then none else root.kindAt other := by
  rw [erase_concat h, kindAt_replace_directory h hold
    (fun key => Members.get?_filter_ne name key entries) nofun]
  rfl

end Files.Node

namespace FileSystem

open Files (Node Kind)

variable {fs after : FileSystem} {root name : String} {base place front : List String}

/-- What stands at a place. -/
def kindAt (fs : FileSystem) (place : List String) : Option Kind := fs.root.kindAt place

/-- What stands in a directory stands below a directory. -/
theorem kindAt_of_concat {kind : Kind} (h : fs.kindAt (place ++ [name]) = some kind) :
    fs.kindAt place = some .directory := by
  obtain ⟨node, hnode, -⟩ := Option.map_eq_some_iff.1 h
  obtain ⟨entries, hentries, -⟩ := exists_directory_of_find? hnode
  exact Node.kindAt_eq_directory.2 ⟨entries, hentries⟩

/-- A step to a directory can be made while the directories stay. -/
theorem follow_of_directories
    (hstay : ∀ place, fs.kindAt place = some .directory → after.kindAt place = some .directory)
    {next : List String} (hnext : fs.kindAt next = some .directory) {piece : String}
    (h : fs.follow place piece = .ok next) : after.follow place piece = .ok next := by
  obtain ⟨entries, hentries, h⟩ := bind_eq_ok.1 h
  have hplace : fs.kindAt place = some .directory :=
    Node.kindAt_eq_directory.2 ⟨entries, directoryAt_eq_ok.1 hentries⟩
  obtain ⟨entries', hentries'⟩ := Node.kindAt_eq_directory.1 (hstay place hplace)
  refine bind_eq_ok.2 ⟨entries', directoryAt_eq_ok.2 hentries', ?_⟩
  split at h
  · next hdot => rw [if_pos hdot]; exact h
  · next hdot =>
    rw [if_neg hdot]
    split at h
    · next hdots => rw [if_pos hdots]; exact h
    · next hdots =>
      rw [if_neg hdots]
      obtain ⟨there, hthere, h⟩ := bind_eq_ok.1 h
      obtain ⟨-, hsize⟩ := entry_eq_ok hthere
      cases there with
      | none => cases h
      | some node =>
          cases h
          obtain ⟨inside, hinside⟩ := Node.kindAt_eq_directory.1 (hstay _ hnext)
          have hget : after.root.find? (place ++ [piece]) = _ := find?_concat hentries'
          rw [hinside] at hget
          rw [entry_of_le hsize, ← hget]
          rfl

theorem foldlM_follow_of_directories
    (hstay : ∀ place, fs.kindAt place = some .directory → after.kindAt place = some .directory)
    (hbase : fs.kindAt base = some .directory) (h : front.foldlM fs.follow place = .ok base) :
    front.foldlM after.follow place = .ok base := by
  induction front generalizing place with
  | nil => exact h
  | cons piece rest ih =>
      rw [List.foldlM_cons] at h ⊢
      obtain ⟨next, hnext, h⟩ := bind_eq_ok.1 h
      have hdirectory : fs.kindAt next = some .directory := by
        cases rest with
        | nil =>
            cases h
            exact hbase
        | cons piece' rest =>
            rw [List.foldlM_cons] at h
            obtain ⟨_, hstep, -⟩ := bind_eq_ok.1 h
            obtain ⟨entries, hentries, -⟩ := bind_eq_ok.1 hstep
            exact Node.kindAt_eq_directory.2 ⟨entries, directoryAt_eq_ok.1 hentries⟩
      exact bind_eq_ok.2 ⟨next, follow_of_directories hstay hdirectory hnext, ih h⟩

/-- **Paths to directories lead where they led while the directories stay.** -/
theorem leadsTo_of_directories (hhere : after.here = fs.here)
    (hstay : ∀ place, fs.kindAt place = some .directory → after.kindAt place = some .directory)
    (h : fs.LeadsTo root base) : after.LeadsTo root base := by
  obtain ⟨front, entries, hfront, hfollow, hbase⟩ := h
  have hdirectory : fs.kindAt base = some .directory := Node.kindAt_eq_directory.2 ⟨entries, hbase⟩
  obtain ⟨entries', hentries'⟩ := Node.kindAt_eq_directory.1 (hstay base hdirectory)
  refine ⟨front, entries', hfront, ?_, hentries'⟩
  have hstart : after.start root = fs.start root := by rw [start, start, hhere]
  rw [hstart]
  exact foldlM_follow_of_directories hstay hdirectory hfollow

end FileSystem

end JsonShelf
