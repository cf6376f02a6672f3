/-
**What is written to a file is read from it.**

Writing changes one entry of one directory, and that entry was no directory before.  So every path
that could be followed still can, to the same place, and the path that was written leads to the file
with its new content.

Main results:

* `Files.Node.find?_replace_self` — the node at the changed place;
* `Files.Node.find?_replace_directory` — a directory of the tree is one of the changed tree, with at
  least its entries;
* `FileSystem.follow_put` — paths are followed as before;
* `FileSystem.exists_foldlM_put_spot` — a path leads to what is put at its spot;
* `FileSystem.read_of_write` — **a file that was written holds what was written**.
-/

import JsonShelf.Files.FileSystem
import JsonShelf.Proofs.Computation
import Mathlib.Data.List.Basic

set_option autoImplicit false

namespace JsonShelf

namespace Files.Node

variable {root new node child : Node} {entries : Members Node} {place rest : List String}
  {name : String}

/-! ### A changed tree -/

theorem find?_append (front back : List String) :
    root.find? (front ++ back) = (root.find? front).bind (·.find? back) := by
  induction front generalizing root with
  | nil => rw [List.nil_append, find?_nil, Option.bind_some]
  | cons name front ih => simp only [List.cons_append, find?_cons, Option.bind_assoc, ih]

theorem find?_directory_cons :
    (directory entries).find? (name :: rest) = (Members.get? name entries).bind (·.find? rest) := by
  rw [find?_cons, entries?, Option.bind_some]

theorem replace_cons (hrest : rest ≠ []) (hchild : Members.get? name entries = some child) :
    replace new (name :: rest) (directory entries) =
      directory (Members.put name (replace new rest child) entries) := by
  cases rest with
  | nil => exact absurd rfl hrest
  | cons next rest => rw [replace, hchild]; exact nofun

/-- The first step towards a place in a directory. -/
theorem exists_child (h : root.find? (name :: rest) = some node) :
    ∃ entries child, root = directory entries ∧ Members.get? name entries = some child ∧
      child.find? rest = some node := by
  cases root with
  | file content modified => rw [find?_cons, entries?] at h; cases h
  | directory entries =>
      rw [find?_directory_cons, Option.bind_eq_some_iff] at h
      obtain ⟨child, hchild, h⟩ := h
      exact ⟨entries, child, rfl, hchild, h⟩

theorem find?_replace_self (h : root.find? place = some (directory entries)) :
    (replace new (place ++ [name]) root).find? (place ++ [name]) = some new := by
  induction place generalizing root with
  | nil =>
      rw [find?_nil] at h
      cases h
      rw [List.nil_append, replace, find?_directory_cons, Members.get?_put, if_pos rfl,
        Option.bind_some, find?_nil]
  | cons first place ih =>
      obtain ⟨above, child, rfl, hchild, hfind⟩ := exists_child h
      have hne : place ++ [name] ≠ [] := List.append_ne_nil_of_right_ne_nil place (by simp)
      rw [List.cons_append, replace_cons hne hchild, find?_directory_cons, Members.get?_put,
        if_pos rfl, Option.bind_some, ih hfind]

theorem isSome_get?_put {key : String} (h : (Members.get? key entries).isSome) :
    (Members.get? key (Members.put name new entries)).isSome := by
  rw [Members.get?_put]
  split
  · rfl
  · exact h

/-- Under a file there is nothing. -/
theorem find?_ne_directory (hnew : ∀ inside, child ≠ directory inside) {inside : Members Node} :
    child.find? rest ≠ some (directory inside) := by
  cases child with
  | directory deeper => exact absurd rfl (hnew deeper)
  | file content modified =>
      cases rest with
      | nil =>
          rw [find?_nil]
          exact nofun
      | cons next rest =>
          rw [find?_cons, entries?]
          exact nofun

/-- A directory of the tree is one of the changed tree, with at least its entries, if what is
replaced was no directory. -/
theorem find?_replace_directory (new : Node) (h : root.find? place = some (directory entries))
    (hnew : ∀ inside, root.find? (place ++ [name]) ≠ some (directory inside)) {other : List String}
    {inside : Members Node} (hother : root.find? other = some (directory inside)) :
    ∃ inside', (replace new (place ++ [name]) root).find? other = some (directory inside') ∧
      ∀ key, (Members.get? key inside).isSome → (Members.get? key inside').isSome := by
  induction place generalizing root other with
  | nil =>
      rw [find?_nil] at h
      cases h
      rw [List.nil_append, replace]
      cases other with
      | nil =>
          rw [find?_nil] at hother
          cases hother
          exact ⟨_, find?_nil _, fun key hkey => isSome_get?_put hkey⟩
      | cons first other =>
          rw [find?_directory_cons] at hother ⊢
          refine ⟨inside, ?_, fun key hkey => hkey⟩
          rw [Members.get?_put]
          split
          · next heq =>
            -- below what is replaced there is nothing, since it is no directory
            subst heq
            rw [Option.bind_eq_some_iff] at hother
            obtain ⟨child, hchild, hfind⟩ := hother
            rw [List.nil_append, find?_directory_cons, hchild, Option.bind_some, find?_nil] at hnew
            exact absurd hfind (find?_ne_directory fun deeper e => hnew deeper (congrArg some e))
          · exact hother
  | cons first place ih =>
      obtain ⟨above, child, rfl, hchild, hfind⟩ := exists_child h
      have hne : place ++ [name] ≠ [] := List.append_ne_nil_of_right_ne_nil place (by simp)
      rw [List.cons_append, find?_directory_cons, hchild, Option.bind_some] at hnew
      rw [List.cons_append, replace_cons hne hchild]
      cases other with
      | nil =>
          rw [find?_nil] at hother
          cases hother
          exact ⟨_, find?_nil _, fun key hkey => isSome_get?_put hkey⟩
      | cons next other =>
          rw [find?_directory_cons] at hother ⊢
          rw [Members.get?_put]
          split
          · next heq =>
            subst heq
            rw [hchild, Option.bind_some] at hother
            exact ih hfind hnew hother
          · exact ⟨inside, hother, fun key hkey => hkey⟩

end Files.Node

namespace FileSystem

open Files (Fault Node)

variable {fs : FileSystem} {new : Node} {entries : Members Node} {place : List String}
  {name path : String}

/-! ### Following paths after a change -/

/-- What is found below a place stands in a directory there. -/
theorem exists_directory_of_find? {node : Node} (h : fs.root.find? (place ++ [name]) = some node) :
    ∃ inside, fs.root.find? place = some (.directory inside) ∧
      Members.get? name inside = some node := by
  rw [Node.find?_append] at h
  obtain ⟨above, habove, h⟩ := Option.bind_eq_some_iff.1 h
  obtain ⟨inside, child, rfl, hchild, h⟩ := Node.exists_child h
  rw [Node.find?_nil] at h
  cases h
  exact ⟨inside, habove, hchild⟩

theorem directoryAt_eq_ok :
    fs.directoryAt place = .ok entries ↔ fs.root.find? place = some (.directory entries) := by
  unfold directoryAt
  cases fs.root.find? place with
  | none => exact ⟨nofun, nofun⟩
  | some node =>
      cases node with
      | file content modified => exact ⟨nofun, nofun⟩
      | directory inside =>
          exact ⟨fun h => by cases h; rfl, fun h => by cases h; rfl⟩

theorem entry_eq_ok {there : Option Node} (h : entry entries name = .ok there) :
    there = Members.get? name entries ∧ name.utf8ByteSize ≤ longestName := by
  unfold entry at h
  split at h
  · cases h
  · next hname =>
    cases h
    exact ⟨rfl, Nat.le_of_not_lt hname⟩

theorem entry_of_le (h : name.utf8ByteSize ≤ longestName) :
    entry entries name = .ok (Members.get? name entries) := by
  rw [entry, if_neg (Nat.not_lt.2 h)]

/-- Paths are followed as before, to the same places. -/
theorem follow_put (h : fs.root.find? place = some (.directory entries))
    (hnew : ∀ inside, fs.root.find? (place ++ [name]) ≠ some (.directory inside))
    {before after : List String} {piece : String} (hfollow : fs.follow before piece = .ok after) :
    (fs.put (place ++ [name]) new).follow before piece = .ok after := by
  obtain ⟨inside, hinside, hfollow⟩ := bind_eq_ok.1 hfollow
  obtain ⟨inside', hinside', hkeys⟩ :=
    Node.find?_replace_directory new h hnew (directoryAt_eq_ok.1 hinside)
  refine bind_eq_ok.2 ⟨inside', directoryAt_eq_ok.2 hinside', ?_⟩
  split at hfollow
  · next hdot => rw [if_pos hdot]; exact hfollow
  · next hdot =>
    rw [if_neg hdot]
    split at hfollow
    · next hdots => rw [if_pos hdots]; exact hfollow
    · next hdots =>
      rw [if_neg hdots]
      obtain ⟨there, hthere, hfollow⟩ := bind_eq_ok.1 hfollow
      obtain ⟨rfl, hname⟩ := entry_eq_ok hthere
      cases hget : Members.get? piece inside with
      | none => rw [hget] at hfollow; cases hfollow
      | some node =>
          rw [hget] at hfollow
          cases hfollow
          obtain ⟨node', hnode'⟩ := Option.isSome_iff_exists.1 (hkeys piece (by rw [hget]; rfl))
          refine bind_eq_ok.2 ⟨some node', ?_, rfl⟩
          rw [entry_of_le hname, hnode']

theorem foldlM_follow_put (h : fs.root.find? place = some (.directory entries))
    (hnew : ∀ inside, fs.root.find? (place ++ [name]) ≠ some (.directory inside))
    {before after : List String} {pieces : List String}
    (hfollow : pieces.foldlM fs.follow before = .ok after) :
    pieces.foldlM (fs.put (place ++ [name]) new).follow before = .ok after := by
  induction pieces generalizing before with
  | nil => exact hfollow
  | cons piece rest ih =>
      rw [List.foldlM_cons] at hfollow ⊢
      obtain ⟨next, hnext, hfollow⟩ := bind_eq_ok.1 hfollow
      exact bind_eq_ok.2 ⟨next, follow_put h hnew hnext, ih hfollow⟩

/-- The spot of a new entry: the directory is there, and the path ends in the name. -/
theorem of_spot {there : Option Node} (h : fs.spot path = .ok ⟨place, some (name, there)⟩) :
    ∃ front entries, pieces path = .ok (front ++ [name]) ∧
      front.foldlM fs.follow (fs.start path) = .ok place ∧
      fs.root.find? place = some (.directory entries) ∧ there = Members.get? name entries ∧
      name ≠ "." ∧ name ≠ ".." ∧ name.utf8ByteSize ≤ longestName := by
  obtain ⟨all, hpieces, h⟩ := bind_eq_ok.1 h
  obtain ⟨dir, hfollow, h⟩ := bind_eq_ok.1 h
  obtain ⟨entries, hentries, h⟩ := bind_eq_ok.1 h
  split at h
  · cases h
  · cases h
  · cases h
  · next last hdot hdots hlast =>
    obtain ⟨there', hthere, h⟩ := bind_eq_ok.1 h
    cases h
    obtain ⟨rfl, hname⟩ := entry_eq_ok hthere
    have hsplit := List.dropLast_append_getLast? name hlast
    refine ⟨all.dropLast, entries, by rw [hsplit]; exact hpieces, hfollow,
      directoryAt_eq_ok.1 hentries, rfl, ?_, ?_, hname⟩
    · rintro rfl
      exact hdot rfl
    · rintro rfl
      exact hdots rfl

/-- What a write does: the path leads to an entry that is no directory, and is no path of a
directory. -/
theorem of_write {content : ByteArray} {after : FileSystem}
    (h : fs.write path content = .ok after) :
    ∃ place name there, fs.spot path = .ok ⟨place, some (name, there)⟩ ∧
      (∀ inside, there ≠ some (.directory inside)) ∧ endsInSlash path = false ∧
      after = fs.put (place ++ [name]) (.file content fs.clock) := by
  obtain ⟨spot, hspot, h⟩ := bind_eq_ok.1 h
  split at h
  · cases h
  · cases h
  · next place name there hno =>
    split at h
    · cases h
    · next hslash =>
      cases h
      refine ⟨place, name, there, hspot, ?_, Bool.eq_false_iff.2 hslash, rfl⟩
      rintro inside rfl
      exact hno inside rfl

/-- Where no directory is, a file is written at the spot. -/
theorem write_of_spot {there : Option Node} {content : ByteArray}
    (hspot : fs.spot path = .ok ⟨place, some (name, there)⟩)
    (hno : ∀ inside, there ≠ some (.directory inside)) (hslash : endsInSlash path = false) :
    fs.write path content = .ok (fs.put (place ++ [name]) (.file content fs.clock)) := by
  rw [write, hspot]
  cases there with
  | none =>
      show (if endsInSlash path then _ else _) = _
      rw [hslash]
      rfl
  | some node =>
      cases node with
      | directory inside => exact absurd rfl (hno inside)
      | file =>
          show (if endsInSlash path then _ else _) = _
          rw [hslash]
          rfl

/-- If an entry is no directory, no directory stands at its place. -/
theorem find?_ne_of_get? (hplace : fs.root.find? place = some (.directory entries))
    (hno : ∀ inside, Members.get? name entries ≠ some (.directory inside)) (inside : Members Node) :
    fs.root.find? (place ++ [name]) ≠ some (.directory inside) := by
  intro hinside
  obtain ⟨_, habove, hget⟩ := exists_directory_of_find? hinside
  rw [hplace] at habove
  cases habove
  exact hno inside hget

/-- A path leads to what is put at its spot, unless a directory was there. -/
theorem exists_foldlM_put_spot {there : Option Node}
    (hspot : fs.spot path = .ok ⟨place, some (name, there)⟩)
    (hno : ∀ inside, there ≠ some (.directory inside)) (node : Node) :
    ∃ front, pieces path = .ok front ∧
      front.foldlM (fs.put (place ++ [name]) node).follow (fs.start path) = .ok (place ++ [name]) ∧
      (fs.put (place ++ [name]) node).root.find? (place ++ [name]) = some node := by
  obtain ⟨front, entries, hpieces, hfollow, hplace, rfl, hdot, hdots, hname⟩ := of_spot hspot
  have hnew := find?_ne_of_get? hplace hno
  have hself : (fs.put (place ++ [name]) node).root.find? (place ++ [name]) = some node :=
    Node.find?_replace_self hplace
  -- the directories above are followed as before, and the last name leads to the new entry
  have habove : front.foldlM (fs.put (place ++ [name]) node).follow (fs.start path) = .ok place :=
    foldlM_follow_put hplace hnew hfollow
  obtain ⟨inside, hinside, hentry⟩ := exists_directory_of_find? hself
  have hlast : (fs.put (place ++ [name]) node).follow place name = .ok (place ++ [name]) := by
    refine bind_eq_ok.2 ⟨inside, directoryAt_eq_ok.2 hinside, ?_⟩
    rw [if_neg hdot, if_neg hdots]
    refine bind_eq_ok.2 ⟨_, entry_of_le hname, ?_⟩
    rw [hentry]
    rfl
  refine ⟨front ++ [name], hpieces, ?_, hself⟩
  rw [List.foldlM_append]
  refine bind_eq_ok.2 ⟨place, habove, ?_⟩
  rw [List.foldlM_cons, hlast]
  rfl

/-- **A file that was written holds what was written.** -/
theorem read_of_write {content : ByteArray} {after : FileSystem}
    (h : fs.write path content = .ok after) : after.read path = .ok content := by
  obtain ⟨place, name, there, hspot, hno, hslash, rfl⟩ := of_write h
  obtain ⟨front, hpieces, hfollow, hself⟩ :=
    exists_foldlM_put_spot hspot hno (.file content fs.clock)
  have hlocate : (fs.put (place ++ [name]) (.file content fs.clock)).locate path =
      .ok (place ++ [name], .file content fs.clock) := by
    refine bind_eq_ok.2 ⟨front, hpieces, bind_eq_ok.2 ⟨place ++ [name], hfollow, ?_⟩⟩
    rw [hself]
    simp [hslash]
    rfl
  exact bind_eq_ok.2 ⟨_, hlocate, rfl⟩

end FileSystem

end JsonShelf
