/-
**Calls on one file.**

What a call on a file below a directory does is told by what stands at the place of the file: a file
with its content, or nothing.  If nothing stands there, the file is not found, however many of the
directories above it are missing too; a file in their place would be another fault, so there must be
none.

Main results:

* `FileSystem.status_file`, `FileSystem.read_file`, `FileSystem.remove_file` — a file that is there;
* `FileSystem.write_entry`, `FileSystem.create_missing` — a file in a directory that is there;
* `FileSystem.remove_missing` — **what is not there is not found**, in a directory or without one;
* `FileSystem.kindAt_remove` — what stands where after a file was taken away.
-/

import JsonShelf.Proofs.Files.NewFile

set_option autoImplicit false

namespace JsonShelf.FileSystem

open Files (Fault Kind Node)
open Paths (IsStep)

variable {fs : FileSystem} {root name : String} {base names above place : List String}
  {content : ByteArray} {modified : Timestamp}

/-! ### Looking at a file -/

theorem locate_file (hroot : fs.LeadsTo root base) (h : Fits root names)
    (hfile : fs.kindAt (base ++ names) = some (.file content modified)) :
    fs.locate (names.foldl Paths.join root) = .ok (base ++ names, .file content modified) :=
  locate_of_find? hroot h (Node.kindAt_eq_file.1 hfile)

theorem status_file (hroot : fs.LeadsTo root base) (h : Fits root names)
    (hfile : fs.kindAt (base ++ names) = some (.file content modified)) :
    fs.status (names.foldl Paths.join root) =
      .ok ⟨false, fs.programs.contains (base ++ names), content.size, some modified⟩ := by
  rw [status, locate_file hroot h hfile]
  rfl

theorem read_file (hroot : fs.LeadsTo root base) (h : Fits root names)
    (hfile : fs.kindAt (base ++ names) = some (.file content modified)) :
    fs.read (names.foldl Paths.join root) = .ok content := by
  rw [read, locate_file hroot h hfile]
  rfl

theorem locate_nothing (hroot : fs.LeadsTo root base) (h : Fits root names)
    (hmissing : fs.kindAt (base ++ names) = none) (hclear : fs.Clear base names) :
    fs.locate (names.foldl Paths.join root) = .error .notFound :=
  locate_of_missing hroot h (Node.kindAt_eq_none.1 hmissing) hclear

theorem status_nothing (hroot : fs.LeadsTo root base) (h : Fits root names)
    (hmissing : fs.kindAt (base ++ names) = none) (hclear : fs.Clear base names) :
    fs.status (names.foldl Paths.join root) = .error .notFound := by
  rw [status, locate_nothing hroot h hmissing hclear]
  rfl

theorem read_nothing (hroot : fs.LeadsTo root base) (h : Fits root names)
    (hmissing : fs.kindAt (base ++ names) = none) (hclear : fs.Clear base names) :
    fs.read (names.foldl Paths.join root) = .error .notFound := by
  rw [read, locate_nothing hroot h hmissing hclear]
  rfl

/-! ### Changing a file -/

/-- The spot of a file in a directory that is there, with what stands at its place. -/
theorem exists_spot (hroot : fs.LeadsTo root base) (h : Fits root (above ++ [name]))
    (habove : fs.kindAt (base ++ above) = some .directory) :
    ∃ there, fs.spot ((above ++ [name]).foldl Paths.join root) =
        .ok ⟨base ++ above, some (name, there)⟩ ∧
      there.map Node.kind = fs.kindAt (base ++ above ++ [name]) := by
  obtain ⟨entries, hentries⟩ := Node.kindAt_eq_directory.1 habove
  refine ⟨_, spot_of_directory hroot h hentries, ?_⟩
  rw [kindAt, Node.kindAt, find?_concat hentries]

theorem write_entry (hroot : fs.LeadsTo root base) (h : Fits root (above ++ [name]))
    (habove : fs.kindAt (base ++ above) = some .directory)
    (hold : fs.kindAt (base ++ above ++ [name]) ≠ some .directory) :
    fs.write ((above ++ [name]).foldl Paths.join root) content =
      .ok (fs.put (base ++ above ++ [name]) (.file content fs.clock)) := by
  obtain ⟨there, hspot, hthere⟩ := exists_spot hroot h habove
  refine write_of_spot hspot ?_ (endsInSlash_foldl_join root h.isStep (by simp))
  rintro inside rfl
  exact hold hthere.symm

theorem create_missing (hroot : fs.LeadsTo root base) (h : Fits root (above ++ [name]))
    (habove : fs.kindAt (base ++ above) = some .directory)
    (hmissing : fs.kindAt (base ++ above ++ [name]) = none) :
    fs.attempt (Files.create ((above ++ [name]).foldl Paths.join root) content) =
      (.ok (), fs.put (base ++ above ++ [name]) (.file content fs.clock)) := by
  obtain ⟨there, hspot, hthere⟩ := exists_spot hroot h habove
  rw [hmissing, Option.map_eq_none_iff] at hthere
  subst hthere
  exact attempt_create_of_spot hspot (endsInSlash_foldl_join root h.isStep (by simp)) content

/-- What is there is not made again. -/
theorem create_file (hroot : fs.LeadsTo root base) (h : Fits root (above ++ [name]))
    {old : ByteArray} (hfile : fs.kindAt (base ++ above ++ [name]) = some (.file old modified)) :
    fs.attempt (Files.create ((above ++ [name]).foldl Paths.join root) content) =
      (.error .alreadyExists, fs) := by
  obtain ⟨there, hspot, hthere⟩ := exists_spot hroot h (kindAt_of_concat hfile)
  have hslash := endsInSlash_foldl_join root h.isStep (by simp)
  rw [hfile] at hthere
  obtain ⟨node, rfl, -⟩ := Option.map_eq_some_iff.1 hthere
  refine attempt_create_of_error ?_
  rw [makeFile, hspot]
  show (if endsInSlash _ then _ else _) = _
  rw [hslash]
  rfl

theorem remove_file (hroot : fs.LeadsTo root base) (h : Fits root (above ++ [name]))
    (hfile : fs.kindAt (base ++ above ++ [name]) = some (.file content modified)) :
    fs.remove ((above ++ [name]).foldl Paths.join root) =
      .ok { fs with root := Node.erase (base ++ above ++ [name]) fs.root } := by
  obtain ⟨there, hspot, hthere⟩ := exists_spot hroot h (kindAt_of_concat hfile)
  have hslash := endsInSlash_foldl_join root h.isStep (by simp)
  rw [hfile] at hthere
  obtain ⟨node, rfl, hnode⟩ := Option.map_eq_some_iff.1 hthere
  cases node with
  | directory entries => cases hnode
  | file =>
      rw [remove, hspot]
      show (if endsInSlash _ then _ else _) = _
      rw [hslash]
      rfl

/-- **What is not there is not found**, in a directory or without one. -/
theorem remove_missing (hroot : fs.LeadsTo root base) (h : Fits root (above ++ [name]))
    (hmissing : fs.kindAt (base ++ above ++ [name]) = none)
    (hclear : fs.Clear base (above ++ [name])) :
    fs.remove ((above ++ [name]).foldl Paths.join root) = .error .notFound := by
  have hpassable := hclear.passable
  cases habove : fs.kindAt (base ++ above) with
  | none =>
      have hspot := spot_of_missing hroot h (Node.kindAt_eq_none.1 habove) hpassable.clear
      rw [remove, hspot]
      rfl
  | some kind =>
      cases kind with
      | file content modified => exact absurd habove (hpassable above (List.prefix_refl _) _ _)
      | directory =>
          obtain ⟨there, hspot, hthere⟩ := exists_spot hroot h habove
          rw [hmissing, Option.map_eq_none_iff] at hthere
          rw [remove, hspot, hthere]
          rfl

/-- What stands where after a file was taken away. -/
theorem kindAt_remove (hfile : fs.kindAt (place ++ [name]) = some (.file content modified))
    (other : List String) :
    FileSystem.kindAt { fs with root := Node.erase (place ++ [name]) fs.root } other =
      if other = place ++ [name] then none else fs.kindAt other := by
  obtain ⟨entries, hentries⟩ := Node.kindAt_eq_directory.1 (kindAt_of_concat hfile)
  refine Node.kindAt_erase hentries ?_
  show fs.kindAt (place ++ [name]) ≠ _
  rw [hfile]
  exact nofun

end JsonShelf.FileSystem
