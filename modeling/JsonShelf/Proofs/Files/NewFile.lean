/-
**Making a file.**

A file is made in two steps: an empty file first, which must not exist, and then its content.  On a
file system that runs out of nothing the second step always succeeds after the first.  Where it
fails, the file is taken away again, so that nothing is left of a file that could not be filled.

Main definitions:

* `FileSystem.performFull` — a file system without space, where only a part of a content arrives.

Main results:

* `Files.Node.replace_replace`, `Files.Node.erase_replace` — a change at a place that was changed;
* `Files.run_create_of_failed_write` — on every system a file that cannot be filled is taken away;
* `FileSystem.attempt_create_or` — **a file is made at a free spot with its content, or nothing
  changes**;
* `FileSystem.run_create_full` — **without space no file is made, and nothing is left of it**.
-/

import JsonShelf.Proofs.Files.Directories

set_option autoImplicit false

namespace JsonShelf

namespace Files.Node

variable {root new node : Node} {entries : Members Node} {place : List String} {name : String}

/-! ### Changes at a place that was changed -/

/-- The second change at a place counts. -/
theorem replace_replace (new old : Node) (place : List String) (root : Node) :
    replace new place (replace old place root) = replace new place root := by
  induction place generalizing root with
  | nil => rw [replace, replace]
  | cons name place ih =>
      cases root with
      | file content modified => rw [replace, replace]
      | directory entries =>
          cases hchild : Members.get? name entries with
          | some child =>
              have hself : Members.get? name (Members.put name (replace old place child) entries) =
                  some (replace old place child) := Members.get?_put_self _ _ _
              rw [replace_cons_of_get? hchild, replace_cons_of_get? hself, ih, Members.put_put_self,
                replace_cons_of_get? hchild]
          | none =>
              cases place with
              | nil => rw [replace, replace, replace, Members.put_put_self]
              | cons next place =>
                  have hne := List.cons_ne_nil next place
                  rw [replace, hchild, replace, hchild] <;> exact hne

/-- What was put in the place of a node is found there. -/
theorem find?_replace (h : root.find? place = some node) :
    (replace new place root).find? place = some new := by
  induction place generalizing root with
  | nil => rw [replace, find?_nil]
  | cons name place ih =>
      obtain ⟨above, child, rfl, hchild, hfind⟩ := exists_child h
      rw [replace_cons_of_get? hchild, find?_directory_cons, Members.get?_put, if_pos rfl,
        Option.bind_some, ih hfind]

/-- Putting what is there changes nothing. -/
theorem replace_self (h : root.find? place = some node) : replace node place root = root := by
  induction place generalizing root with
  | nil =>
      rw [find?_nil] at h
      cases h
      rw [replace]
  | cons name place ih =>
      obtain ⟨above, child, rfl, hchild, hfind⟩ := exists_child h
      rw [replace_cons_of_get? hchild, ih hfind, Members.put_of_get? hchild]

/-- What was put where nothing was is taken away without a trace. -/
theorem erase_replace (h : root.find? place = some (directory entries))
    (hmissing : Members.get? name entries = none) :
    erase (place ++ [name]) (replace new (place ++ [name]) root) = root := by
  rw [replace_concat h, erase_concat (find?_replace h), replace_replace,
    Members.filter_put_of_get? hmissing, replace_self h]

end Files.Node

namespace Files

variable {σ α : Type} {handle : (c : Call) → σ → c.Reply × σ} {state made failed filled : σ}
  {path : String} {content : ByteArray} {fault : Fault}

/-! ### Any system -/

/-- An attempt is made to its end, and what comes of it is told. -/
theorem run_outcome (handle : (c : Call) → σ → c.Reply × σ) (x : Attempt α) (state : σ) :
    Script.run handle (outcome x).run state =
      (.ok (Script.run handle x.run state).1, (Script.run handle x.run state).2) := by
  rw [outcome, ExceptT.run_lift]
  exact Script.run_map handle Except.ok x.run state

/-- If the empty file cannot be made, nothing else is tried. -/
theorem run_create_of_failed_make (hmake : handle (.makeFile path) state = (.error fault, made)) :
    Script.run handle (create path content).run state = (.error fault, made) := by
  have hfirst : Script.run handle (makeFile path).run state = (.error fault, made) := hmake
  rw [create, Script.run_except_bind, hfirst]

/-- Once the empty file is made, all that is left to do is to fill it. -/
theorem run_create_of_make (hmake : handle (.makeFile path) state = (.ok (), made)) :
    Script.run handle (create path content).run state =
      Script.run handle (fillNew path content).run made := by
  have hfirst : Script.run handle (makeFile path).run state = (.ok (), made) := hmake
  rw [create, Script.run_except_bind, hfirst]

/-- If the content cannot be written, the file is taken away again, and why it cannot be written is
told. -/
theorem run_create_of_failed_write (hmake : handle (.makeFile path) state = (.ok (), made))
    (hwrite : handle (.write path content) made = (.error fault, failed)) :
    Script.run handle (create path content).run state =
      (.error fault, (handle (.remove path) failed).2) := by
  have hfirst : Script.run handle (write path content).run made = (.error fault, failed) := hwrite
  have hlast : Script.run handle (remove path).run failed = handle (.remove path) failed := rfl
  rw [run_create_of_make hmake, fillNew, Script.run_except_bind, run_outcome, hfirst]
  show Script.run handle (outcome (remove path) >>= fun _ => throw fault).run failed = _
  rw [Script.run_except_bind, run_outcome, hlast]
  rfl

/-- If the content is written, the file stays. -/
theorem run_create_of_write (hmake : handle (.makeFile path) state = (.ok (), made))
    (hwrite : handle (.write path content) made = (.ok (), filled)) :
    Script.run handle (create path content).run state = (.ok (), filled) := by
  have hfirst : Script.run handle (write path content).run made = (.ok (), filled) := hwrite
  rw [run_create_of_make hmake, fillNew, Script.run_except_bind, run_outcome, hfirst]
  rfl

end Files

namespace FileSystem

open Files (Fault Node Call)

variable {fs made : FileSystem} {place : List String} {name path : String} {content : ByteArray}
  {fault : Fault}

/-! ### A file system that runs out of nothing -/

/-- Where an empty file was made, there was a free spot. -/
theorem of_makeFile (h : fs.makeFile path = .ok made) :
    ∃ place name, fs.spot path = .ok ⟨place, some (name, none)⟩ ∧ endsInSlash path = false ∧
      made = fs.put (place ++ [name]) (.file .empty fs.clock) := by
  obtain ⟨spot, hspot, h⟩ := bind_eq_ok.1 h
  split at h
  · cases h
  · next place name there =>
    split at h
    · cases h
    · next hslash =>
      split at h
      · cases h
      · next hfree =>
        cases h
        obtain rfl : there = none := by simpa using hfree
        exact ⟨place, name, hspot, Bool.eq_false_iff.2 hslash, rfl⟩

theorem makeFile_of_spot (hspot : fs.spot path = .ok ⟨place, some (name, none)⟩)
    (hslash : endsInSlash path = false) :
    fs.makeFile path = .ok (fs.put (place ++ [name]) (.file .empty fs.clock)) := by
  rw [makeFile, hspot]
  show (if endsInSlash path then _ else _) = _
  rw [hslash]
  rfl

/-- A free spot is the spot of what is put there. -/
theorem spot_put (hspot : fs.spot path = .ok ⟨place, some (name, none)⟩) (node : Node) :
    (fs.put (place ++ [name]) node).spot path = .ok ⟨place, some (name, some node)⟩ := by
  obtain ⟨front, entries, hpieces, hfollow, hplace, hfree, hdot, hdots, hname⟩ := of_spot hspot
  have hnew := find?_ne_of_get? hplace (by rw [← hfree]; exact nofun)
  have hself : (fs.put (place ++ [name]) node).root.find? (place ++ [name]) = some node :=
    Node.find?_replace_self hplace
  obtain ⟨inside, hinside, hentry⟩ := exists_directory_of_find? hself
  have habove : front.foldlM (fs.put (place ++ [name]) node).follow (fs.start path) = .ok place :=
    foldlM_follow_put hplace hnew hfollow
  rw [spot_concat hpieces habove hinside, if_neg (not_or.2 ⟨hdot, hdots⟩), entry_of_le hname,
    hentry]
  rfl

theorem put_put (fs : FileSystem) (place : List String) (old new : Node) :
    (fs.put place old).put place new = fs.put place new := by
  rw [put, put, put, Node.replace_replace]

/-- An empty file that was just made can be filled. -/
theorem write_put_of_spot (hspot : fs.spot path = .ok ⟨place, some (name, none)⟩)
    (hslash : endsInSlash path = false) (content : ByteArray) :
    (fs.put (place ++ [name]) (.file .empty fs.clock)).write path content =
      .ok (fs.put (place ++ [name]) (.file content fs.clock)) := by
  have hspot' := spot_put hspot (.file .empty fs.clock)
  exact (write_of_spot hspot' nofun hslash).trans (congrArg Except.ok (put_put _ _ _ _))

/-- At a free spot a file is made, with its content. -/
theorem attempt_create_of_spot (hspot : fs.spot path = .ok ⟨place, some (name, none)⟩)
    (hslash : endsInSlash path = false) (content : ByteArray) :
    fs.attempt (Files.create path content) =
      (.ok (), fs.put (place ++ [name]) (.file content fs.clock)) := by
  have hmake : perform (.makeFile path) fs = _ :=
    congrArg fs.commit (makeFile_of_spot hspot hslash)
  exact Files.run_create_of_write hmake
    (congrArg (commit _) (write_put_of_spot hspot hslash content))

/-- Where no empty file can be made, nothing is. -/
theorem attempt_create_of_error (h : fs.makeFile path = .error fault) :
    fs.attempt (Files.create path content) = (.error fault, fs) :=
  Files.run_create_of_failed_make (congrArg fs.commit h)

/-- **A file is made at a free spot with its content, or nothing changes.** -/
theorem attempt_create_or (fs : FileSystem) (path : String) (content : ByteArray) :
    (∃ fault, fs.attempt (Files.create path content) = (.error fault, fs)) ∨
      ∃ place name, fs.spot path = .ok ⟨place, some (name, none)⟩ ∧ endsInSlash path = false ∧
        fs.attempt (Files.create path content) =
          (.ok (), fs.put (place ++ [name]) (.file content fs.clock)) := by
  cases hmake : fs.makeFile path with
  | error fault => exact .inl ⟨fault, attempt_create_of_error hmake⟩
  | ok made =>
      obtain ⟨place, name, hspot, hslash, -⟩ := of_makeFile hmake
      exact .inr ⟨place, name, hspot, hslash, attempt_create_of_spot hspot hslash content⟩

/-! ### A file system without space -/

/-- Why nothing can be written. -/
def noSpace : Fault := .other "No space left on device (os error 28)"

/-- The reply of a file system without space: only a part of a content arrives in a file. -/
def performFull (part : ByteArray) : (c : Call) → FileSystem → c.Reply × FileSystem
  | .write path _, fs =>
    match fs.write path part with
    | .ok changed => (.error noSpace, changed)
    | .error fault => (.error fault, fs)
  | c, fs => perform c fs

theorem performFull_write {part : ByteArray} (h : fs.write path part = .ok made) :
    performFull part (.write path content) fs = (.error noSpace, made) := by
  rw [performFull, h]

/-- What was put at a free spot is taken away without a trace. -/
theorem remove_put_of_spot (hspot : fs.spot path = .ok ⟨place, some (name, none)⟩)
    (hslash : endsInSlash path = false) (content : ByteArray) :
    (fs.put (place ++ [name]) (.file content fs.clock)).remove path = .ok fs := by
  obtain ⟨front, entries, -, -, hplace, hfree, -⟩ := of_spot hspot
  rw [remove, spot_put hspot]
  show (if endsInSlash path then _ else
    Except.ok { fs with root := Node.erase _ (Node.replace _ _ _) }) = _
  rw [hslash, Node.erase_replace hplace hfree.symm]
  rfl

/-- **Without space no file is made, and nothing is left of the attempt.** -/
theorem run_create_full (fs : FileSystem) (path : String) (content part : ByteArray) :
    ∃ fault, Script.run (performFull part) (Files.create path content).run fs =
      (.error fault, fs) := by
  cases hmake : fs.makeFile path with
  | error fault =>
      exact ⟨fault, Files.run_create_of_failed_make (congrArg fs.commit hmake)⟩
  | ok made =>
      obtain ⟨place, name, hspot, hslash, rfl⟩ := of_makeFile hmake
      have hfirst : performFull part (.makeFile path) fs = _ := congrArg fs.commit hmake
      have hwrite : performFull part (.write path content) _ = _ :=
        performFull_write (write_put_of_spot hspot hslash part)
      have hrun := Files.run_create_of_failed_write hfirst hwrite
      refine ⟨noSpace, hrun.trans ?_⟩
      show (_, (commit _ (FileSystem.remove _ path)).2) = _
      rw [remove_put_of_spot hspot hslash part]
      rfl

end FileSystem

end JsonShelf
