/-
**Paths below a directory.**

A path made of names behind the path of a directory is followed from the place of this directory,
name by name.  It leads to what stands at the end of the names, and if nothing stands there it is
not found, unless a file is in the way.

Main definitions:

* `Files.Node.places` — the places in a tree of files;
* `FileSystem.namesOf` — the pieces of a path that are followed;
* `FileSystem.Fits` — the system takes some names behind a path.

Main results:

* `FileSystem.pieces_foldl_join` — the pieces of a path made of names;
* `FileSystem.locate_of_find?`, `FileSystem.locate_of_missing` — **where such a path leads**;
* `FileSystem.serves` — a file system answers from the tree of a directory.
-/

import JsonShelf.Proofs.Files.ReadAfterWrite
import JsonShelf.Proofs.Scan.Names
import JsonShelf.Proofs.Scan.Walk

set_option autoImplicit false

namespace JsonShelf

/-! ### All places -/

namespace Files.Node

variable {tree node : Node} {names : List String} {name : String} {entries : Members Node}

mutual

/-- The places in a tree, each as the names that lead to it. -/
def places : Node → List (List String)
  | file .. => [[]]
  | directory entries => [] :: placesOfEntries entries

/-- `Files.Node.places` for the entries of a directory. -/
def placesOfEntries : List (String × Node) → List (List String)
  | [] => []
  | (name, node) :: rest => node.places.map (name :: ·) ++ placesOfEntries rest

end

theorem mem_placesOfEntries (h : Members.get? name entries = some node)
    (hnames : names ∈ node.places) : name :: names ∈ placesOfEntries entries := by
  induction entries with
  | nil => cases h
  | cons entry rest ih =>
      obtain ⟨key, child⟩ := entry
      rw [Members.get?_cons] at h
      rw [placesOfEntries, List.mem_append]
      split at h
      · next heq =>
        subst heq
        cases h
        exact .inl (List.mem_map_of_mem hnames)
      · exact .inr (ih h)

theorem mem_places (h : tree.find? names = some node) : names ∈ tree.places := by
  induction names generalizing tree with
  | nil => cases tree <;> simp [places]
  | cons name rest ih =>
      obtain ⟨entries, child, rfl, hchild, hfind⟩ := exists_child h
      rw [places]
      exact List.mem_cons_of_mem _ (mem_placesOfEntries hchild (ih hfind))

end Files.Node

namespace FileSystem

open Files (Fault Node)
open Paths (IsStep)

variable {fs : FileSystem} {root name path : String} {names above front place base : List String}
  {node : Node} {entries : Members Node} {cs : List Char}

/-! ### Pieces -/

/-- The pieces of a path that are followed. -/
def namesOf (cs : List Char) : List String :=
  ((cs.splitOnP (· == '/')).filter (!·.isEmpty)).map String.ofList

/-- The names among some pieces. -/
def namesOfPieces (ps : List (List Char)) : List String :=
  (ps.filter (!·.isEmpty)).map String.ofList

theorem pieces_eq_ok : pieces path = .ok front ↔ '\x00' ∉ path.toList ∧ path ≠ "" ∧
    path.utf8ByteSize ≤ longestPath ∧ front = namesOf path.toList := by
  unfold pieces namesOf
  split
  · next hnul => simp [List.contains_iff_mem.1 hnul]
  · next hnul =>
    rw [List.contains_iff_mem] at hnul
    split
    · next hempty => simp [String.isEmpty_iff.1 hempty]
    · next hempty =>
      have hne : path ≠ "" := fun e => hempty (String.isEmpty_iff.2 e)
      split
      · next hlong => simp [Nat.not_le.2 hlong]
      · next hlong =>
        simp only [hnul, not_false_eq_true, hne, ne_eq, Nat.le_of_not_lt hlong, true_and,
          Except.ok.injEq]
        exact eq_comm

theorem namesOf_append_slash (front back : List Char) :
    namesOf (front ++ '/' :: back) = namesOf front ++ namesOf back := by
  rw [namesOf, List.splitOnP_append_cons front back rfl, List.filter_append, List.map_append]
  rfl

/-- The pieces of a text without slashes in it is the text. -/
theorem namesOf_of_isStep (h : IsStep name) : namesOf name.toList = [name] := by
  have hne := Scan.toList_ne_nil h
  rw [namesOf, Paths.splitOnP_of_notMem h.slash_notMem]
  simp [hne]

/-- Pieces that are no component are dots. -/
theorem namesOfPieces_of_idle {ps : List (List Char)}
    (h : ∀ piece ∈ ps, Paths.isIdle piece = true) : ∀ name ∈ namesOfPieces ps, name = "." := by
  intro name hname
  obtain ⟨piece, hpiece, rfl⟩ := List.mem_map.1 hname
  obtain ⟨hmem, hne⟩ := List.mem_filter.1 hpiece
  rcases Paths.isIdle_iff.1 (h piece hmem) with rfl | rfl
  · cases hne
  · rfl

/-- A slash at the end makes no piece. -/
theorem namesOf_concat_slash (front : List Char) : namesOf (front ++ ['/']) = namesOf front := by
  rw [namesOf_append_slash]
  exact List.append_nil _

theorem namesOf_intercalate (h : ∀ name ∈ names, IsStep name) :
    namesOf ("/".intercalate names).toList = names := by
  induction names with
  | nil => decide
  | cons first others ih =>
      have hfirst := namesOf_of_isStep (h first List.mem_cons_self)
      by_cases hnil : others = []
      · rw [hnil, String.intercalate_singleton, hfirst]
      · rw [Scan.toList_intercalate_cons hnil, namesOf_append_slash, hfirst,
          ih fun name hname => h name (List.mem_cons_of_mem _ hname)]
        rfl

/-- What stands between a base and a path behind it makes no piece. -/
theorem namesOf_separator (root : String) (back : List Char) (hroot : root ≠ "") :
    namesOf ((root ++ Scan.separator root).toList ++ back) =
      namesOf root.toList ++ namesOf back := by
  unfold Scan.separator
  split
  · next hend =>
    have hslash : root.toList.getLast? = some '/' := by simpa [hroot] using hend
    obtain ⟨front, hfront⟩ := List.getLast?_eq_some_iff.1 hslash
    rw [String.append_empty, hfront, List.append_assoc]
    refine (namesOf_append_slash front back).trans ?_
    rw [namesOf_concat_slash]
  · rw [String.toList_append, List.append_assoc]
    exact namesOf_append_slash root.toList back

/-! ### Paths that go on -/

/-- What stands at the start of a path starts where the path does. -/
theorem start_of_isPrefix {front : String} (h : front.toList <+: path.toList) (hne : front ≠ "")
    (fs : FileSystem) : fs.start front = fs.start path := by
  obtain ⟨back, hback⟩ := h
  obtain ⟨c, rest, hcs⟩ := List.exists_cons_of_ne_nil fun e => hne (String.toList_eq_nil_iff.1 e)
  rw [start, start, ← hback, hcs]
  rfl

/-- What stands at the start of a path can be followed if the path can. -/
theorem pieces_of_isPrefix {front : String} (h : front.toList <+: path.toList) (hne : front ≠ "")
    (hpath : pieces path = .ok (namesOf path.toList)) :
    pieces front = .ok (namesOf front.toList) := by
  obtain ⟨back, hback⟩ := h
  obtain ⟨hnul, -, hsize, -⟩ := pieces_eq_ok.1 hpath
  refine pieces_eq_ok.2 ⟨?_, hne, Nat.le_trans ?_ hsize, rfl⟩
  · intro hmem
    exact hnul (hback ▸ List.mem_append_left back hmem)
  · have htext : front ++ String.ofList back = path := by
      rw [← String.ofList_toList (s := path), ← hback, String.ofList_append, String.ofList_toList]
    rw [← htext, String.utf8ByteSize_append]
    exact Nat.le_add_right _ _

/-! ### Names that the system takes -/

/-- The system takes some names behind a path: neither they nor the whole path are too long, and
there is no character in them that no path can hold. -/
structure Fits (root : String) (names : List String) : Prop where
  isStep : ∀ name ∈ names, IsStep name
  size_le : ∀ name ∈ names, name.utf8ByteSize ≤ longestName
  nul_notMem : ∀ name ∈ names, '\x00' ∉ name.toList
  path_le : (names.foldl Paths.join root).utf8ByteSize ≤ longestPath

instance (name : String) : Decidable (IsStep name) :=
  decidable_of_iff (name ≠ "" ∧ name ≠ "." ∧ name ≠ ".." ∧ '/' ∉ name.toList ∧ '\\' ∉ name.toList)
    ⟨fun ⟨hempty, hdot, hdots, hslash, hbackslash⟩ => ⟨hempty, hdot, hdots, hslash, hbackslash⟩,
      fun h => ⟨h.ne_empty, h.ne_dot, h.ne_dots, h.slash_notMem, h.backslash_notMem⟩⟩

instance (root : String) (names : List String) : Decidable (Fits root names) :=
  decidable_of_iff ((∀ name ∈ names, IsStep name) ∧
      (∀ name ∈ names, name.utf8ByteSize ≤ longestName) ∧
      (∀ name ∈ names, '\x00' ∉ name.toList) ∧
      (names.foldl Paths.join root).utf8ByteSize ≤ longestPath)
    ⟨fun ⟨hsteps, hsizes, hnul, hpath⟩ => ⟨hsteps, hsizes, hnul, hpath⟩,
      fun h => ⟨h.isStep, h.size_le, h.nul_notMem, h.path_le⟩⟩

/-- Names read from a base make its path longer. -/
theorem size_le_foldl_join (root : String) (h : ∀ name ∈ names, IsStep name) :
    root.utf8ByteSize ≤ (names.foldl Paths.join root).utf8ByteSize := by
  induction names generalizing root with
  | nil => exact Nat.le_refl _
  | cons name rest ih =>
      refine Nat.le_trans ?_ (ih (Paths.join root name) fun n hn => h n (List.mem_cons_of_mem _ hn))
      rw [Scan.join_eq root (Scan.isAbsolute_of_isStep (h name List.mem_cons_self)),
        String.utf8ByteSize_append, String.utf8ByteSize_append]
      omega

/-- What holds of names holds of those above them. -/
theorem Fits.of_above (h : Fits root names) (habove : above <+: names) : Fits root above := by
  obtain ⟨back, rfl⟩ := habove
  have hleft : ∀ name ∈ above, name ∈ above ++ back := fun name => List.mem_append_left back
  refine ⟨fun n hn => h.isStep n (hleft n hn), fun n hn => h.size_le n (hleft n hn),
    fun n hn => h.nul_notMem n (hleft n hn), Nat.le_trans ?_ h.path_le⟩
  rw [List.foldl_append]
  exact size_le_foldl_join _ fun n hn => h.isStep n (List.mem_append_right above hn)

/-- **The pieces of a path made of names.** -/
theorem pieces_foldl_join (hroot : pieces root = .ok front) (h : Fits root names) :
    pieces (names.foldl Paths.join root) = .ok (front ++ names) := by
  by_cases hnil : names = []
  · rw [hnil, List.foldl_nil, List.append_nil, hroot]
  obtain ⟨hnul, hne, -, rfl⟩ := pieces_eq_ok.1 hroot
  have htext := Scan.foldl_join root h.isStep hnil
  refine pieces_eq_ok.2 ⟨?_, ?_, h.path_le, ?_⟩
  · rw [htext, String.toList_append, List.mem_append, not_or]
    refine ⟨?_, Scan.notMem_intercalate (by decide) h.nul_notMem⟩
    rw [String.toList_append, List.mem_append, not_or]
    refine ⟨hnul, ?_⟩
    unfold Scan.separator
    split <;> decide
  · rw [htext]
    intro hempty
    exact hne (String.append_eq_empty_iff.1 (String.append_eq_empty_iff.1 hempty).1).1
  · rw [htext, String.toList_append, namesOf_separator root _ hne, namesOf_intercalate h.isStep]

/-- Such a path starts where its base does. -/
theorem start_foldl_join (hroot : root ≠ "") (h : ∀ name ∈ names, IsStep name) :
    fs.start (names.foldl Paths.join root) = fs.start root := by
  by_cases hnil : names = []
  · rw [hnil, List.foldl_nil]
  obtain ⟨c, rest, hcs⟩ := List.exists_cons_of_ne_nil fun e => hroot (String.toList_eq_nil_iff.1 e)
  have habsolute : Paths.isAbsolute (names.foldl Paths.join root).toList =
      Paths.isAbsolute root.toList := by
    rw [Scan.foldl_join root h hnil, String.toList_append, String.toList_append, hcs]
    rfl
  rw [start, start, habsolute]

theorem endsInSlash_foldl_join (root : String) (h : ∀ name ∈ names, IsStep name)
    (hne : names ≠ []) : endsInSlash (names.foldl Paths.join root) = false := by
  have hlast := Scan.getLast?_intercalate (root ++ Scan.separator root) h hne
  rw [endsInSlash, Scan.foldl_join root h hne]
  simpa using hlast

/-! ### Following names -/

theorem follow_of_isStep (hplace : fs.root.find? place = some (.directory entries))
    (hname : IsStep name) (hsize : name.utf8ByteSize ≤ longestName) :
    fs.follow place name =
      if (Members.get? name entries).isSome then .ok (place ++ [name]) else .error .notFound := by
  rw [follow, directoryAt_eq_ok.2 hplace]
  show (if name = "." then _ else _) = _
  rw [if_neg hname.ne_dot, if_neg hname.ne_dots, entry_of_le hsize]
  cases Members.get? name entries <;> rfl

/-- A node stands at the end of a name in a directory. -/
theorem find?_concat (hplace : fs.root.find? place = some (.directory entries)) :
    fs.root.find? (place ++ [name]) = Members.get? name entries := by
  rw [Node.find?_append, hplace, Option.bind_some, Node.find?_directory_cons]
  cases Members.get? name entries with
  | none => rfl
  | some node => exact Node.find?_nil node

/-- Names are followed to the node at their end. -/
theorem foldlM_follow_of_find? (hsteps : ∀ name ∈ names, IsStep name)
    (hsizes : ∀ name ∈ names, name.utf8ByteSize ≤ longestName)
    (h : fs.root.find? (place ++ names) = some node) :
    names.foldlM fs.follow place = .ok (place ++ names) := by
  induction names generalizing place with
  | nil => rw [List.append_nil]; rfl
  | cons name rest ih =>
      have hsplit : place ++ name :: rest = place ++ [name] ++ rest := by simp
      rw [hsplit] at h ⊢
      have hname : ∃ child, fs.root.find? (place ++ [name]) = some child := by
        rw [Node.find?_append] at h
        obtain ⟨child, hchild, -⟩ := Option.bind_eq_some_iff.1 h
        exact ⟨child, hchild⟩
      obtain ⟨child, hchild⟩ := hname
      obtain ⟨entries, hplace, hget⟩ := exists_directory_of_find? hchild
      rw [List.foldlM_cons, follow_of_isStep hplace (hsteps name List.mem_cons_self)
        (hsizes name List.mem_cons_self), hget]
      exact ih (fun n hn => hsteps n (List.mem_cons_of_mem _ hn))
        (fun n hn => hsizes n (List.mem_cons_of_mem _ hn)) h

/-- No file stands in the way of some names. -/
def Clear (fs : FileSystem) (place names : List String) : Prop :=
  ∀ above, above <+: names → above ≠ names →
    ∀ content modified, fs.root.find? (place ++ above) ≠ some (.file content modified)

/-- Names are followed until one is missing. -/
theorem foldlM_follow_of_missing (hsteps : ∀ name ∈ names, IsStep name)
    (hsizes : ∀ name ∈ names, name.utf8ByteSize ≤ longestName)
    (hplace : fs.root.find? place = some (.directory entries))
    (hmissing : fs.root.find? (place ++ names) = none) (hclear : fs.Clear place names) :
    names.foldlM fs.follow place = .error .notFound := by
  induction names generalizing place entries with
  | nil =>
      rw [List.append_nil, hplace] at hmissing
      cases hmissing
  | cons name rest ih =>
      have hsplit : ∀ back, place ++ name :: back = place ++ [name] ++ back := fun back => by simp
      rw [List.foldlM_cons, follow_of_isStep hplace (hsteps name List.mem_cons_self)
        (hsizes name List.mem_cons_self), ← find?_concat hplace]
      cases hchild : fs.root.find? (place ++ [name]) with
      | none => rfl
      | some child =>
          have hrest : rest ≠ [] := by
            rintro rfl
            rw [hchild] at hmissing
            cases hmissing
          cases child with
          | file content modified =>
              have hproper : [name] ≠ name :: rest := by simpa using Ne.symm hrest
              exact absurd hchild (hclear [name] (by simp) hproper content modified)
          | directory inside =>
              refine ih (fun n hn => hsteps n (List.mem_cons_of_mem _ hn))
                (fun n hn => hsizes n (List.mem_cons_of_mem _ hn)) hchild ?_ ?_
              · rwa [hsplit] at hmissing
              · intro above hprefix hproper
                rw [← hsplit]
                exact hclear (name :: above) (List.cons_prefix_cons.2 ⟨rfl, hprefix⟩)
                  fun heq => hproper (List.cons.inj heq).2

/-! ### Where paths lead -/

/-- The path leads to the directory at a place. -/
def LeadsTo (fs : FileSystem) (root : String) (base : List String) : Prop :=
  ∃ front entries, pieces root = .ok front ∧ front.foldlM fs.follow (fs.start root) = .ok base ∧
    fs.root.find? base = some (.directory entries)

/-- What a path leads to stands at the place that its pieces lead to. -/
theorem exists_of_locate (h : fs.locate path = .ok (place, node)) :
    ∃ front, pieces path = .ok front ∧ front.foldlM fs.follow (fs.start path) = .ok place ∧
      fs.root.find? place = some node := by
  obtain ⟨front, hfront, h⟩ := bind_eq_ok.1 h
  obtain ⟨reached, hfollow, h⟩ := bind_eq_ok.1 h
  cases hnode : fs.root.find? reached with
  | none => rw [hnode] at h; cases h
  | some there =>
      rw [hnode] at h
      dsimp only at h
      split at h
      · cases h
      · cases h
        exact ⟨front, hfront, hfollow, hnode⟩

theorem leadsTo_of_locate (h : fs.locate root = .ok (base, .directory entries)) :
    fs.LeadsTo root base := by
  obtain ⟨front, hfront, hfollow, hbase⟩ := exists_of_locate h
  exact ⟨front, entries, hfront, hfollow, hbase⟩

/-- The names behind a path are followed from where the path leads. -/
theorem foldlM_follow_foldl_join (hroot : fs.LeadsTo root base) (h : Fits root names) :
    ∃ all, pieces (names.foldl Paths.join root) = .ok (all ++ names) ∧
      all.foldlM fs.follow (fs.start (names.foldl Paths.join root)) = .ok base := by
  obtain ⟨front, entries, hfront, hbase, -⟩ := hroot
  obtain ⟨-, hne, -, -⟩ := pieces_eq_ok.1 hfront
  exact ⟨front, pieces_foldl_join hfront h, by rw [start_foldl_join hne h.isStep, hbase]⟩

/-- **A path leads to the node at the end of its names.** -/
theorem locate_of_find? (hroot : fs.LeadsTo root base) (h : Fits root names)
    (hnode : fs.root.find? (base ++ names) = some node) :
    fs.locate (names.foldl Paths.join root) = .ok (base ++ names, node) := by
  obtain ⟨all, hall, hbase⟩ := foldlM_follow_foldl_join hroot h
  have hfollow : (all ++ names).foldlM fs.follow (fs.start (names.foldl Paths.join root)) =
      .ok (base ++ names) := by
    rw [List.foldlM_append, hbase]
    exact foldlM_follow_of_find? h.isStep h.size_le hnode
  refine bind_eq_ok.2 ⟨_, hall, bind_eq_ok.2 ⟨_, hfollow, ?_⟩⟩
  rw [hnode]
  refine if_neg fun hslash => ?_
  rw [Bool.and_eq_true] at hslash
  obtain ⟨hend, hdirectory⟩ := hslash
  -- only the path of the directory itself may end in a slash
  by_cases hnil : names = []
  · obtain ⟨_, entries, _, _, hself⟩ := hroot
    rw [hnil, List.append_nil, hself] at hnode
    cases hnode
    cases hdirectory
  · rw [endsInSlash_foldl_join root h.isStep hnil] at hend
    cases hend

/-- **A path leads nowhere if nothing stands at the end of its names**, nor a file in their way. -/
theorem locate_of_missing (hroot : fs.LeadsTo root base) (h : Fits root names)
    (hmissing : fs.root.find? (base ++ names) = none) (hclear : fs.Clear base names) :
    fs.locate (names.foldl Paths.join root) = .error .notFound := by
  obtain ⟨all, hall, hbase⟩ := foldlM_follow_foldl_join hroot h
  obtain ⟨_, entries, _, _, hself⟩ := hroot
  have hfollow : (all ++ names).foldlM fs.follow (fs.start (names.foldl Paths.join root)) =
      .error .notFound := by
    rw [List.foldlM_append, hbase]
    exact foldlM_follow_of_missing h.isStep h.size_le hself hmissing hclear
  rw [locate, hall]
  show ((all ++ names).foldlM fs.follow _ >>= _) = _
  rw [hfollow]
  rfl

/-- The spot of a path by its last piece, if the pieces before it lead to a directory. -/
theorem spot_concat (hpieces : pieces path = .ok (front ++ [name]))
    (hfollow : front.foldlM fs.follow (fs.start path) = .ok place)
    (hplace : fs.root.find? place = some (.directory entries)) :
    fs.spot path =
      if name = "." ∨ name = ".." then .ok ⟨place, none⟩
      else (entry entries name).map fun there => ⟨place, some (name, there)⟩ := by
  rw [spot, hpieces]
  show ((front ++ [name]).dropLast.foldlM fs.follow (fs.start path) >>= _) = _
  rw [List.dropLast_concat, hfollow]
  show (fs.directoryAt place >>= _) = _
  rw [directoryAt_eq_ok.2 hplace, List.getLast?_concat]
  dsimp only [bind, Except.bind]
  split
  · next heq => cases heq
  · next heq => rw [if_pos (.inl (Option.some.inj heq))]; rfl
  · next heq => rw [if_pos (.inr (Option.some.inj heq))]; rfl
  · next hdot hdots heq =>
    cases heq
    have hno : ¬(name = "." ∨ name = "..") := by
      rintro (rfl | rfl)
      · exact hdot rfl
      · exact hdots rfl
    rw [if_neg hno]
    cases entry entries name <;> rfl

/-- The spot of an entry in a directory that is there. -/
theorem spot_of_directory (hroot : fs.LeadsTo root base) (h : Fits root (above ++ [name]))
    (hdirectory : fs.root.find? (base ++ above) = some (.directory entries)) :
    fs.spot ((above ++ [name]).foldl Paths.join root) =
      .ok ⟨base ++ above, some (name, Members.get? name entries)⟩ := by
  obtain ⟨all, hall, hbase⟩ := foldlM_follow_foldl_join hroot h
  have habove := h.of_above (List.prefix_append above [name])
  have hname := h.isStep name (by simp)
  have hfollow : (all ++ above).foldlM fs.follow
      (fs.start ((above ++ [name]).foldl Paths.join root)) = .ok (base ++ above) := by
    rw [List.foldlM_append, hbase]
    exact foldlM_follow_of_find? habove.isStep habove.size_le hdirectory
  rw [← List.append_assoc] at hall
  rw [spot_concat hall hfollow hdirectory, if_neg (not_or.2 ⟨hname.ne_dot, hname.ne_dots⟩),
    entry_of_le (h.size_le name (by simp))]
  rfl

/-- There is no spot in a directory that is missing. -/
theorem spot_of_missing (hroot : fs.LeadsTo root base) (h : Fits root (above ++ [name]))
    (hmissing : fs.root.find? (base ++ above) = none) (hclear : fs.Clear base above) :
    fs.spot ((above ++ [name]).foldl Paths.join root) = .error .notFound := by
  obtain ⟨all, hall, hbase⟩ := foldlM_follow_foldl_join hroot h
  obtain ⟨_, entries, _, _, hself⟩ := hroot
  have habove := h.of_above (List.prefix_append above [name])
  have hfollow : (all ++ above).foldlM fs.follow
      (fs.start ((above ++ [name]).foldl Paths.join root)) = .error .notFound := by
    rw [List.foldlM_append, hbase]
    exact foldlM_follow_of_missing habove.isStep habove.size_le hself hmissing hclear
  rw [← List.append_assoc] at hall
  rw [spot, hall]
  show ((all ++ above ++ [name]).dropLast.foldlM fs.follow _ >>= _) = _
  rw [List.dropLast_concat, hfollow]
  rfl

/-- **A file system answers from the tree of a directory**, if it takes the names in it. -/
theorem serves {tree : Node} (hroot : fs.LeadsTo root base) (htree : fs.root.find? base = some tree)
    (hfits : ∀ names node, tree.find? names = some node → Fits root names) :
    Files.Serves perform fs root tree := by
  have hlocate : ∀ names node, tree.find? names = some node →
      fs.locate (names.foldl Paths.join root) = .ok (base ++ names, node) := by
    intro names node hnode
    refine locate_of_find? hroot (hfits names node hnode) ?_
    rw [Node.find?_append, htree]
    exact hnode
  refine ⟨?_, ?_, ?_⟩
  · intro names node hnode
    have hstatus : perform (.status (names.foldl Paths.join root)) fs =
        (fs.status (names.foldl Paths.join root), fs) := rfl
    cases node with
    | file content modified =>
        refine ⟨⟨false, fs.programs.contains (base ++ names), content.size, some modified⟩, ?_, rfl⟩
        rw [hstatus, status, hlocate names _ hnode]
        rfl
    | directory entries =>
        refine ⟨⟨true, false, directorySize, some fs.clock⟩, ?_, rfl⟩
        rw [hstatus, status, hlocate names _ hnode]
        rfl
  · intro names entries hnode
    have hentries : perform (.entries (names.foldl Paths.join root)) fs =
        (fs.entries (names.foldl Paths.join root), fs) := rfl
    have hdirectory : fs.directoryAt (base ++ names) = .ok entries := by
      rw [directoryAt_eq_ok, Node.find?_append, htree]
      exact hnode
    refine ⟨Members.keys entries, ?_, List.Perm.refl _⟩
    rw [hentries, FileSystem.entries, hlocate names _ hnode]
    show ((fs.directoryAt (base ++ names) >>= _), fs) = _
    rw [hdirectory]
    rfl
  · intro names content modified hnode
    have hread : perform (.read (names.foldl Paths.join root)) fs =
        (fs.read (names.foldl Paths.join root), fs) := rfl
    rw [hread, read, hlocate names _ hnode]
    rfl

end FileSystem

end JsonShelf
