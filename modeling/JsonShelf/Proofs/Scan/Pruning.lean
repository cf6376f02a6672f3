/-
**Directories that are left out with their files.**

A filter is asked about directories while a tree is walked, and about files that were found.  Both
times it looks at the number of directories, at each name and at the whole path.  A file that is let
through lies below directories whose number and names are let through too, so such a directory can
be left out for one reason only: a pattern matches its whole path, and not that of the file.

Main definitions:

* `Glob.Matches` — the pattern that a text writes matches another text;
* `DocPath.IsAbove` — a directory lies above a file.

Main results:

* `ScanFilter.ignoresName_iff`, `ScanFilter.ignoresPath_iff` — what is left out by the patterns of a
  policy;
* `ScanFilter.allowsDirectory_of_allowsFile` — above a file that is let through, only whole paths
  matter;
* `ScanFilter.files_left_out_iff` — **when the files below directories that are left out are left
  out**.
-/

import JsonShelf.Proofs.Computation
import JsonShelf.Proofs.Paths.Spelling
import JsonShelf.Scan.Policy

set_option autoImplicit false

namespace JsonShelf

/-- The pattern that a text writes matches another text. -/
def Glob.Matches (written text : String) : Prop :=
  ∃ pattern, Pattern.parse written = .ok pattern ∧ pattern.isMatch text = true

/-- The directory lies above the file: the path of the file goes on behind that of the directory. -/
def DocPath.IsAbove (directory path : DocPath) : Prop :=
  ∃ rest, path.text = directory.text ++ "/" ++ rest

theorem DocPath.names_prefix_of_isAbove {directory path : DocPath} (h : directory.IsAbove path) :
    directory.names <+: path.names.dropLast := by
  obtain ⟨rest, htext⟩ := h
  have hsplit : path.names = directory.names ++ Text.split (· == '/') rest := by
    rw [names, htext, Text.split, String.toList_append, String.toList_append, List.append_assoc]
    show (List.splitOnP _ (directory.text.toList ++ '/' :: rest.toList)).map _ = _
    rw [List.splitOnP_append_cons _ _ rfl, List.map_append]
    rfl
  have hne : Text.split (· == '/') rest ≠ [] := names_ne_nil ⟨rest⟩
  rw [hsplit, List.dropLast_append_of_ne_nil hne]
  exact List.prefix_append _ _

namespace ScanFilter

variable {policy : ScanPolicy} {filter : ScanFilter} {directory path : DocPath} {name : String}

/-! ### The patterns of a policy -/

/-- A filter is the policy with its patterns read. -/
theorem of_ofPolicy (h : ofPolicy policy = .ok filter) :
    filter.maxDepth = policy.maxDepth ∧ filter.ignoreToolConfig = policy.ignoreToolConfig ∧
      (ignoredNames ++ policy.ignore).mapM Glob.Pattern.parse = .ok filter.names ∧
      policy.ignore.mapM Glob.Pattern.parse = .ok filter.paths := by
  obtain ⟨names, hnames, h⟩ := bind_eq_ok.1 h
  obtain ⟨paths, hpaths, h⟩ := bind_eq_ok.1 h
  cases h
  exact ⟨rfl, rfl, hnames, hpaths⟩

/-- A text is matched by one of the patterns that some texts write. -/
theorem any_isMatch_iff {texts : List String} {patterns : List Glob.Pattern}
    (h : texts.mapM Glob.Pattern.parse = .ok patterns) (text : String) :
    patterns.any (·.isMatch text) = true ↔ ∃ written ∈ texts, Glob.Matches written text := by
  rw [List.any_eq_true]
  constructor
  · rintro ⟨pattern, hpattern, hmatch⟩
    obtain ⟨written, hwritten, hparse⟩ := (mem_iff_of_mapM h).1 hpattern
    exact ⟨written, hwritten, pattern, hparse, hmatch⟩
  · rintro ⟨written, hwritten, pattern, hparse, hmatch⟩
    exact ⟨pattern, (mem_iff_of_mapM h).2 ⟨written, hwritten, hparse⟩, hmatch⟩

theorem ignoresName_iff (h : ofPolicy policy = .ok filter) :
    filter.ignoresName name = true ↔
      ∃ written ∈ ignoredNames ++ policy.ignore, Glob.Matches written name :=
  any_isMatch_iff (of_ofPolicy h).2.2.1 name

theorem ignoresPath_iff (h : ofPolicy policy = .ok filter) :
    filter.ignoresPath path = true ↔ ∃ written ∈ policy.ignore, Glob.Matches written path.text :=
  any_isMatch_iff (of_ofPolicy h).2.2.2 path.text

/-- A policy without patterns leaves no path out as a whole. -/
theorem ignoresPath_of_nil (h : ofPolicy policy = .ok filter) (hignore : policy.ignore = [])
    (path : DocPath) : filter.ignoresPath path = false := by
  rw [Bool.eq_false_iff, Ne, ignoresPath_iff h, hignore]
  simp

/-! ### What a filter lets through -/

theorem allowsDirectory_iff : filter.allowsDirectory path = true ↔
    path.names.length ≤ filter.maxDepth ∧
      (∀ name ∈ path.names, filter.allowsDirectoryName name = true) ∧
      filter.ignoresPath path = false := by
  rw [allowsDirectory]
  simp [DocPath.names, and_assoc]

/-- What a filter asks of the directories above a file that it lets through. -/
theorem of_allowsFile (h : filter.allowsFile path = true) :
    path.names.dropLast.length ≤ filter.maxDepth ∧
      ∀ name ∈ path.names.dropLast, filter.allowsDirectoryName name = true := by
  rw [allowsFile] at h
  simp only [Bool.and_eq_true, decide_eq_true_eq, List.all_eq_true] at h
  exact ⟨h.1.1.1.2, h.1.1.2⟩

/-- **Above a file that is let through, a directory is let through unless a pattern matches its
whole path.** -/
theorem allowsDirectory_of_allowsFile (habove : directory.IsAbove path)
    (h : filter.allowsFile path = true) :
    filter.allowsDirectory directory = !filter.ignoresPath directory := by
  obtain ⟨hdepth, hnames⟩ := of_allowsFile h
  have hbegin := DocPath.names_prefix_of_isAbove habove
  have hlength : directory.names.length ≤ filter.maxDepth := Nat.le_trans hbegin.length_le hdepth
  have hall : ∀ name ∈ directory.names, filter.allowsDirectoryName name = true :=
    fun name hname => hnames name (hbegin.subset hname)
  rw [Bool.eq_iff_iff, allowsDirectory_iff, Bool.not_eq_true']
  exact ⟨fun hallowed => hallowed.2.2, fun hpath => ⟨hlength, hall, hpath⟩⟩

/-- A pattern that matches the whole path of a directory at the top matches its name. -/
theorem two_le_length_names (hpolicy : ofPolicy policy = .ok filter)
    (habove : directory.IsAbove path)
    (h : filter.allowsFile path = true) (hignored : filter.ignoresPath directory = true) :
    2 ≤ directory.names.length := by
  by_contra hlength
  have hne := directory.names_ne_nil
  obtain ⟨name, hname⟩ : ∃ name, directory.names = [name] := by
    rw [← List.length_eq_one_iff]
    have := List.length_pos_iff.2 hne
    omega
  have htext : directory.text = name := by
    rw [← directory.intercalate_names, hname, String.intercalate_singleton]
  obtain ⟨written, hwritten, hmatch⟩ := (ignoresPath_iff hpolicy).1 hignored
  have hleft : filter.ignoresName name = true :=
    (ignoresName_iff hpolicy).2 ⟨written, List.mem_append_right _ hwritten, htext ▸ hmatch⟩
  have hallowed := (of_allowsFile h).2 name
    ((DocPath.names_prefix_of_isAbove habove).subset (by rw [hname]; exact List.mem_cons_self))
  rw [allowsDirectoryName, hleft] at hallowed
  simp at hallowed

/-- **When the files below directories that are left out are left out**: always, but for files that
are let through though a pattern matches the whole path of a directory above them.  Such a directory
has at least two names. -/
theorem files_left_out_iff (hpolicy : ofPolicy policy = .ok filter) (path : DocPath) :
    (∀ directory : DocPath, directory.IsAbove path → filter.allowsDirectory directory = false →
        filter.allowsFile path = false) ↔
      ¬(filter.allowsFile path = true ∧ ∃ directory : DocPath, directory.IsAbove path ∧
        2 ≤ directory.names.length ∧
          ∃ written ∈ policy.ignore, Glob.Matches written directory.text) := by
  constructor
  · rintro hagree ⟨hallowed, directory, habove, -, hmatch⟩
    have hignored := (ignoresPath_iff hpolicy).2 hmatch
    have hdirectory : filter.allowsDirectory directory = false := by
      rw [allowsDirectory_of_allowsFile habove hallowed, hignored]
      rfl
    rw [hagree directory habove hdirectory] at hallowed
    cases hallowed
  · intro hnone directory habove hdirectory
    refine Bool.eq_false_iff.2 fun hallowed => hnone ⟨hallowed, directory, habove, ?_⟩
    rw [allowsDirectory_of_allowsFile habove hallowed, Bool.not_eq_false'] at hdirectory
    exact ⟨two_le_length_names hpolicy habove hallowed hdirectory,
      (ignoresPath_iff hpolicy).1 hdirectory⟩

/-- A pattern for names and one for whole paths, each of which leaves a directory out.  The files
below the first are left out too, and those below the second are not. -/
theorem files_left_out_iff_twoPatterns :
    ∃ filter, ofPolicy ⟨3, ["drafts", "a/b"], true⟩ = .ok filter ∧
      filter.allowsDirectory (.ofString "drafts") = false ∧
      (∀ directory : DocPath, directory.IsAbove (.ofString "drafts/x.json") →
        filter.allowsDirectory directory = false →
        filter.allowsFile (.ofString "drafts/x.json") = false) ∧
      ¬∀ directory : DocPath, directory.IsAbove (.ofString "a/b/c.json") →
        filter.allowsDirectory directory = false →
        filter.allowsFile (.ofString "a/b/c.json") = false := by
  have hanswers : (ofPolicy ⟨3, ["drafts", "a/b"], true⟩).map (fun filter =>
      (filter.allowsDirectory (.ofString "drafts"), filter.allowsFile (.ofString "drafts/x.json"),
        filter.allowsFile (.ofString "a/b/c.json"))) = .ok (false, false, true) := by decide +kernel
  obtain ⟨filter, hfilter, hanswers⟩ := map_eq_ok.1 hanswers
  simp only [Prod.mk.injEq] at hanswers
  obtain ⟨hdrafts, hout, hin⟩ := hanswers
  have hmatch : Glob.Matches "a/b" "a/b" := by
    have hself : (Glob.Pattern.parse "a/b").map (·.isMatch "a/b") = .ok true := by decide +kernel
    obtain ⟨pattern, hparse, hmatch⟩ := map_eq_ok.1 hself
    exact ⟨pattern, hparse, hmatch⟩
  refine ⟨filter, hfilter, hdrafts, (files_left_out_iff hfilter _).2 ?_, ?_⟩
  · rintro ⟨hallowed, -⟩
    rw [hout] at hallowed
    cases hallowed
  · intro hall
    exact (files_left_out_iff hfilter _).1 hall
      ⟨hin, .ofString "a/b", ⟨"c.json", by decide⟩, by decide, "a/b", by simp, hmatch⟩

/-- **A directory is left out by its whole path, and a file in it is let through.** -/
theorem allowsFile_below_wholePath : ∃ filter, ofPolicy ⟨3, ["a/b"], true⟩ = .ok filter ∧
    (DocPath.ofString "a/b").IsAbove (.ofString "a/b/c.json") ∧
    filter.allowsDirectory (.ofString "a/b") = false ∧
    filter.allowsFile (.ofString "a/b/c.json") = true := by
  have hanswers : (ofPolicy ⟨3, ["a/b"], true⟩).map (fun filter =>
      (filter.allowsDirectory (.ofString "a/b"), filter.allowsFile (.ofString "a/b/c.json"))) =
        .ok (false, true) := by decide +kernel
  obtain ⟨filter, hfilter, hpair⟩ := map_eq_ok.1 hanswers
  obtain ⟨hdirectory, hfile⟩ := Prod.mk.inj hpair
  exact ⟨filter, hfilter, ⟨"c.json", by decide⟩, hdirectory, hfile⟩

end ScanFilter

end JsonShelf
