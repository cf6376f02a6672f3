/-
**What is listed.**

A listing is made by a walk that leaves out directories as it goes and never looks too deep, and by
tests on what the walk found.  It comes out as the definition of a filter says: a file is listed if
the filter lets it and all directories above it through and its text parses.  A store in memory that
holds the same texts has no directories to walk through and lists the same files.

Main definitions:

* `Files.Node.Proper` — all names in a tree are names that lead one step down;
* `Scan.HasText`, `Scan.MayEnter` — names lead to a file with a text, through directories that may
  be entered.

Main results:

* `Scan.exists_run_discover` — what a scan lists, and in which order;
* `Scan.mayEnter_of_allowsFile` — without patterns for whole paths, directories are left out with
  the files in them;
* `Scan.run_discover_eq_list` — a scan lists what a store in memory with the same texts lists;
* `Scan.discover_exact` — **a scan lists exactly the files that it should, in the order of their
  bytes**.
-/

import JsonShelf.Proofs.Files.Below
import JsonShelf.Proofs.Scan.Order
import JsonShelf.Proofs.Scan.Pruning
import JsonShelf.Proofs.Store.Ordered

set_option autoImplicit false

namespace JsonShelf

open Files (Node)
open Paths (IsStep)

/-- All names in a tree are names that lead one step down. -/
def Files.Node.Proper (tree : Node) : Prop :=
  ∀ (names : List String) (node : Node), tree.find? names = some node → ∀ name ∈ names, IsStep name

namespace Scan

variable {σ : Type} {handle : (c : Files.Call) → σ → c.Reply × σ} {state : σ} {root : String}
  {tree : Node} {policy : ScanPolicy} {filter : ScanFilter} {names above : List String}
  {entries : Members Node} {path : DocPath} {text : String}

/-- The directories above some names may all be entered. -/
def MayEnter (filter : ScanFilter) (names : List String) : Prop :=
  ∀ directories, directories ≠ [] → directories <+: names → directories ≠ names →
    filter.allowsDirectory (pathOf directories) = true

/-- A directory on the way to a file lies above it. -/
theorem isAbove_pathOf {directories back : List String}
    (h : ∀ name ∈ directories ++ back, IsStep name) (hne : directories ≠ []) (hback : back ≠ []) :
    (pathOf directories).IsAbove (pathOf (directories ++ back)) := by
  refine ⟨"/".intercalate back, ?_⟩
  have hdirectories : ∀ name ∈ directories, IsStep name :=
    fun name hname => h name (List.mem_append_left _ hname)
  rw [text_pathOf h (List.append_ne_nil_of_left_ne_nil hne _), text_pathOf hdirectories hne,
    String.intercalate_append_of_ne_nil hne hback]

/-- Without patterns for whole paths, the directories above a file that is let through may be
entered. -/
theorem mayEnter_of_allowsFile (h : ∀ name ∈ names, IsStep name)
    (hpaths : ∀ path, filter.ignoresPath path = false)
    (hallowed : filter.allowsFile (pathOf names) = true) : MayEnter filter names := by
  rintro directories hdirectories ⟨back, rfl⟩ hproper
  have hback : back ≠ [] := by
    rintro rfl
    exact hproper (List.append_nil directories).symm
  rw [ScanFilter.allowsDirectory_of_allowsFile (isAbove_pathOf h hdirectories hback) hallowed,
    hpaths]
  rfl

/-- A scan goes one level deeper than the directories that it enters. -/
theorem levels_eq (h : filter.maxDepth < 2 ^ 64 - 1) : levels filter = filter.maxDepth + 1 := by
  unfold levels
  omega

/-! ### Texts -/

/-- The names lead to a file with a text. -/
def HasText (tree : Node) (names : List String) (text : String) : Prop :=
  ∃ content modified, tree.find? names = some (.file content modified) ∧
    String.fromUTF8? content = some text

theorem HasText.ne_nil (h : HasText (.directory entries) names text) : names ≠ [] := by
  rintro rfl
  obtain ⟨content, modified, hfile, -⟩ := h
  rw [Node.find?_nil] at hfile
  cases hfile

theorem HasText.unique {other : String} (h : HasText tree names text)
    (hother : HasText tree names other) : text = other := by
  obtain ⟨content, modified, hfile, htext⟩ := h
  obtain ⟨content', modified', hfile', htext'⟩ := hother
  rw [hfile] at hfile'
  cases hfile'
  rw [htext] at htext'
  exact Option.some.inj htext'

/-- Whether the text of a file parses is found out by reading it. -/
theorem exists_run_isDocument (h : Files.Serves handle state root tree) {content : ByteArray}
    {modified : Timestamp} (hfile : tree.find? names = some (.file content modified)) :
    ∃ answer, Script.run handle (isDocument (names.foldl Paths.join root)) state = (answer, state) ∧
      (answer = true ↔ ∃ text value, HasText tree names text ∧ Json.parse text = .ok value) := by
  have hcall : Script.run handle (Files.read (names.foldl Paths.join root)).run state =
      (.ok content, state) := h.read names content modified hfile
  have hread : ∀ {result : Except Files.Fault String},
      (String.fromUTF8? content).elim (Except.error Files.Fault.notText) Except.ok = result →
      Script.run handle (Files.readText (names.foldl Paths.join root)).run state =
        (result, state) := by
    rintro result rfl
    rw [Files.readText, Script.run_except_bind, hcall]
    dsimp only
    cases String.fromUTF8? content <;> rfl
  cases htext : String.fromUTF8? content with
  | none =>
      rw [isDocument, Script.run_bind_of_run (hread (by rw [htext]))]
      refine ⟨false, rfl, ⟨fun hfalse => absurd hfalse Bool.false_ne_true, ?_⟩⟩
      rintro ⟨text, value, ⟨content', modified', hfile', htext'⟩, -⟩
      rw [hfile] at hfile'
      cases hfile'
      rw [htext] at htext'
      cases htext'
  | some text =>
      have hself : HasText tree names text := ⟨content, modified, hfile, htext⟩
      rw [isDocument, Script.run_bind_of_run (hread (by rw [htext]))]
      refine ⟨(Json.parse text).toBool, rfl, ?_⟩
      rw [toBool_eq_true]
      constructor
      · rintro ⟨value, hvalue⟩
        exact ⟨text, value, hself, hvalue⟩
      · rintro ⟨other, value, hother, hvalue⟩
        rw [hself.unique hother]
        exact ⟨value, hvalue⟩

/-! ### Listings -/

/-- The path of a file that belongs to the listing of a directory. -/
def IsListed (filter : ScanFilter) (tree : Node) (path : DocPath) : Prop :=
  ∃ names text value, path = pathOf names ∧ HasText tree names text ∧
    filter.allowsFile path = true ∧ MayEnter filter names ∧ Json.parse text = .ok value

/-- What a scan lists, and in which order. -/
theorem exists_run_discover (filter : ScanFilter)
    (h : Files.Serves handle state root (.directory entries))
    (hproper : (Node.directory entries).Proper) (hdepth : filter.maxDepth < 2 ^ 64 - 1) :
    ∃ listed, Script.run handle (discover root filter) state = (.ok listed, state) ∧
      Ordered listed ∧ ∀ path, path ∈ listed ↔ IsListed filter (.directory entries) path := by
  have hroot : (Node.directory entries).find? [] = some (.directory entries) := Node.find?_nil _
  obtain ⟨found, hwalk, hfound⟩ := exists_run_walk filter (levels filter) h hroot
  rw [FoundBelow] at hfound
  have hreaches : ∀ names, names ∈ found ↔
      names.length ≤ levels filter ∧ Reaches filter (.directory entries) [] names := by
    intro names
    rw [hfound]
    exact ⟨fun ⟨_, heq, hrest⟩ => heq ▸ hrest, fun hrest => ⟨names, rfl, hrest⟩⟩
  -- every candidate is the path of a file, and reading the file decides about it
  have hread : ∀ path ∈ (found.map pathOf).filter filter.allowsFile, ∃ answer,
      Script.run handle (isDocument (Paths.join root path.text)) state = (answer, state) ∧
        (answer = true ↔ ∃ names text value, names ∈ found ∧ path = pathOf names ∧
          HasText (.directory entries) names text ∧ Json.parse text = .ok value) := by
    intro path hpath
    obtain ⟨names, hnames, rfl⟩ := List.mem_map.1 (List.mem_filter.1 hpath).1
    obtain ⟨-, hne, ⟨content, modified, hfile⟩, -⟩ := (hreaches names).1 hnames
    rw [List.nil_append] at hfile
    obtain ⟨answer, hanswer, hiff⟩ := exists_run_isDocument h hfile
    have hsteps := hproper names _ hfile
    refine ⟨answer, by rw [join_pathOf root hsteps hne, hanswer], hiff.trans ⟨?_, ?_⟩⟩
    · rintro ⟨text, value, htext, hvalue⟩
      exact ⟨names, text, value, hnames, rfl, htext, hvalue⟩
    · rintro ⟨others, text, value, -, hpaths, htext, hvalue⟩
      have ⟨_, _, hothers, _⟩ := htext
      obtain rfl := pathOf_injective hsteps hne (hproper others _ hothers) htext.ne_nil hpaths
      exact ⟨text, value, htext, hvalue⟩
  choose! answer hanswer hiff using hread
  refine ⟨sorted (((found.map pathOf).filter filter.allowsFile).filter answer), ?_,
    ordered_sorted _, ?_⟩
  · have hdirectory : Script.run handle (Files.isDirectory root) state = (true, state) :=
      run_isDirectory h hroot
    rw [discover, Script.run_bind_of_run hdirectory]
    show Script.run handle (walk filter root (levels filter) [] >>= _) state = _
    rw [Script.run_bind_of_run hwalk, Script.run_bind_of_run (Script.run_filterM hanswer)]
    rfl
  · intro path
    rw [mem_sorted, List.mem_filter]
    constructor
    · rintro ⟨hmem, htrue⟩
      obtain ⟨names, text, value, hnames, rfl, htext, hvalue⟩ := (hiff path hmem).1 htrue
      obtain ⟨-, hway⟩ := (hreaches names).1 hnames
      exact ⟨names, text, value, rfl, htext, (List.mem_filter.1 hmem).2, hway.entered, hvalue⟩
    · rintro ⟨names, text, value, rfl, htext, hallowed, henter, hvalue⟩
      have ⟨content, modified, hfile, _⟩ := htext
      have hlength := (ScanFilter.of_allowsFile hallowed).1
      rw [DocPath.names_pathOf (hproper names _ hfile) htext.ne_nil] at hlength
      have hnames : names ∈ found := by
        refine (hreaches names).2 ⟨?_, htext.ne_nil, ⟨content, modified, hfile⟩, henter⟩
        rw [List.length_dropLast] at hlength
        rw [levels_eq hdepth]
        omega
      have hmem : pathOf names ∈ (found.map pathOf).filter filter.allowsFile :=
        List.mem_filter.2 ⟨List.mem_map_of_mem hnames, hallowed⟩
      exact ⟨hmem, (hiff _ hmem).2 ⟨names, text, value, hnames, rfl, htext, hvalue⟩⟩

/-- A scan with the standard policy lists what a store in memory with the same texts lists. -/
theorem run_discover_eq_list {store : MemoryStore}
    (h : Files.Serves handle state root (.directory entries))
    (hproper : (Node.directory entries).Proper)
    (hfilter : ScanFilter.ofPolicy .standard = .ok filter)
    (hstore : store.Ordered) (hsame : ∀ path text, store.get? path = some text ↔
      ∃ names, path = pathOf names ∧ HasText (.directory entries) names text) :
    Script.run handle (discover root filter) state = (store.list, state) := by
  have hdepth := (ScanFilter.of_ofPolicy hfilter).1
  obtain ⟨listed, hrun, hordered, hmem⟩ :=
    exists_run_discover filter h hproper (by rw [hdepth]; decide)
  obtain ⟨listed', hlist, hordered', hmem'⟩ := MemoryStore.exists_list hstore hfilter
  have heq : listed = listed' := by
    refine hordered.eq_of_mem_iff hordered' fun path => ?_
    rw [hmem, hmem']
    constructor
    · rintro ⟨names, text, value, hpath, htext, hallowed, -, hvalue⟩
      exact ⟨text, (hsame path text).2 ⟨names, hpath, htext⟩, hallowed,
        toBool_eq_true.2 ⟨value, hvalue⟩⟩
    · rintro ⟨text, hget, hallowed, hparses⟩
      obtain ⟨names, rfl, htext⟩ := (hsame path text).1 hget
      have ⟨_, _, hfile, _⟩ := htext
      obtain ⟨value, hvalue⟩ := toBool_eq_true.1 hparses
      exact ⟨names, text, value, rfl, htext, hallowed,
        mayEnter_of_allowsFile (hproper names _ hfile) (ScanFilter.ignoresPath_of_nil hfilter rfl)
          hallowed, hvalue⟩
  rw [hrun, hlist, heq]

/-- Files with a text each make a list with one text for each path. -/
theorem get?_ofList_of_hasText {seed : List (DocPath × String)}
    (hproper : (Node.directory entries).Proper) (hseed : ∀ path text, (path, text) ∈ seed ↔
      ∃ names, path = pathOf names ∧ HasText (.directory entries) names text) :
    (MemoryStore.ofList seed).get? path = some text ↔
      ∃ names, path = pathOf names ∧ HasText (.directory entries) names text := by
  rw [← hseed]
  refine MemoryStore.get?_ofList ?_
  intro path text other hmem hother
  obtain ⟨names, rfl, htext⟩ := (hseed path text).1 hmem
  obtain ⟨names', hpaths, htext'⟩ := (hseed _ other).1 hother
  have ⟨_, _, hfile, _⟩ := htext
  have ⟨_, _, hfile', _⟩ := htext'
  obtain rfl := pathOf_injective (hproper names _ hfile) htext.ne_nil (hproper names' _ hfile')
    htext'.ne_nil hpaths
  exact htext.unique htext'

/-- **A scan lists exactly the files that it should, in the order of their bytes.**  Without
patterns for whole paths the directories above a file need not be looked at; so with the standard
policy a store in memory with the same texts lists the same files. -/
theorem discover_exact (policy : ScanPolicy) (hdepth : policy.maxDepth < 2 ^ 64 - 1)
    (hfilter : ScanFilter.ofPolicy policy = .ok filter) (h : Files.Serves handle state root tree)
    (hdirectory : tree.isDirectory = true) (hproper : tree.Proper) :
    ∃ listed, Script.run handle (discover root filter) state = (.ok listed, state) ∧
      listed.Pairwise (fun p q => Text.bytes p.text < Text.bytes q.text) ∧
      (∀ path, path ∈ listed ↔ ∃ names text value, path = pathOf names ∧ HasText tree names text ∧
        filter.allowsFile path = true ∧ MayEnter filter names ∧ Json.parse text = .ok value) ∧
      (policy.ignore = [] → ∀ names text, HasText tree names text →
        filter.allowsFile (pathOf names) = true → MayEnter filter names) ∧
      (policy = .standard → ∀ seed : List (DocPath × String),
        (∀ path text, (path, text) ∈ seed ↔
          ∃ names, path = pathOf names ∧ HasText tree names text) →
        (MemoryStore.ofList seed).list = .ok listed) := by
  cases tree with
  | file content modified => cases hdirectory
  | directory entries =>
      have hmaxDepth := (ScanFilter.of_ofPolicy hfilter).1
      obtain ⟨listed, hrun, hordered, hmem⟩ :=
        exists_run_discover filter h hproper (hmaxDepth ▸ hdepth)
      refine ⟨listed, hrun, hordered.bytes, hmem, ?_, ?_⟩
      · intro hignore names text htext hallowed
        have ⟨_, _, hfile, _⟩ := htext
        exact mayEnter_of_allowsFile (hproper names _ hfile)
          (ScanFilter.ignoresPath_of_nil hfilter hignore) hallowed
      · rintro rfl seed hseed
        have hlist := run_discover_eq_list h hproper hfilter (MemoryStore.ordered_ofList seed)
          fun path text => get?_ofList_of_hasText hproper hseed
        rw [hrun] at hlist
        exact (congrArg Prod.fst hlist).symm

/-- A time at which the files below were changed. -/
def sampleTime : Timestamp := ⟨0, 0, 0⟩

/-- A data directory with files at several depths, some of them behind names that are left out. -/
def sampleTree : Node :=
  .directory
    [("z.json", .file "[1]".toUTF8 sampleTime),
      ("package.json", .file "[]".toUTF8 sampleTime),
      (".git", .directory [("kept.json", .file "[]".toUTF8 sampleTime)]),
      ("blog", .directory
        [("broken.json", .file "[".toUTF8 sampleTime),
          ("drafts", .directory [("a.json", .file "[]".toUTF8 sampleTime)]),
          ("deep", .directory [("down", .directory [("b.json", .file "[]".toUTF8 sampleTime)])]),
          ("é.json", .file "\"é\"".toUTF8 sampleTime)])]

/-- A file system with the data directory. -/
def sampleSystem : FileSystem :=
  ⟨.directory [("site", .directory [("data", sampleTree)])], ["site"], [], sampleTime⟩

/-- The scan of a directory, with a pattern for whole paths and a small depth. -/
theorem discover_exact_sample : ∃ filter listed,
    ScanFilter.ofPolicy ⟨2, ["blog/drafts"], true⟩ = .ok filter ∧
      sampleSystem.run (discover "./data/." filter) = (.ok listed, sampleSystem) ∧
      (listed.Pairwise fun p q => Text.bytes p.text < Text.bytes q.text) ∧
      ∀ path, path ∈ listed ↔ ∃ names text value, path = pathOf names ∧
        HasText sampleTree names text ∧ filter.allowsFile path = true ∧ MayEnter filter names ∧
        Json.parse text = .ok value := by
  have hpolicy : (ScanFilter.ofPolicy ⟨2, ["blog/drafts"], true⟩).toBool = true := by cbv
  obtain ⟨filter, hfilter⟩ := toBool_eq_true.1 hpolicy
  have hfits : ∀ names ∈ sampleTree.places, FileSystem.Fits "./data/." names := by decide +kernel
  have hlocate : sampleSystem.locate "./data/." = .ok (["site", "data"], sampleTree) := by rfl
  have hserves : Files.Serves FileSystem.perform sampleSystem "./data/." sampleTree :=
    FileSystem.serves (FileSystem.leadsTo_of_locate hlocate) rfl
      fun names _ hnode => hfits names (Node.mem_places hnode)
  obtain ⟨listed, hrun, hordered, hmem, -⟩ := discover_exact ⟨2, ["blog/drafts"], true⟩ (by decide)
    hfilter hserves rfl fun names _ hnode => (hfits names (Node.mem_places hnode)).isStep
  exact ⟨filter, listed, hfilter, hrun, hordered, hmem⟩

end Scan

end JsonShelf
