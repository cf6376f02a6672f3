/-
**Stricter policies.**

A policy is stricter than another if it goes less deep and leaves out more.  It lets less through,
and so a scan with it enters fewer directories and keeps fewer files.  Both scans sort what they
find, so the one listing is a part of the other, in the same order.

Main definitions:

* `ScanPolicy.Stricter` — one policy goes less deep and leaves out more than another;
* `Files.Stays` — looking at files changes nothing.

Main results:

* `ScanPolicy.Stricter.allowsDirectory`, `ScanPolicy.Stricter.allowsFile` — a stricter policy lets
  less through;
* `Scan.run_walk_subset` — **a walk that may enter less finds less**;
* `Scan.discover_stricter` — **a stricter policy only removes files**.
-/

import JsonShelf.Proofs.Scan.Listing

set_option autoImplicit false

namespace JsonShelf

/-! ### Policies -/

/-- The one policy goes less deep than the other, has all its patterns, and leaves out tool
configuration where the other does. -/
structure ScanPolicy.Stricter (strict policy : ScanPolicy) : Prop where
  maxDepth : strict.maxDepth ≤ policy.maxDepth
  ignore : policy.ignore ⊆ strict.ignore
  ignoreToolConfig : policy.ignoreToolConfig = true → strict.ignoreToolConfig = true

namespace ScanPolicy.Stricter

variable {strict policy : ScanPolicy} {narrow wide : ScanFilter} {path : DocPath} {name : String}

theorem ignoresName (h : strict.Stricter policy) (hnarrow : ScanFilter.ofPolicy strict = .ok narrow)
    (hwide : ScanFilter.ofPolicy policy = .ok wide) (hname : narrow.ignoresName name = false) :
    wide.ignoresName name = false := by
  rw [Bool.eq_false_iff, Ne, ScanFilter.ignoresName_iff hnarrow] at hname
  rw [Bool.eq_false_iff, Ne, ScanFilter.ignoresName_iff hwide]
  rintro ⟨written, hwritten, hmatch⟩
  refine hname ⟨written, ?_, hmatch⟩
  rcases List.mem_append.1 hwritten with hfixed | hextra
  · exact List.mem_append_left _ hfixed
  · exact List.mem_append_right _ (h.ignore hextra)

theorem ignoresPath (h : strict.Stricter policy) (hnarrow : ScanFilter.ofPolicy strict = .ok narrow)
    (hwide : ScanFilter.ofPolicy policy = .ok wide) (hpath : narrow.ignoresPath path = false) :
    wide.ignoresPath path = false := by
  rw [Bool.eq_false_iff, Ne, ScanFilter.ignoresPath_iff hnarrow] at hpath
  rw [Bool.eq_false_iff, Ne, ScanFilter.ignoresPath_iff hwide]
  rintro ⟨written, hwritten, hmatch⟩
  exact hpath ⟨written, h.ignore hwritten, hmatch⟩

theorem allowsDirectoryName (h : strict.Stricter policy)
    (hnarrow : ScanFilter.ofPolicy strict = .ok narrow)
    (hwide : ScanFilter.ofPolicy policy = .ok wide)
    (hname : narrow.allowsDirectoryName name = true) : wide.allowsDirectoryName name = true := by
  simp only [ScanFilter.allowsDirectoryName, Bool.and_eq_true, Bool.not_eq_true'] at hname ⊢
  exact ⟨hname.1, h.ignoresName hnarrow hwide hname.2⟩

/-- A stricter policy lets fewer directories through. -/
theorem allowsDirectory (h : strict.Stricter policy)
    (hnarrow : ScanFilter.ofPolicy strict = .ok narrow)
    (hwide : ScanFilter.ofPolicy policy = .ok wide)
    (hpath : narrow.allowsDirectory path = true) : wide.allowsDirectory path = true := by
  obtain ⟨hlength, hnames, hwhole⟩ := ScanFilter.allowsDirectory_iff.1 hpath
  refine ScanFilter.allowsDirectory_iff.2 ⟨?_, ?_, h.ignoresPath hnarrow hwide hwhole⟩
  · rw [(ScanFilter.of_ofPolicy hwide).1]
    rw [(ScanFilter.of_ofPolicy hnarrow).1] at hlength
    exact Nat.le_trans hlength h.maxDepth
  · exact fun name hname => h.allowsDirectoryName hnarrow hwide (hnames name hname)

/-- A stricter policy lets fewer files through. -/
theorem allowsFile (h : strict.Stricter policy)
    (hnarrow : ScanFilter.ofPolicy strict = .ok narrow)
    (hwide : ScanFilter.ofPolicy policy = .ok wide)
    (hpath : narrow.allowsFile path = true) : wide.allowsFile path = true := by
  obtain ⟨hdepth, hconfig, -⟩ := ScanFilter.of_ofPolicy hnarrow
  obtain ⟨hdepth', hconfig', -⟩ := ScanFilter.of_ofPolicy hwide
  rw [ScanFilter.allowsFile] at hpath ⊢
  simp only [Bool.and_eq_true, Bool.not_eq_true', decide_eq_true_eq, List.all_eq_true] at hpath ⊢
  obtain ⟨⟨⟨⟨⟨⟨hjson, hinside⟩, htop⟩, hlength⟩, hnames⟩, hname⟩, hwhole⟩ := hpath
  refine ⟨⟨⟨⟨⟨⟨hjson, hinside⟩, ?_⟩, ?_⟩, ?_⟩, ?_⟩, ?_⟩
  · rw [hconfig] at htop
    rw [hconfig']
    cases hpolicy : policy.ignoreToolConfig with
    | false => simp
    | true => rwa [h.ignoreToolConfig hpolicy] at htop
  · rw [hdepth']
    rw [hdepth] at hlength
    exact Nat.le_trans hlength h.maxDepth
  · exact fun name hname => h.allowsDirectoryName hnarrow hwide (hnames name hname)
  · exact h.ignoresName hnarrow hwide hname
  · exact h.ignoresPath hnarrow hwide hwhole

end ScanPolicy.Stricter

/-! ### Systems that are looked at -/

/-- Looking at files changes nothing. -/
structure Files.Stays {σ : Type} (handle : (c : Files.Call) → σ → c.Reply × σ) (state : σ) :
    Prop where
  status : ∀ path, (handle (.status path) state).2 = state
  entries : ∀ path, (handle (.entries path) state).2 = state
  read : ∀ path, (handle (.read path) state).2 = state

theorem FileSystem.stays (fs : FileSystem) : Files.Stays FileSystem.perform fs :=
  ⟨fun _ => rfl, fun _ => rfl, fun _ => rfl⟩

namespace Scan

variable {σ : Type} {handle : (c : Files.Call) → σ → c.Reply × σ} {state : σ} {root : String}
  {filter narrow wide : ScanFilter} {above : List String} {name : String} {level level' : Nat}

theorem snd_run_isDirectory (h : Files.Stays handle state) (path : String) :
    (Script.run handle (Files.isDirectory path) state).2 = state :=
  Script.snd_run_bind (h.status path) fun reply => by cases reply <;> rfl

theorem snd_run_isDocument (h : Files.Stays handle state) (path : String) :
    (Script.run handle (isDocument path) state).2 = state := by
  have hread : (Script.run handle (Files.readText path).run state).2 = state := by
    rw [Files.readText, ExceptT.run_bind]
    refine Script.snd_run_bind (h.read path) fun reply => ?_
    cases reply with
    | error fault => rfl
    | ok content => cases htext : String.fromUTF8? content <;> simp [htext] <;> rfl
  exact Script.snd_run_bind hread fun reply => by cases reply <;> rfl

/-! ### Walks side by side -/

theorem snd_run_visit (h : Files.Stays handle state)
    (hwalk : ∀ place, (Script.run handle (walk filter root level place) state).2 = state)
    (above : List String) (name : String) :
    (Script.run handle (visit filter root level above name) state).2 = state := by
  refine Script.snd_run_bind (snd_run_isDirectory h _) fun directory => ?_
  cases directory with
  | false => rfl
  | true =>
      by_cases hallowed : filter.allowsDirectory (pathOf (above ++ [name])) = true
      · simpa [hallowed] using hwalk (above ++ [name])
      · simp only [hallowed]
        rfl

/-- A walk leaves the state as it is. -/
theorem snd_run_walk (h : Files.Stays handle state) (filter : ScanFilter) (root : String)
    (level : Nat) (above : List String) :
    (Script.run handle (walk filter root level above) state).2 = state := by
  induction level generalizing above with
  | zero => rfl
  | succ level ih =>
      rw [walk_succ]
      refine Script.snd_run_bind (h.entries _) fun reply => ?_
      cases reply with
      | error fault => rfl
      | ok names =>
          have hvisits := Script.run_mapM_fst (snd_run_visit h ih above) names
          exact Script.snd_run_bind (by rw [hvisits]) fun _ => rfl

/-- What a walk finds at an entry. -/
theorem fst_run_visit (h : Files.Stays handle state) :
    (Script.run handle (visit filter root level above name) state).1 =
      if (Script.run handle (Files.isDirectory ((above ++ [name]).foldl Paths.join root)) state).1
      then
        if filter.allowsDirectory (pathOf (above ++ [name])) then
          (Script.run handle (walk filter root level (above ++ [name])) state).1
        else []
      else [above ++ [name]] := by
  rw [visit, Script.run_bind, snd_run_isDirectory h]
  split
  · split
    · rfl
    · rfl
  · rfl

/-- What a walk finds in a directory. -/
theorem fst_run_walk_succ (h : Files.Stays handle state) :
    (Script.run handle (walk filter root (level + 1) above) state).1 =
      match (handle (.entries (above.foldl Paths.join root)) state).1 with
      | .error _ => []
      | .ok names =>
        (names.map fun name =>
          (Script.run handle (visit filter root level above name) state).1).flatten := by
  have hstate : (Script.run handle (Files.entries (above.foldl Paths.join root)).run state).2 =
      state := h.entries _
  have hreply : (Script.run handle (Files.entries (above.foldl Paths.join root)).run state).1 =
      (handle (.entries (above.foldl Paths.join root)) state).1 := rfl
  rw [walk_succ, Script.run_bind, hstate, hreply]
  cases (handle (.entries (above.foldl Paths.join root)) state).1 with
  | error fault => rfl
  | ok names =>
      have hvisits :=
        Script.run_mapM_fst (snd_run_visit h (snd_run_walk h filter root level) above) names
      dsimp only
      rw [Script.run_bind_of_run hvisits]
      rfl

theorem run_visit_subset (h : Files.Stays handle state)
    (hallowed : ∀ path, narrow.allowsDirectory path = true → wide.allowsDirectory path = true)
    (hwalk : ∀ place, (Script.run handle (walk narrow root level place) state).1 ⊆
      (Script.run handle (walk wide root level' place) state).1) (name : String) :
    (Script.run handle (visit narrow root level above name) state).1 ⊆
      (Script.run handle (visit wide root level' above name) state).1 := by
  rw [fst_run_visit h, fst_run_visit h]
  split
  · by_cases hnarrow : narrow.allowsDirectory (pathOf (above ++ [name])) = true
    · rw [if_pos hnarrow, if_pos (hallowed _ hnarrow)]
      exact hwalk _
    · rw [if_neg hnarrow]
      exact List.nil_subset _
  · exact List.Subset.refl _

/-- **A walk that may enter less finds less**, if it does not look deeper. -/
theorem run_walk_subset (h : Files.Stays handle state) (hlevel : level ≤ level')
    (hallowed : ∀ path, narrow.allowsDirectory path = true → wide.allowsDirectory path = true) :
    (Script.run handle (walk narrow root level above) state).1 ⊆
      (Script.run handle (walk wide root level' above) state).1 := by
  induction level generalizing level' above with
  | zero => exact List.nil_subset _
  | succ level ih =>
      obtain ⟨deeper, rfl⟩ :=
        Nat.exists_eq_add_of_le' (Nat.le_trans (Nat.le_add_left 1 level) hlevel)
      have hdeeper : level ≤ deeper := Nat.le_of_succ_le_succ hlevel
      rw [fst_run_walk_succ h, fst_run_walk_succ h]
      split
      · exact List.nil_subset _
      · next names _ =>
        intro place hplace
        obtain ⟨part, hpart, hmem⟩ := List.mem_flatten.1 hplace
        obtain ⟨name, hname, rfl⟩ := List.mem_map.1 hpart
        refine List.mem_flatten.2 ⟨_, List.mem_map_of_mem hname, ?_⟩
        exact run_visit_subset h hallowed (fun place => ih hdeeper) name hmem

/-! ### Scans side by side -/

/-- A scan of a directory that exists. -/
theorem run_discover_of_directory (h : Files.Stays handle state)
    (hroot : (Script.run handle (Files.isDirectory root) state).1 = true) (filter : ScanFilter) :
    Script.run handle (discover root filter) state =
      (.ok (sorted ((((Script.run handle (walk filter root (levels filter) []) state).1.map
        pathOf).filter filter.allowsFile).filter fun path =>
          (Script.run handle (isDocument (Paths.join root path.text)) state).1)), state) := by
  have hdirectory : Script.run handle (Files.isDirectory root) state = (true, state) :=
    Prod.ext hroot (snd_run_isDirectory h root)
  have hwalk : Script.run handle (walk filter root (levels filter) []) state =
      ((Script.run handle (walk filter root (levels filter) []) state).1, state) :=
    Prod.ext rfl (snd_run_walk h filter root (levels filter) [])
  have hread := Script.run_filterM_fst
    (fun path : DocPath => snd_run_isDocument h (Paths.join root path.text))
  rw [discover, Script.run_bind_of_run hdirectory]
  show Script.run handle (walk filter root (levels filter) [] >>= _) state = _
  rw [Script.run_bind_of_run hwalk, Script.run_bind_of_run (hread _)]
  rfl

/-- A scan of what is no directory fails, whatever the filter. -/
theorem run_discover_of_not_directory (h : Files.Stays handle state)
    (hroot : (Script.run handle (Files.isDirectory root) state).1 = false) (filter : ScanFilter) :
    Script.run handle (discover root filter) state =
      (.error (.system (.ofString root) "data directory does not exist"), state) := by
  have hdirectory : Script.run handle (Files.isDirectory root) state = (false, state) :=
    Prod.ext hroot (snd_run_isDirectory h root)
  rw [discover, Script.run_bind_of_run hdirectory]
  rfl

theorem levels_le {strict policy : ScanPolicy} (hnarrow : ScanFilter.ofPolicy strict = .ok narrow)
    (hwide : ScanFilter.ofPolicy policy = .ok wide) (h : strict.Stricter policy)
    (hdepth : policy.maxDepth < 2 ^ 64 - 1) : levels narrow ≤ levels wide := by
  have hle := h.maxDepth
  rw [← (ScanFilter.of_ofPolicy hnarrow).1, ← (ScanFilter.of_ofPolicy hwide).1] at hle
  rw [← (ScanFilter.of_ofPolicy hwide).1] at hdepth
  rw [levels_eq hdepth, levels_eq (Nat.lt_of_le_of_lt hle hdepth)]
  exact Nat.succ_le_succ hle

/-- Two scans of one directory, the first of which looks less deep and lets less through. -/
theorem run_discover_sublist (h : Files.Stays handle state)
    (hroot : (Script.run handle (Files.isDirectory root) state).1 = true)
    (hlevels : levels narrow ≤ levels wide)
    (hdirectories : ∀ path, narrow.allowsDirectory path = true → wide.allowsDirectory path = true)
    (hfiles : ∀ path, narrow.allowsFile path = true → wide.allowsFile path = true) :
    ∃ listed others, Script.run handle (discover root narrow) state = (.ok listed, state) ∧
      Script.run handle (discover root wide) state = (.ok others, state) ∧
        listed.Sublist others := by
  refine ⟨_, _, run_discover_of_directory h hroot narrow, run_discover_of_directory h hroot wide,
    ?_⟩
  refine (ordered_sorted _).sublist_of_subset (ordered_sorted _) fun path hpath => ?_
  rw [mem_sorted, List.mem_filter, List.mem_filter] at hpath ⊢
  obtain ⟨⟨hfound, hallowed⟩, hdocument⟩ := hpath
  have hsubset : (Script.run handle (walk narrow root (levels narrow) []) state).1 ⊆
      (Script.run handle (walk wide root (levels wide) []) state).1 :=
    run_walk_subset h hlevels hdirectories
  exact ⟨⟨List.map_subset pathOf hsubset hfound, hfiles path hallowed⟩, hdocument⟩

/-- **A stricter policy only removes files**: whatever it lets through the other lets through too,
and on every system that is not changed by looking at it the one scan lists a part of what the other
lists, in the same order, or both find no directory to look at. -/
theorem discover_stricter {strict policy : ScanPolicy} (h : strict.Stricter policy)
    (hdepth : policy.maxDepth < 2 ^ 64 - 1) (hnarrow : ScanFilter.ofPolicy strict = .ok narrow)
    (hwide : ScanFilter.ofPolicy policy = .ok wide) :
    (∀ path, narrow.allowsDirectory path = true → wide.allowsDirectory path = true) ∧
      (∀ path, narrow.allowsFile path = true → wide.allowsFile path = true) ∧
      ∀ (σ : Type) (handle : (c : Files.Call) → σ → c.Reply × σ) (state : σ) (root : String),
        Files.Stays handle state →
          (∃ listed others, Script.run handle (discover root narrow) state = (.ok listed, state) ∧
            Script.run handle (discover root wide) state = (.ok others, state) ∧
            listed.Sublist others) ∨
          ∃ e, Script.run handle (discover root narrow) state = (.error e, state) ∧
            Script.run handle (discover root wide) state = (.error e, state) := by
  have hdirectories : ∀ path, narrow.allowsDirectory path = true →
      wide.allowsDirectory path = true :=
    fun path hpath => h.allowsDirectory hnarrow hwide hpath
  have hfiles : ∀ path, narrow.allowsFile path = true → wide.allowsFile path = true :=
    fun path hpath => h.allowsFile hnarrow hwide hpath
  refine ⟨hdirectories, hfiles, fun σ handle state root hstays => ?_⟩
  cases hroot : (Script.run handle (Files.isDirectory root) state).1 with
  | true =>
      have hlevels := levels_le hnarrow hwide h hdepth
      exact .inl (run_discover_sublist hstays hroot hlevels hdirectories hfiles)
  | false =>
      exact .inr ⟨_, run_discover_of_not_directory hstays hroot narrow,
        run_discover_of_not_directory hstays hroot wide⟩

/-- Two scans of a directory, where the stricter policy goes less deep, names a pattern twice and
leaves tool configuration out. -/
theorem discover_stricter_sample : ∃ narrow wide,
    ScanFilter.ofPolicy ⟨1, ["blog/deep", "drafts", "drafts"], true⟩ = .ok narrow ∧
      ScanFilter.ofPolicy ⟨2, ["drafts"], false⟩ = .ok wide ∧
      ∃ listed others, sampleSystem.run (discover "./data/." narrow) = (.ok listed, sampleSystem) ∧
        sampleSystem.run (discover "./data/." wide) = (.ok others, sampleSystem) ∧
        listed.Sublist others := by
  have hstrict : (ScanFilter.ofPolicy ⟨1, ["blog/deep", "drafts", "drafts"], true⟩).toBool =
      true := by
    decide +kernel
  have hpolicy : (ScanFilter.ofPolicy ⟨2, ["drafts"], false⟩).toBool = true := by decide +kernel
  obtain ⟨narrow, hnarrow⟩ := toBool_eq_true.1 hstrict
  obtain ⟨wide, hwide⟩ := toBool_eq_true.1 hpolicy
  have hroot : (sampleSystem.run (Files.isDirectory "./data/.")).1 = true := by decide +kernel
  refine ⟨narrow, wide, hnarrow, hwide, ?_⟩
  obtain ⟨-, -, hscan⟩ :=
    discover_stricter ⟨by decide, by decide, by decide⟩ (by decide) hnarrow hwide
  rcases hscan FileSystem _ sampleSystem "./data/." sampleSystem.stays with hlisted | ⟨e, herror, -⟩
  · exact hlisted
  · rw [run_discover_of_directory sampleSystem.stays hroot] at herror
    cases herror

end Scan

end JsonShelf
