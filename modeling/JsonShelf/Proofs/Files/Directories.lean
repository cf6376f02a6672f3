/-
**Making directories.**

To make a directory and all that is missing above it, a script goes up from the end of the path
until it can make one, and then down again.  On a file system where no file stands in the way this
always succeeds, and afterwards there are directories at all these places and everything else is as
it was.

Main definitions:

* `FileSystem.pathAbove` — the path of a directory as it is found from below;
* `FileSystem.Passable` — no file is in the way;
* `FileSystem.Made` — there are directories now down to a place, and nothing else has changed.

Main results:

* `FileSystem.leadsTo_trimmed` — a path that is cut short leads where it led;
* `FileSystem.makeDirectory_of_leadsTo` — what is there is not made;
* `FileSystem.exists_makeFirst` — the directories down to the end of some names are made;
* `FileSystem.exists_ensureParent` — **the directories above a file are made**.
-/

import JsonShelf.Proofs.Files.Kinds
import JsonShelf.Proofs.Paths.Parent
import JsonShelf.Store.Directory

set_option autoImplicit false

namespace JsonShelf.FileSystem

open Files (Attempt Fault Kind Node)
open Paths (IsStep)

variable {fs after : FileSystem} {root name path : String}
  {base names above front place : List String} {missing rest : List String} {α β : Type}

/-! ### Running attempts -/

theorem attempt_bind (x : Attempt α) (f : α → Attempt β) (fs : FileSystem) :
    fs.attempt (x >>= f) =
      match fs.attempt x with
      | (.ok a, after) => after.attempt (f a)
      | (.error e, after) => (.error e, after) := by
  rw [attempt, Script.run_except_bind]
  have hx : fs.attempt x = Script.run perform x.run fs := rfl
  rw [hx]
  generalize Script.run perform x.run fs = result
  obtain ⟨outcome, after⟩ := result
  cases outcome <;> rfl

theorem attempt_bind_of_attempt {x : Attempt α} {a : α} (h : fs.attempt x = (.ok a, after))
    (f : α → Attempt β) : fs.attempt (x >>= f) = after.attempt (f a) := by
  rw [attempt_bind, h]

theorem attempt_bind_eq_ok {x : Attempt α} {f : α → Attempt β} {b : β}
    (h : fs.attempt (x >>= f) = (.ok b, after)) :
    ∃ a between, fs.attempt x = (.ok a, between) ∧ between.attempt (f a) = (.ok b, after) := by
  rw [attempt_bind] at h
  generalize fs.attempt x = result at h ⊢
  obtain ⟨outcome, between⟩ := result
  cases outcome with
  | error e => cases h
  | ok a => exact ⟨a, between, rfl, h⟩

/-! ### Paths to directories -/

theorem locate_of_leadsTo (h : fs.LeadsTo path place) :
    ∃ entries, fs.locate path = .ok (place, .directory entries) := by
  obtain ⟨front, entries, hfront, hfollow, hplace⟩ := h
  refine ⟨entries, bind_eq_ok.2 ⟨front, hfront, bind_eq_ok.2 ⟨place, hfollow, ?_⟩⟩⟩
  rw [hplace]
  simp [Node.isDirectory, Node.entries?]
  rfl

theorem run_isDirectory_of_leadsTo (h : fs.LeadsTo path place) :
    fs.run (Files.isDirectory path) = (true, fs) := by
  obtain ⟨entries, hlocate⟩ := locate_of_leadsTo h
  have hstatus : fs.status path = .ok ⟨true, false, directorySize, some fs.clock⟩ := by
    rw [status, hlocate]
    rfl
  have hcall : Script.run perform (Files.status path).run fs = (fs.status path, fs) := rfl
  rw [run, Files.isDirectory, Script.run_bind_of_run hcall, hstatus]
  rfl

/-- The spot of a directory that is there is no free one. -/
theorem exists_spot_of_leadsTo (h : fs.LeadsTo path place) :
    ∃ spot target, fs.spot path = .ok ⟨spot, target⟩ ∧ ∀ name, target ≠ some (name, none) := by
  obtain ⟨front, entries, hfront, hfollow, hplace⟩ := h
  rcases List.eq_nil_or_concat front with rfl | ⟨before, last, rfl⟩
  · refine ⟨place, none, ?_, nofun⟩
    obtain rfl : fs.start path = place := Except.ok.inj hfollow
    refine bind_eq_ok.2 ⟨[], hfront, bind_eq_ok.2 ⟨fs.start path, rfl, ?_⟩⟩
    exact bind_eq_ok.2 ⟨entries, directoryAt_eq_ok.2 hplace, rfl⟩
  · rw [List.concat_eq_append] at hfront hfollow
    rw [List.foldlM_append] at hfollow
    obtain ⟨spot, hspot, hlast⟩ := bind_eq_ok.1 hfollow
    rw [List.foldlM_cons] at hlast
    obtain ⟨next, hnext, -⟩ := bind_eq_ok.1 hlast
    obtain ⟨inside, hinside, hnext⟩ := bind_eq_ok.1 hnext
    have hself := spot_concat hfront hspot (directoryAt_eq_ok.1 hinside)
    by_cases hdots : last = "." ∨ last = ".."
    · rw [if_pos hdots] at hself
      exact ⟨spot, none, hself, nofun⟩
    · -- the last step was made to an entry that is there
      rw [not_or] at hdots
      rw [if_neg hdots.1, if_neg hdots.2] at hnext
      obtain ⟨there, hthere, hnext⟩ := bind_eq_ok.1 hnext
      rw [if_neg (not_or.2 hdots), hthere] at hself
      cases there with
      | none => cases hnext
      | some node => exact ⟨spot, some (last, some node), hself, by rintro name ⟨⟩⟩

/-- What is there is not made. -/
theorem makeDirectory_of_leadsTo (h : fs.LeadsTo path place) :
    fs.makeDirectory path = .error .alreadyExists := by
  obtain ⟨place, target, hspot, htarget⟩ := exists_spot_of_leadsTo h
  rw [makeDirectory, hspot]
  cases target with
  | none => rfl
  | some target =>
      obtain ⟨name, there⟩ := target
      cases there with
      | none => exact absurd rfl (htarget name)
      | some node => rfl

/-- Dots lead nowhere else. -/
theorem eq_of_foldlM_dots (hdots : ∀ name ∈ names, name = ".")
    (h : names.foldlM fs.follow above = .ok place) : above = place := by
  induction names with
  | nil => exact Except.ok.inj h
  | cons name rest ih =>
      obtain rfl := hdots name List.mem_cons_self
      rw [List.foldlM_cons] at h
      obtain ⟨next, hnext, h⟩ := bind_eq_ok.1 h
      obtain ⟨entries, -, hnext⟩ := bind_eq_ok.1 hnext
      cases hnext
      exact ih (fun name hname => hdots name (List.mem_cons_of_mem _ hname)) h

theorem foldlM_dots (hdots : ∀ name ∈ names, name = ".") {entries : Members Node}
    (hplace : fs.root.find? place = some (.directory entries)) :
    names.foldlM fs.follow place = .ok place := by
  induction names with
  | nil => rfl
  | cons name rest ih =>
      obtain rfl := hdots name List.mem_cons_self
      have hstep : fs.follow place "." = .ok place :=
        bind_eq_ok.2 ⟨_, directoryAt_eq_ok.2 hplace, rfl⟩
      rw [List.foldlM_cons, hstep]
      exact ih fun name hname => hdots name (List.mem_cons_of_mem _ hname)

/-- Cutting a path short takes dots from its pieces. -/
theorem exists_namesOf_trimmed {cs : List Char} (h : cs ≠ []) :
    ∃ dots, namesOf cs = namesOf (Paths.trimmed cs) ++ dots ∧ ∀ name ∈ dots, name = "." := by
  obtain ⟨rest, hidle, hcut⟩ := Paths.exists_eq_trimmed h
  rcases hcut with hself | hslash | ⟨hroot, hslash⟩
  · refine ⟨[], ?_, nofun⟩
    rw [List.append_nil, ← hself]
  · refine ⟨namesOf rest, ?_, namesOfPieces_of_idle hidle⟩
    rw [← namesOf_append_slash, ← hslash]
  · refine ⟨namesOf rest, ?_, namesOfPieces_of_idle hidle⟩
    rw [hroot, hslash]
    exact namesOf_append_slash [] rest

/-- A path leads where it led if slashes and dots are cut off its end. -/
theorem leadsTo_trimmed (h : fs.LeadsTo root base) :
    fs.LeadsTo (String.ofList (Paths.trimmed root.toList)) base := by
  obtain ⟨front, entries, hfront, hfollow, hbase⟩ := h
  obtain ⟨hnul, hne, hsize, rfl⟩ := pieces_eq_ok.1 hfront
  have hchars : root.toList ≠ [] := fun e => hne (String.toList_eq_nil_iff.1 e)
  obtain ⟨dots, hnames, hdots⟩ := exists_namesOf_trimmed hchars
  obtain ⟨hbegin, htrimmed⟩ := Paths.isPrefix_trimmed hchars
  rw [← String.toList_ofList (l := Paths.trimmed root.toList)] at hbegin
  have hnonempty : String.ofList (Paths.trimmed root.toList) ≠ "" := by
    intro hempty
    refine htrimmed ?_
    rw [← String.toList_ofList (l := Paths.trimmed root.toList), hempty]
    rfl
  have hpieces := pieces_of_isPrefix hbegin hnonempty hfront
  have hstart := start_of_isPrefix hbegin hnonempty fs
  rw [String.toList_ofList] at hpieces
  rw [hnames, List.foldlM_append] at hfollow
  obtain ⟨place, hplace, hlast⟩ := bind_eq_ok.1 hfollow
  obtain rfl := eq_of_foldlM_dots hdots hlast
  exact ⟨_, entries, hpieces, by rw [hstart]; exact hplace, hbase⟩

/-! ### Paths from below -/

/-- The path of the directory at the end of some names, as it is found from below. -/
def pathAbove (root : String) (names : List String) : String :=
  String.ofList (Paths.trimmed (names.foldl Paths.join root).toList)

theorem foldl_join_ne_empty (hroot : root ≠ "") (h : ∀ name ∈ names, IsStep name) :
    names.foldl Paths.join root ≠ "" := by
  intro hempty
  have hsize := size_le_foldl_join root h
  rw [hempty, String.utf8ByteSize_empty, Nat.le_zero] at hsize
  exact hroot (String.utf8ByteSize_eq_zero_iff.1 hsize)

theorem parent?_foldl_join (hroot : root ≠ "") (h : ∀ n ∈ names ++ [name], IsStep n) :
    Paths.parent? ((names ++ [name]).foldl Paths.join root) = some (pathAbove root names) := by
  rw [List.foldl_append]
  exact Paths.parent?_join (foldl_join_ne_empty hroot fun n hn => h n (by simp [hn]))
    (h name (by simp))

theorem pathAbove_concat (hroot : root ≠ "") (h : ∀ n ∈ names ++ [name], IsStep n) :
    pathAbove root (names ++ [name]) = (names ++ [name]).foldl Paths.join root := by
  have hbase : names.foldl Paths.join root ≠ "" :=
    foldl_join_ne_empty hroot fun n hn => h n (by simp [hn])
  have htrimmed := Paths.trimmed_join hbase (h name (by simp))
  rw [pathAbove, List.foldl_append]
  show String.ofList (Paths.trimmed (Paths.join (names.foldl Paths.join root) name).toList) = _
  rw [htrimmed, String.ofList_toList]
  rfl

/-- Names that lead to a directory make a path that does. -/
theorem leadsTo_foldl_join (hroot : fs.LeadsTo root base) (h : Fits root names)
    (hdirectory : fs.kindAt (base ++ names) = some .directory) :
    fs.LeadsTo (names.foldl Paths.join root) (base ++ names) := by
  obtain ⟨entries, hentries⟩ := Node.kindAt_eq_directory.1 hdirectory
  exact leadsTo_of_locate (locate_of_find? hroot h hentries)

theorem leadsTo_pathAbove (hroot : fs.LeadsTo root base) (h : Fits root names)
    (hdirectory : fs.kindAt (base ++ names) = some .directory) :
    fs.LeadsTo (pathAbove root names) (base ++ names) :=
  leadsTo_trimmed (leadsTo_foldl_join hroot h hdirectory)

/-- The directories above a directory, from below. -/
theorem ancestors_pathAbove (hroot : root ≠ "") (h : ∀ n ∈ names ++ [name], IsStep n)
    (bound : Nat) :
    Files.ancestors (bound + 1) (pathAbove root (names ++ [name])) =
      pathAbove root (names ++ [name]) :: Files.ancestors bound (pathAbove root names) := by
  have hparent := parent?_foldl_join hroot h
  have hbase : names.foldl Paths.join root ≠ "" :=
    foldl_join_ne_empty hroot fun n hn => h n (by simp [hn])
  have hname := h name (by simp)
  have hcomponents : (Paths.components ((names ++ [name]).foldl Paths.join root)).isEmpty =
      false := by
    rw [List.foldl_append, List.foldl_cons, List.foldl_nil,
      Paths.components_join_of_not_isAbsolute hbase (Scan.isAbsolute_of_isStep hname),
      Paths.steps_of_notMem hname.slash_notMem, Paths.isIdle_of_isStep hname]
    simp
  rw [pathAbove_concat hroot h, Files.ancestors, hparent]
  show (if (Paths.components _).isEmpty then [] else _) = _
  rw [hcomponents]
  rfl

/-! ### Ways that no file stands in -/

/-- No file stands at the end of some names or above. -/
def Passable (fs : FileSystem) (base names : List String) : Prop :=
  ∀ above, above <+: names → ∀ content modified,
    fs.kindAt (base ++ above) ≠ some (.file content modified)

theorem Passable.of_above (h : fs.Passable base names) (habove : above <+: names) :
    fs.Passable base above :=
  fun front hfront => h front (hfront.trans habove)

theorem Passable.clear (h : fs.Passable base names) : fs.Clear base names :=
  fun above habove _ content modified hfile =>
    h above habove content modified (Node.kindAt_eq_file.2 hfile)

/-- If no file is in the way of some names, none stands where all but the last of them lead. -/
theorem Clear.passable (h : fs.Clear base (names ++ [name])) : fs.Passable base names := by
  intro above habove content modified hfile
  refine h above (habove.trans (List.prefix_append names [name])) ?_ content modified
    (Node.kindAt_eq_file.1 hfile)
  rintro rfl
  have hlength := habove.length_le
  rw [List.length_append, List.length_singleton] at hlength
  omega

/-! ### Single attempts -/

theorem attempt_outcome (path : String) (fs : FileSystem) :
    fs.attempt (Files.outcome (Files.makeDirectory path)) =
      (.ok (fs.commit (fs.makeDirectory path)).1, (fs.commit (fs.makeDirectory path)).2) := rfl

theorem attempt_isDirectory_of_leadsTo (h : fs.LeadsTo path place) :
    fs.attempt (liftM (Files.isDirectory path) : Attempt Bool) = (.ok true, fs) :=
  Script.run_bind_of_run (run_isDirectory_of_leadsTo h) _

/-- The first directory can be made. -/
theorem attempt_makeFirst_of_ok (h : fs.makeDirectory path = .ok after) :
    fs.attempt (Files.makeFirst missing (path :: rest)) = (.ok missing, after) := by
  have hcall := attempt_outcome path fs
  rw [h] at hcall
  rw [Files.makeFirst, attempt_bind_of_attempt hcall]
  rfl

/-- The first directory is there. -/
theorem attempt_makeFirst_of_leadsTo (h : fs.LeadsTo path place) :
    fs.attempt (Files.makeFirst missing (path :: rest)) = (.ok missing, fs) := by
  have hcall := attempt_outcome path fs
  rw [makeDirectory_of_leadsTo h] at hcall
  rw [Files.makeFirst, attempt_bind_of_attempt hcall]
  show fs.attempt ((liftM (Files.isDirectory path) : Attempt Bool) >>= _) = _
  rw [attempt_bind_of_attempt (attempt_isDirectory_of_leadsTo h)]
  rfl

/-- The first directory can only be made later. -/
theorem attempt_makeFirst_of_notFound (h : fs.makeDirectory path = .error .notFound) :
    fs.attempt (Files.makeFirst missing (path :: rest)) =
      fs.attempt (Files.makeFirst (path :: missing) rest) := by
  have hcall := attempt_outcome path fs
  rw [h] at hcall
  rw [Files.makeFirst, attempt_bind_of_attempt hcall]
  rfl

theorem attempt_ensureDirectory_of_ok (h : fs.makeDirectory path = .ok after) :
    fs.attempt (Files.ensureDirectory path) = (.ok (), after) := by
  have hcall := attempt_outcome path fs
  rw [h] at hcall
  rw [Files.ensureDirectory, attempt_bind_of_attempt hcall]
  rfl

/-- Makes directories one after the other, unless they are there. -/
def ensureAll : List String → Attempt Unit
  | [] => pure ()
  | path :: rest => do
    Files.ensureDirectory path
    ensureAll rest

theorem createDirectories_eq (path : String) :
    Files.createDirectories path =
      Files.makeFirst [] (Files.ancestors path.length.succ path) >>= ensureAll := by
  rw [Files.createDirectories]
  refine congrArg _ (funext fun missing => ?_)
  induction missing with
  | nil => rfl
  | cons path rest ih =>
      rw [ensureAll, ← ih]
      simp

/-! ### What is made -/

theorem kindAt_put {node : Node} (hplace : fs.kindAt place = some .directory)
    (hold : fs.kindAt (place ++ [name]) ≠ some .directory) (hnode : node.IsLeaf)
    (other : List String) :
    (fs.put (place ++ [name]) node).kindAt other =
      if other = place ++ [name] then some node.kind else fs.kindAt other := by
  obtain ⟨entries, hentries⟩ := Node.kindAt_eq_directory.1 hplace
  exact Node.kindAt_replace hentries hold hnode

/-- Above a directory there are directories. -/
theorem kindAt_of_append (h : fs.kindAt (place ++ rest) = some .directory) :
    fs.kindAt place = some .directory := by
  induction rest using List.reverseRecOn with
  | nil => rwa [List.append_nil] at h
  | append_singleton rest name ih =>
      rw [← List.append_assoc] at h
      exact ih (kindAt_of_concat h)

/-- There are directories now down to a place, and nothing else has changed. -/
structure Made (fs after : FileSystem) (base names : List String) : Prop where
  here : after.here = fs.here
  inside : ∀ above, above <+: names → after.kindAt (base ++ above) = some .directory
  outside : ∀ place, (∀ above, above <+: names → place ≠ base ++ above) →
    after.kindAt place = fs.kindAt place

/-- Nothing is to be made if all is there. -/
theorem Made.refl (h : fs.kindAt (base ++ names) = some .directory) : Made fs fs base names := by
  refine ⟨rfl, ?_, fun _ _ => rfl⟩
  rintro above ⟨back, rfl⟩
  rw [← List.append_assoc] at h
  exact kindAt_of_append h

theorem Made.stay (h : Made fs after base names) (hplace : fs.kindAt place = some .directory) :
    after.kindAt place = some .directory := by
  by_cases hinside : ∃ above, above <+: names ∧ place = base ++ above
  · obtain ⟨above, habove, rfl⟩ := hinside
    exact h.inside above habove
  · rw [h.outside place fun above habove heq => hinside ⟨above, habove, heq⟩, hplace]

/-- One more directory is made. -/
theorem Made.concat (h : Made fs after base names)
    (hmissing : after.kindAt (base ++ names ++ [name]) = none) :
    Made fs (after.put (base ++ names ++ [name]) (.directory [])) base (names ++ [name]) := by
  have hkind := kindAt_put (h.inside names (List.prefix_refl names)) (by rw [hmissing]; exact nofun)
    Node.isLeaf_empty
  refine ⟨h.here, ?_, ?_⟩
  · intro above habove
    rw [hkind]
    rcases List.prefix_concat_iff.1 habove with rfl | habove
    · rw [← List.append_assoc, if_pos rfl]
      rfl
    · split
      · rfl
      · exact h.inside above habove
  · intro place hplace
    rw [hkind, if_neg, h.outside]
    · exact fun above habove => hplace above (habove.trans (List.prefix_append names [name]))
    · rw [List.append_assoc]
      exact hplace _ (List.prefix_refl _)

theorem makeDirectory_of_missing (hroot : fs.LeadsTo root base) (h : Fits root (names ++ [name]))
    (habove : fs.kindAt (base ++ names) = some .directory)
    (hmissing : fs.kindAt (base ++ names ++ [name]) = none) :
    fs.makeDirectory ((names ++ [name]).foldl Paths.join root) =
      .ok (fs.put (base ++ names ++ [name]) (.directory [])) := by
  obtain ⟨entries, hentries⟩ := Node.kindAt_eq_directory.1 habove
  have hget : Members.get? name entries = none := by
    rw [← find?_concat hentries]
    exact Node.kindAt_eq_none.1 hmissing
  rw [makeDirectory, spot_of_directory hroot h hentries, hget]
  rfl

/-- Nothing can be made in a directory that is missing. -/
theorem makeDirectory_of_notFound (hroot : fs.LeadsTo root base) (h : Fits root (names ++ [name]))
    (hmissing : fs.kindAt (base ++ names) = none)
    (hpassable : fs.Passable base names) :
    fs.makeDirectory ((names ++ [name]).foldl Paths.join root) = .error .notFound := by
  have hspot := spot_of_missing hroot h (Node.kindAt_eq_none.1 hmissing) hpassable.clear
  rw [makeDirectory, hspot]
  rfl

theorem attempt_makeFirst_root (hroot : fs.LeadsTo root base) (bound : Nat) :
    fs.attempt (Files.makeFirst missing (Files.ancestors (bound + 1) (pathAbove root []))) =
      (.ok missing, fs) := by
  rw [Files.ancestors]
  split
  · rfl
  · split
    · rfl
    · exact attempt_makeFirst_of_leadsTo (leadsTo_trimmed hroot)

/-- **The directories down to the end of some names are made**, however many of them are missing. -/
theorem exists_makeFirst (missing : List String) (hroot : fs.LeadsTo root base)
    (h : Fits root names) (hpassable : fs.Passable base names)
    {bound : Nat} (hbound : names.length < bound) :
    ∃ after, Made fs after base names ∧
      fs.attempt (Files.makeFirst missing (Files.ancestors bound (pathAbove root names)) >>=
        ensureAll) = after.attempt (ensureAll missing) := by
  have hne : root ≠ "" := by
    obtain ⟨front, -, hfront, -⟩ := hroot
    exact (pieces_eq_ok.1 hfront).2.1
  obtain ⟨bound, rfl⟩ : ∃ b, bound = b + 1 := ⟨bound - 1, by omega⟩
  induction names using List.reverseRecOn generalizing bound missing with
  | nil =>
      refine ⟨fs, Made.refl ?_, attempt_bind_of_attempt (attempt_makeFirst_root hroot bound) _⟩
      obtain ⟨_, entries, _, _, hbase⟩ := hroot
      rw [List.append_nil]
      exact Node.kindAt_eq_directory.2 ⟨entries, hbase⟩
  | append_singleton names name ih =>
      have habove := h.of_above (List.prefix_append names [name])
      have hpassable' := hpassable.of_above (List.prefix_append names [name])
      rw [ancestors_pathAbove hne h.isStep]
      cases hkind : fs.kindAt (base ++ (names ++ [name])) with
      | some kind =>
          cases kind with
          | file content modified =>
              exact absurd hkind (hpassable _ (List.prefix_refl _) content modified)
          | directory =>
              refine ⟨fs, Made.refl hkind, ?_⟩
              exact attempt_bind_of_attempt
                (attempt_makeFirst_of_leadsTo (leadsTo_pathAbove hroot h hkind)) _
      | none =>
          rw [← List.append_assoc] at hkind
          rw [pathAbove_concat hne h.isStep]
          cases hup : fs.kindAt (base ++ names) with
          | some kind =>
              cases kind with
              | file content modified =>
                  exact absurd hup (hpassable' _ (List.prefix_refl _) content modified)
              | directory =>
                  refine ⟨_, (Made.refl hup).concat hkind, ?_⟩
                  exact attempt_bind_of_attempt
                    (attempt_makeFirst_of_ok (makeDirectory_of_missing hroot h hup hkind)) _
          | none =>
              -- the directory above has to be made first, and then this one
              have hbound' : names.length < bound := by
                rw [List.length_append, List.length_singleton] at hbound
                omega
              obtain ⟨bound, rfl⟩ : ∃ b, bound = b + 1 := ⟨bound - 1, by omega⟩
              obtain ⟨between, hmade, hrun⟩ :=
                ih ((names ++ [name]).foldl Paths.join root :: missing) habove hpassable' bound
                  hbound'
              have hbetween : between.kindAt (base ++ names ++ [name]) = none := by
                rw [hmade.outside _ fun above hprefix => ?_, hkind]
                rw [List.append_assoc]
                intro heq
                have hlength := hprefix.length_le
                rw [← List.append_cancel_left heq, List.length_append,
                  List.length_singleton] at hlength
                omega
              have hensure := attempt_ensureDirectory_of_ok (makeDirectory_of_missing
                (leadsTo_of_directories hmade.here (fun _ => hmade.stay) hroot) h
                (hmade.inside names (List.prefix_refl names)) hbetween)
              refine ⟨_, hmade.concat hbetween, ?_⟩
              rw [attempt_bind, attempt_makeFirst_of_notFound (makeDirectory_of_notFound hroot h hup
                hpassable'), ← attempt_bind, hrun, ensureAll]
              exact attempt_bind_of_attempt hensure _

/-- Each name makes a path longer. -/
theorem length_le_foldl_join (h : ∀ name ∈ names, IsStep name) :
    names.length ≤ (names.foldl Paths.join root).length := by
  induction names using List.reverseRecOn with
  | nil => exact Nat.zero_le _
  | append_singleton names name ih =>
      have hname := h name (by simp)
      have hpos : 0 < name.length := by
        rw [← String.length_toList]
        exact List.length_pos_iff.2 (Scan.toList_ne_nil hname)
      have hrest := ih fun n hn => h n (by simp [hn])
      rw [List.foldl_append, List.foldl_cons, List.foldl_nil,
        Scan.join_eq _ (Scan.isAbsolute_of_isStep hname), List.length_append, List.length_singleton,
        String.length_append, String.length_append]
      omega

theorem length_lt_pathAbove (hroot : root ≠ "") (h : ∀ name ∈ names, IsStep name) :
    names.length < (pathAbove root names).length.succ := by
  rcases List.eq_nil_or_concat names with rfl | ⟨names, name, rfl⟩
  · exact Nat.succ_pos _
  · rw [List.concat_eq_append] at h ⊢
    rw [pathAbove_concat hroot h]
    exact Nat.lt_succ_of_le (length_le_foldl_join h)

/-- **The directories above a file are made**, however many of them are missing. -/
theorem exists_ensureParent (hroot : fs.LeadsTo root base) (h : Fits root (names ++ [name]))
    (hpassable : fs.Passable base names) :
    ∃ after, Made fs after base names ∧
      fs.attempt (DirectoryStore.ensureParent ((names ++ [name]).foldl Paths.join root)) =
        (.ok (), after) := by
  have hne : root ≠ "" := by
    obtain ⟨front, -, hfront, -⟩ := hroot
    exact (pieces_eq_ok.1 hfront).2.1
  have habove := h.of_above (List.prefix_append names [name])
  obtain ⟨after, hmade, hrun⟩ := exists_makeFirst [] hroot habove hpassable
    (length_lt_pathAbove hne habove.isStep)
  refine ⟨after, hmade, ?_⟩
  rw [DirectoryStore.ensureParent, parent?_foldl_join hne h.isStep]
  show fs.attempt (Files.createDirectories _) = _
  rw [createDirectories_eq, hrun]
  rfl

end JsonShelf.FileSystem
