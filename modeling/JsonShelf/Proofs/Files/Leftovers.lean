/-
**What is left of directories that were made in vain.**

To make a directory, those above it are made first, and if one of the later ones cannot be made, the
earlier ones stay.  But a directory that was missing could not be made for one reason only, that the
one above it was missing too; and behind that one, when it is new and there is nothing in it, no
entry can be in the way.  So all of them are made, or nothing is done.

Main definitions:

* `FileSystem.Takes` — the system takes a path: nothing in it is too long or leads nowhere by two
  dots;
* `FileSystem.LeadsToEmpty` — a path leads to a directory with nothing in it;
* `FileSystem.GoesOn` — what comes of making directories, up to those that are left to make.

Main results:

* `Paths.exists_pieces_of_parent?`, `FileSystem.exists_names_of_parent?` — a path goes on behind the
  path above it by one name, with dots around it;
* `FileSystem.exists_makeDirectory` — behind a new directory a missing one can be made;
* `FileSystem.goesOn_makeFirst` — making directories fails before anything is made, or goes on;
* `FileSystem.attempt_ensureParent_or` — **the directories above a file are all made or all left
  alone**.
-/

import JsonShelf.Proofs.Files.Directories

set_option autoImplicit false

namespace JsonShelf

namespace Paths

variable {cs : List Char} {ps : List (List Char)} {path parent : String}

/-- What is left of pieces ends in a component, if anything is left. -/
theorem isIdle_of_shortened {front : List (List Char)} {last : List Char}
    (h : shortened ps = front ++ [last]) : isIdle last = false := by
  have hhead := List.head?_dropWhile_not isIdle ps.reverse
  have hreverse : ps.reverse.dropWhile isIdle = last :: front.reverse := by
    rw [← List.reverse_reverse (ps.reverse.dropWhile isIdle)]
    show (shortened ps).reverse = _
    rw [h, List.reverse_concat]
  rw [hreverse] at hhead
  exact hhead

/-- The path above a path is made of its pieces up to a component, without the last component. -/
theorem exists_pieces_of_parent? (h : parent? path = some parent) : parent = "" ∨
    ∃ front dots last rest, pieces path.toList = shortened front ++ dots ++ last :: rest ∧
      (∀ piece ∈ dots, isIdle piece = true) ∧ isIdle last = false ∧
      (∀ piece ∈ rest, isIdle piece = true) ∧
      parent.toList = anchor path.toList ++ ['/'].intercalate (shortened front) := by
  unfold parent? at h
  dsimp only at h
  split at h
  · next last before hlast =>
    cases h
    have hshort : shortened (pieces path.toList) = before.reverse ++ [last] := by
      rw [shortened, hlast, List.reverse_cons]
    obtain ⟨rest, hrest, hidle⟩ := exists_eq_shortened (pieces path.toList)
    obtain ⟨dots, hdots, hidleDots⟩ := exists_eq_shortened before.reverse
    refine .inr ⟨before.reverse, dots, last, rest, ?_, hidleDots, isIdle_of_shortened hshort, hidle,
      ?_⟩
    · rw [hrest, hshort, ← hdots, List.append_assoc]
      rfl
    · rw [String.toList_ofList, shortened, List.reverse_reverse]
  · split at h
    · cases h
      exact .inl rfl
    · cases h

/-- The path above a path is the start of it. -/
theorem isPrefix_of_parent? (h : parent? path = some parent) : parent.toList <+: path.toList := by
  rcases exists_pieces_of_parent? h with rfl | ⟨front, dots, last, rest, hpieces, -, -, -, hparent⟩
  · exact List.nil_prefix
  · have hself := anchor_append_pieces path.toList
    rw [hparent]
    by_cases hnil : shortened front = []
    · rw [hnil]
      exact (List.append_nil (anchor path.toList)).symm ▸ isPrefix_anchor path.toList
    · rw [hpieces, List.append_assoc, intercalate_append hnil (by simp),
        ← List.append_assoc] at hself
      exact ⟨_, hself⟩

end Paths

namespace FileSystem

open Files (Attempt Fault)
open Paths (anchor shortened isIdle)

/-- The names in an anchor. -/
def namesOfAnchor (anchor : List Char) : List String := if anchor = ['.'] then ["."] else []

variable {cs : List Char} {ps qs : List (List Char)} {path parent : String}

theorem length_namesOfAnchor_le (anchor : List Char) : (namesOfAnchor anchor).length ≤ 1 := by
  unfold namesOfAnchor
  split <;> decide

theorem namesOfPieces_append (ps qs : List (List Char)) :
    namesOfPieces (ps ++ qs) = namesOfPieces ps ++ namesOfPieces qs := by
  rw [namesOfPieces, List.filter_append, List.map_append]
  rfl

theorem namesOfPieces_singleton {piece : List Char} (h : isIdle piece = false) :
    namesOfPieces [piece] = [String.ofList piece] := by
  have hne : piece ≠ [] := by
    rintro rfl
    cases h
  simp [namesOfPieces, hne]

theorem namesOf_intercalate_pieces (h : ∀ piece ∈ ps, '/' ∉ piece) :
    namesOf (['/'].intercalate ps) = namesOfPieces ps := by
  by_cases hnil : ps = []
  · rw [hnil]
    rfl
  · rw [namesOf, Paths.splitOnP_intercalate h hnil]
    rfl

/-- The names in what stands at the start of a path. -/
theorem namesOf_anchor_append (h : ps <+: Paths.pieces cs) :
    namesOf (anchor cs ++ ['/'].intercalate ps) =
      namesOfAnchor (anchor cs) ++ namesOfPieces ps := by
  have hslash : ∀ piece ∈ ps, '/' ∉ piece := by
    intro piece hpiece hmem
    exact absurd (Text.mem_and_not_of_mem_splitOnP (h.subset hpiece) '/' hmem).2 (by decide)
  rcases Paths.anchor_cases cs with ⟨hanchor, -⟩ | ⟨hanchor, hcs⟩ | hanchor
  · rw [hanchor]
    exact (namesOf_append_slash [] _).trans (congrArg _ (namesOf_intercalate_pieces hslash))
  · have hfirst : ∃ rest, Paths.pieces cs = [] :: rest := by
      rw [Paths.pieces, hanchor]
      rcases hcs with rfl | ⟨rest, rfl⟩
      · exact ⟨[], rfl⟩
      · exact ⟨_, List.splitOnP_append_cons [] rest rfl⟩
    obtain ⟨rest, hrest⟩ := hfirst
    rw [hanchor]
    cases ps with
    | nil => rfl
    | cons first ps =>
        rw [hrest] at h
        obtain ⟨rfl, -⟩ := List.cons_prefix_cons.1 h
        cases ps with
        | nil => rfl
        | cons second ps =>
            have htail := namesOf_intercalate_pieces fun piece hpiece =>
              hslash piece (List.mem_cons_of_mem [] hpiece)
            rw [List.intercalate_cons_cons]
            exact (namesOf_append_slash ['.'] _).trans (congrArg _ htail)
  · rw [hanchor]
    exact namesOf_intercalate_pieces hslash

/-- A path goes on behind the path above it by dots, a name and dots. -/
theorem exists_names_of_parent? (h : Paths.parent? path = some parent) (hne : parent ≠ "") :
    ∃ dots last rest, namesOf path.toList = namesOf parent.toList ++ dots ++ last :: rest ∧
      (∀ name ∈ dots, name = ".") ∧ last ≠ "." ∧ ∀ name ∈ rest, name = "." := by
  rcases Paths.exists_pieces_of_parent? h with rfl | ⟨front, dots, last, rest, hpieces, hdots,
    hlast, hrest, hparent⟩
  · exact absurd rfl hne
  · refine ⟨namesOfPieces dots, String.ofList last, namesOfPieces rest, ?_,
      namesOfPieces_of_idle hdots, ?_, namesOfPieces_of_idle hrest⟩
    · have hpath := namesOf_anchor_append (List.prefix_refl (Paths.pieces path.toList))
      have hbegin : shortened front <+: Paths.pieces path.toList := by
        rw [hpieces, List.append_assoc]
        exact List.prefix_append _ _
      rw [Paths.anchor_append_pieces, hpieces, namesOfPieces_append, namesOfPieces_append,
        ← List.singleton_append, namesOfPieces_append, namesOfPieces_singleton hlast] at hpath
      rw [hpath, hparent, namesOf_anchor_append hbegin]
      simp
    · intro hdot
      have hchars := congrArg String.toList hdot
      rw [String.toList_ofList] at hchars
      rw [hchars] at hlast
      cases hlast

/-- The same of a path that ends in no dot, but for one at the start. -/
theorem exists_concat_of_parent? (h : Paths.parent? path = some parent) (hne : parent ≠ "")
    (hlast : ∀ front, namesOf path.toList = front ++ ["."] → front = []) :
    ∃ dots name, namesOf path.toList = namesOf parent.toList ++ dots ++ [name] ∧
      (∀ name ∈ dots, name = ".") ∧ name ≠ "." := by
  obtain ⟨dots, name, rest, hnames, hdots, hdot, hrest⟩ := exists_names_of_parent? h hne
  rcases List.eq_nil_or_concat rest with rfl | ⟨front, last, rfl⟩
  · exact ⟨dots, name, hnames, hdots, hdot⟩
  · rw [List.concat_eq_append] at hnames hrest
    obtain rfl := hrest last (by simp)
    have hfront := hlast (namesOf parent.toList ++ dots ++ name :: front) (by rw [hnames]; simp)
    simp at hfront

/-- The names in the path above a path end in no dot, but for one at the start. -/
theorem eq_nil_of_parent? (h : Paths.parent? path = some parent) {front : List String}
    (hdot : namesOf parent.toList = front ++ ["."]) : front = [] := by
  rcases Paths.exists_pieces_of_parent? h with rfl | ⟨before, dots, last, rest, hpieces, -, -, -,
    hparent⟩
  · exact absurd hdot.symm (List.append_ne_nil_of_right_ne_nil front (List.cons_ne_nil _ _))
  · have hbegin : shortened before <+: Paths.pieces path.toList := by
      rw [hpieces, List.append_assoc]
      exact List.prefix_append _ _
    rw [hparent, namesOf_anchor_append hbegin] at hdot
    rcases List.eq_nil_or_concat (shortened before) with hnil | ⟨kept, name, hkept⟩
    · have hanchor := length_namesOfAnchor_le (anchor path.toList)
      have hnone : (namesOfPieces []).length = 0 := rfl
      have hlength := congrArg List.length hdot
      rw [hnil, List.length_append, List.length_append, List.length_singleton] at hlength
      exact List.length_eq_zero_iff.1 (by omega)
    · rw [List.concat_eq_append] at hkept
      have hidle := Paths.isIdle_of_shortened hkept
      rw [hkept, namesOfPieces_append, namesOfPieces_singleton hidle, ← List.append_assoc] at hdot
      have hlast : [String.ofList name] = ["."] := List.append_inj_right' hdot rfl
      have hname := congrArg String.toList (List.singleton_inj.1 hlast)
      rw [String.toList_ofList] at hname
      rw [hname] at hidle
      cases hidle

/-! ### Paths that the system takes -/

/-- The system takes a path: it can be followed, no name in it is too long, and every two dots in it
lead somewhere. -/
structure Takes (fs : FileSystem) (path : String) : Prop where
  pieces : FileSystem.pieces path = .ok (namesOf path.toList)
  size_le : ∀ name ∈ namesOf path.toList, name.utf8ByteSize ≤ longestName
  up : ∀ front, front ++ [".."] <+: namesOf path.toList →
    ∃ place, (front ++ [".."]).foldlM fs.follow (fs.start path) = .ok place

/-- The path above a path that the system takes. -/
theorem Takes.of_parent? {fs : FileSystem} (h : fs.Takes path)
    (hparent : Paths.parent? path = some parent) (hne : parent ≠ "") : fs.Takes parent := by
  have hbegin := Paths.isPrefix_of_parent? hparent
  obtain ⟨dots, last, rest, hnames, -⟩ := exists_names_of_parent? hparent hne
  have hfront : namesOf parent.toList <+: namesOf path.toList := by
    rw [hnames, List.append_assoc]
    exact List.prefix_append _ _
  refine ⟨pieces_of_isPrefix hbegin hne h.pieces,
    fun name hname => h.size_le name (hfront.subset hname), fun front hup => ?_⟩
  rw [start_of_isPrefix hbegin hne]
  exact h.up front (hup.trans hfront)

/-! ### Directories that are new -/

variable {fs after : FileSystem} {name : String} {dots place : List String}

/-- The path leads to a directory with nothing in it. -/
def LeadsToEmpty (fs : FileSystem) (path : String) : Prop :=
  ∃ front place, pieces path = .ok front ∧ front.foldlM fs.follow (fs.start path) = .ok place ∧
    fs.root.find? place = some (.directory [])

theorem LeadsToEmpty.ne_empty (h : fs.LeadsToEmpty path) : path ≠ "" := by
  obtain ⟨front, place, hfront, -⟩ := h
  exact (pieces_eq_ok.1 hfront).2.1

/-- A directory that was made has nothing in it. -/
theorem leadsToEmpty_of_makeDirectory (h : fs.makeDirectory path = .ok after) :
    after.LeadsToEmpty path := by
  obtain ⟨spot, hspot, h⟩ := bind_eq_ok.1 h
  split at h
  · next place name =>
    cases h
    obtain ⟨front, hpieces, hfollow, hself⟩ := exists_foldlM_put_spot hspot nofun (.directory [])
    exact ⟨front, _, hpieces, hfollow, hself⟩
  · cases h

/-- Behind the path of a directory with nothing in it there is a free spot. -/
theorem exists_spot_of_leadsToEmpty (hempty : fs.LeadsToEmpty parent)
    (hpieces : pieces path = .ok (namesOf path.toList)) (hstart : fs.start parent = fs.start path)
    (hnames : namesOf path.toList = namesOf parent.toList ++ dots ++ [name])
    (hdots : ∀ name ∈ dots, name = ".") (hdot : name ≠ ".") (hup : name ≠ "..")
    (hsize : name.utf8ByteSize ≤ longestName) :
    ∃ place, fs.spot path = .ok ⟨place, some (name, none)⟩ := by
  obtain ⟨front, place, hfront, hfollow, hplace⟩ := hempty
  obtain ⟨-, -, -, rfl⟩ := pieces_eq_ok.1 hfront
  refine ⟨place, ?_⟩
  have habove : (namesOf parent.toList ++ dots).foldlM fs.follow (fs.start path) = .ok place := by
    rw [List.foldlM_append, ← hstart, hfollow]
    exact foldlM_dots hdots hplace
  rw [hnames] at hpieces
  rw [spot_concat hpieces habove hplace, if_neg (not_or.2 ⟨hdot, hup⟩), entry_of_le hsize]
  rfl

/-! ### Making directories -/

variable {missing rest : List String}

/-- Two dots that lead somewhere are no directory that is missing. -/
theorem makeDirectory_of_up {front : List String} (hpieces : pieces path = .ok (front ++ [".."]))
    (hup : (front ++ [".."]).foldlM fs.follow (fs.start path) = .ok place) :
    fs.makeDirectory path = .error .alreadyExists := by
  rw [List.foldlM_append] at hup
  obtain ⟨above, habove, hlast⟩ := bind_eq_ok.1 hup
  rw [List.foldlM_cons] at hlast
  obtain ⟨_, hstep, -⟩ := bind_eq_ok.1 hlast
  obtain ⟨entries, hentries, -⟩ := bind_eq_ok.1 hstep
  rw [makeDirectory, spot_concat hpieces habove (directoryAt_eq_ok.1 hentries), if_pos (.inr rfl)]
  rfl

/-- A directory that was missing can be made when the one above it is there and has nothing in
it. -/
theorem exists_makeDirectory (h : fs.Takes path)
    (hlast : ∀ front, namesOf path.toList = front ++ ["."] → front = [])
    (hmissing : fs.makeDirectory path = .error .notFound)
    (hparent : Paths.parent? path = some parent)
    (hempty : after.LeadsToEmpty parent) : ∃ next, after.makeDirectory path = .ok next := by
  have hne := hempty.ne_empty
  obtain ⟨dots, name, hnames, hdots, hdot⟩ := exists_concat_of_parent? hparent hne hlast
  have hup : name ≠ ".." := by
    rintro rfl
    obtain ⟨place, hplace⟩ := h.up (namesOf parent.toList ++ dots)
      ⟨[], by rw [hnames, List.append_nil]⟩
    rw [makeDirectory_of_up (hnames ▸ h.pieces) hplace] at hmissing
    cases hmissing
  have hstart := start_of_isPrefix (Paths.isPrefix_of_parent? hparent) hne after
  obtain ⟨place, hspot⟩ := exists_spot_of_leadsToEmpty hempty h.pieces hstart hnames hdots hdot hup
    (h.size_le name (by rw [hnames]; simp))
  exact ⟨_, bind_eq_ok.2 ⟨_, hspot, rfl⟩⟩

/-- Looking for a directory changes nothing. -/
theorem exists_attempt_isDirectory (path : String) (fs : FileSystem) :
    ∃ answer, fs.attempt (liftM (Files.isDirectory path) : Attempt Bool) = (.ok answer, fs) := by
  have hcall : Script.run perform (Files.status path).run fs = (fs.status path, fs) := rfl
  cases hstatus : fs.status path with
  | error fault =>
      rw [hstatus] at hcall
      exact ⟨false, Script.run_bind_of_run (Script.run_bind_of_run hcall _) _⟩
  | ok status =>
      rw [hstatus] at hcall
      exact ⟨status.isDirectory, Script.run_bind_of_run (Script.run_bind_of_run hcall _) _⟩

/-- A directory that cannot be made is there, or all fails. -/
theorem attempt_makeFirst_of_error {fault : Fault} (h : fs.makeDirectory path = .error fault)
    (hfault : fault ≠ .notFound) :
    (∃ e, fs.attempt (Files.makeFirst missing (path :: rest)) = (.error e, fs)) ∨
      fs.attempt (Files.makeFirst missing (path :: rest)) = (.ok missing, fs) := by
  have hcall := attempt_outcome path fs
  rw [h] at hcall
  rw [Files.makeFirst, attempt_bind_of_attempt hcall]
  cases fault with
  | notFound => exact absurd rfl hfault
  | alreadyExists =>
      obtain ⟨answer, hanswer⟩ := exists_attempt_isDirectory path fs
      show (∃ e, fs.attempt ((liftM (Files.isDirectory path) : Attempt Bool) >>= _) = _) ∨
        fs.attempt ((liftM (Files.isDirectory path) : Attempt Bool) >>= _) = _
      rw [attempt_bind_of_attempt hanswer]
      cases answer with
      | true => exact .inr rfl
      | false => exact .inl ⟨_, rfl⟩
  | _ => exact .inl ⟨_, rfl⟩

/-- The directories to make are none, or the path and those above it. -/
theorem ancestors_eq_or (bound : Nat) (path : String) : Files.ancestors bound path = [] ∨
    ∃ parent less, Paths.parent? path = some parent ∧ bound = less + 1 ∧
      Files.ancestors bound path = path :: Files.ancestors less parent := by
  cases bound with
  | zero => exact .inl rfl
  | succ less =>
      rw [Files.ancestors]
      cases Paths.parent? path with
      | none => exact .inl rfl
      | some parent =>
          cases hempty : (Paths.components path).isEmpty with
          | true => exact .inl rfl
          | false => exact .inr ⟨parent, less, rfl, rfl, rfl⟩

theorem attempt_ensureAll_of_error {fault : Fault} (h : fs.makeDirectory path = .error fault)
    (hfault : fault ≠ .alreadyExists) :
    fs.attempt (ensureAll (path :: rest)) = (.error fault, fs) := by
  have hcall := attempt_outcome path fs
  rw [h] at hcall
  have hensure : fs.attempt (Files.ensureDirectory path) = (.error fault, fs) := by
    rw [Files.ensureDirectory, attempt_bind_of_attempt hcall]
    cases fault with
    | alreadyExists => exact absurd rfl hfault
    | _ => rfl
  rw [ensureAll, attempt_bind, hensure]

theorem attempt_ensureAll_of_ok (h : fs.makeDirectory path = .ok after) :
    fs.attempt (ensureAll (path :: rest)) = after.attempt (ensureAll rest) :=
  attempt_bind_of_attempt (attempt_ensureDirectory_of_ok h) _

/-- What comes of making directories, up to the list of those that are left to make. -/
def GoesOn (fs : FileSystem) (path : String) (missing : List String)
    (result : Except Fault Unit × FileSystem) : Prop :=
  (∃ e, result = (.error e, fs)) ∨
    ∃ after, (after = fs ∨ after.LeadsToEmpty path) ∧ result = after.attempt (ensureAll missing)

/-- A missing directory is made after those above it, or not at all. -/
theorem GoesOn.of_above {result : Except Fault Unit × FileSystem} (h : fs.Takes path)
    (hlast : ∀ front, namesOf path.toList = front ++ ["."] → front = [])
    (hmissing : fs.makeDirectory path = .error .notFound)
    (hparent : Paths.parent? path = some parent)
    (habove : fs.GoesOn parent (path :: missing) result) : fs.GoesOn path missing result := by
  rcases habove with hfails | ⟨after, rfl | hempty, hresult⟩
  · exact .inl hfails
  · exact .inl ⟨.notFound, by rw [hresult, attempt_ensureAll_of_error hmissing nofun]⟩
  · obtain ⟨next, hnext⟩ := exists_makeDirectory h hlast hmissing hparent hempty
    refine .inr ⟨next, .inr (leadsToEmpty_of_makeDirectory hnext), ?_⟩
    rw [hresult, attempt_ensureAll_of_ok hnext]

/-- **Making the directories down to a path fails and changes nothing, or goes on** with what was
there, or behind a new directory with nothing in it. -/
theorem goesOn_makeFirst (missing : List String) (bound : Nat) (h : path ≠ "" → fs.Takes path)
    (hlast : ∀ front, namesOf path.toList = front ++ ["."] → front = []) :
    fs.GoesOn path missing
      (fs.attempt (Files.makeFirst missing (Files.ancestors bound path) >>= ensureAll)) := by
  induction bound generalizing missing path with
  | zero => exact .inr ⟨fs, .inl rfl, attempt_bind_of_attempt rfl _⟩
  | succ bound ih =>
      rcases ancestors_eq_or (bound + 1) path with hnone | ⟨parent, less, hparent, hless, hsome⟩
      · rw [hnone]
        exact .inr ⟨fs, .inl rfl, attempt_bind_of_attempt rfl _⟩
      · obtain rfl := Nat.succ.inj hless
        have htakes : fs.Takes path := h (by rintro rfl; cases hparent)
        rw [hsome]
        cases hmake : fs.makeDirectory path with
        | ok after =>
            exact .inr ⟨after, .inr (leadsToEmpty_of_makeDirectory hmake),
              attempt_bind_of_attempt (attempt_makeFirst_of_ok hmake) _⟩
        | error fault =>
            by_cases hfault : fault = .notFound
            · subst hfault
              rw [attempt_bind, attempt_makeFirst_of_notFound hmake, ← attempt_bind]
              exact GoesOn.of_above htakes hlast hmake hparent
                (ih _ (htakes.of_parent? hparent) fun front => eq_nil_of_parent? hparent)
            · rcases attempt_makeFirst_of_error hmake hfault with ⟨e, hfails⟩ | hthere
              · exact .inl ⟨e, by rw [attempt_bind, hfails]⟩
              · exact .inr ⟨fs, .inl rfl, attempt_bind_of_attempt hthere _⟩

/-- **Making the directories above a file fails and changes nothing, or succeeds**; if anything is
new then, the directory of the file has nothing in it. -/
theorem attempt_ensureParent_or (h : fs.Takes path) :
    (∃ e, fs.attempt (DirectoryStore.ensureParent path) = (.error e, fs)) ∨
      ∃ after, fs.attempt (DirectoryStore.ensureParent path) = (.ok (), after) ∧
        (after = fs ∨ ∃ parent, Paths.parent? path = some parent ∧ after.LeadsToEmpty parent) := by
  rw [DirectoryStore.ensureParent]
  cases hparent : Paths.parent? path with
  | none => exact .inr ⟨fs, rfl, .inl rfl⟩
  | some parent =>
      dsimp only
      rw [createDirectories_eq]
      rcases goesOn_makeFirst [] parent.length.succ (h.of_parent? hparent)
        fun front => eq_nil_of_parent? hparent with hfails | ⟨after, hafter, hresult⟩
      · exact .inl hfails
      · exact .inr ⟨after, hresult, hafter.imp_right fun hnew => ⟨parent, rfl, hnew⟩⟩

end FileSystem

end JsonShelf
