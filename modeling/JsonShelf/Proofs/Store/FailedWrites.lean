/-
**Writes that fail.**

To write a document in a directory, the directories above its file are made first and then the file
is filled.  The path of a document may end in a slash or a dot, which count for nothing when it is
checked; but no file can be filled at such a path.  The directories above it are made all the same,
and they are what is left of a write that fails.  Nothing else is left of one, whatever the tree and
the path are.

Main definitions:

* `FileSystem.Fills` — an attempt to fill a file, by writing or by creating it.

Main results:

* `DirectoryStore.takes_fileOf` — the system takes the files below a data directory that is there;
* `FileSystem.fills_write`, `FileSystem.fills_create` — writing and creating fill a file;
* `DirectoryStore.exists_attempt_of_leadsToEmpty`, `DirectoryStore.isFiller_of_attempt` — a file in
  a new directory can be filled if its path ends in a name, and only then;
* `DirectoryStore.failed_write_unchanged_iff` — **when a write that fails leaves the file system as
  it was**.
-/

import JsonShelf.Proofs.Files.Leftovers
import JsonShelf.Proofs.Files.NewFile
import JsonShelf.Proofs.Paths.Spelling
import JsonShelf.Proofs.Store.Faithful

set_option autoImplicit false

namespace JsonShelf

open Files (Attempt Fault)
open FileSystem (namesOf endsInSlash)

/-! ### How the path of a file ends -/

namespace DocPath

variable {path : DocPath}

theorem names_eq_concat (path : DocPath) : path.names = path.names.dropLast ++ [path.fileName] := by
  have hlast := List.getLast?_eq_some_getLast path.names_ne_nil
  have hname : path.fileName = path.names.getLast path.names_ne_nil := by
    show (path.names.getLast?).getD _ = _
    rw [hlast]
    rfl
  rw [hname, List.dropLast_append_getLast]

theorem slash_notMem_fileName (path : DocPath) : '/' ∉ path.fileName.toList := by
  have hmem : path.fileName ∈ path.names := by
    rw [names_eq_concat]
    simp
  obtain ⟨piece, hpiece, hname⟩ := List.mem_map.1 hmem
  rw [← hname, String.toList_ofList]
  intro hslash
  exact absurd (Text.mem_and_not_of_mem_splitOnP hpiece '/' hslash).2 (by decide)

/-- The path of a document does not start at the root. -/
theorem isAbsolute_of_isDocument (h : path.isDocument = true) :
    Paths.isAbsolute path.text.toList = false := by
  refine Bool.eq_false_iff.2 fun habsolute => ?_
  have hroot : Paths.Component.root ∈ Paths.components path.text := by
    rw [Paths.components, Paths.anchor, if_pos habsolute]
    exact List.mem_cons_self
  exact absurd rfl (List.any_eq_false.1 (isDocument_iff.1 h).2.1 _ hroot)

/-- There are no two dots in the path of a document. -/
theorem dots_notMem_names (h : path.isDocument = true) : ".." ∉ path.names := by
  intro hmem
  obtain ⟨piece, hpiece, hname⟩ := List.mem_map.1 hmem
  have hdots : piece = ['.', '.'] := by simpa using congrArg String.toList hname
  subst hdots
  have hstep : ['.', '.'] ∈ Paths.steps path.text.toList := List.mem_filter.2 ⟨hpiece, rfl⟩
  have hparent : Paths.Component.parent ∈ Paths.components path.text := by
    rw [Paths.components_eq_append]
    exact List.mem_append_right _ (List.mem_map_of_mem (f := Paths.componentOf) hstep)
  exact absurd rfl (List.any_eq_false.1 (isDocument_iff.1 h).2.1 _ hparent)

theorem text_ne_empty (h : path.isDocument = true) : path.text ≠ "" := by
  intro hempty
  have hextension := (isDocument_iff.1 h).2.2
  rw [hempty] at hextension
  exact absurd hextension (by decide)

/-- A path is what stands before its last name, up to a slash, and this name. -/
theorem exists_text_eq (path : DocPath) : ∃ front : List Char,
    path.text.toList = front ++ path.fileName.toList ∧ (front = [] ∨ ∃ f, front = f ++ ['/']) := by
  have htext := path.intercalate_names
  rw [names_eq_concat] at htext
  by_cases hnil : path.names.dropLast = []
  · rw [hnil, List.nil_append, String.intercalate_singleton] at htext
    exact ⟨[], by rw [htext]; rfl, .inl rfl⟩
  · rw [Scan.intercalate_append_singleton hnil] at htext
    refine ⟨("/".intercalate path.names.dropLast).toList ++ ['/'], ?_, .inr ⟨_, rfl⟩⟩
    rw [← htext, String.toList_append, String.toList_append]
    rfl

end DocPath

namespace DirectoryStore

variable {store : DirectoryStore} {path : DocPath}

/-- The path of a file is what stands before its last name, up to a slash, and this name. -/
theorem exists_fileOf_eq (store : DirectoryStore) (h : path.isDocument = true) :
    ∃ front : List Char, (store.fileOf path).toList = front ++ path.fileName.toList ∧
      (front = [] ∨ ∃ f, front = f ++ ['/']) := by
  obtain ⟨front, htext, hfront⟩ := path.exists_text_eq
  refine ⟨(store.root ++ Scan.separator store.root).toList ++ front, ?_, ?_⟩
  · rw [fileOf, Scan.join_eq _ (DocPath.isAbsolute_of_isDocument h), String.toList_append, htext,
      List.append_assoc]
  · rcases hfront with rfl | ⟨f, rfl⟩
    · rw [List.append_nil, Scan.separator]
      split
      · next hend =>
        rw [String.append_empty]
        rcases Bool.or_eq_true _ _ ▸ hend with hempty | hslash
        · exact .inl (by rw [String.isEmpty_iff.1 hempty]; rfl)
        · exact .inr (List.getLast?_eq_some_iff.1 (beq_iff_eq.1 hslash))
      · exact .inr ⟨store.root.toList, String.toList_append⟩
    · exact .inr ⟨_, (List.append_assoc _ _ _).symm⟩

theorem endsInSlash_fileOf (store : DirectoryStore) (h : path.isDocument = true) :
    endsInSlash (store.fileOf path) = true ↔ path.fileName = "" := by
  obtain ⟨front, hfile, hfront⟩ := store.exists_fileOf_eq h
  rw [endsInSlash, beq_iff_eq]
  constructor
  · intro hslash
    by_contra hne
    have hchars : path.fileName.toList ≠ [] := fun e => hne (String.toList_eq_nil_iff.1 e)
    rw [hfile, List.getLast?_append_of_ne_nil _ hchars] at hslash
    exact path.slash_notMem_fileName (List.mem_of_getLast? hslash)
  · intro hempty
    rw [hempty, String.toList_empty, List.append_nil] at hfile
    rcases hfront with rfl | ⟨f, rfl⟩
    · -- the path of the file would be empty, and that of the document with it
      have htext := Scan.join_eq store.root (DocPath.isAbsolute_of_isDocument h)
      have hnil : store.fileOf path = "" := String.toList_eq_nil_iff.1 hfile
      rw [fileOf, htext] at hnil
      exact absurd (String.append_eq_empty_iff.1 hnil).2 (DocPath.text_ne_empty h)
    · rw [hfile, List.getLast?_concat]

/-- The last name of a document is the last name of its file, unless it is empty. -/
theorem exists_namesOf_fileOf (store : DirectoryStore) (h : path.isDocument = true)
    (hne : path.fileName ≠ "") : ∃ above, namesOf (store.fileOf path).toList =
      above ++ [path.fileName] := by
  have hchars : path.fileName.toList ≠ [] := fun e => hne (String.toList_eq_nil_iff.1 e)
  have hlast : namesOf path.fileName.toList = [path.fileName] := by
    rw [namesOf, Paths.splitOnP_of_notMem path.slash_notMem_fileName]
    simp [hchars]
  obtain ⟨front, hfile, rfl | ⟨f, rfl⟩⟩ := store.exists_fileOf_eq h
  · exact ⟨[], by rw [hfile, List.nil_append, hlast]; rfl⟩
  · refine ⟨namesOf f, ?_⟩
    rw [hfile, List.append_assoc]
    exact (FileSystem.namesOf_append_slash f _).trans (congrArg _ hlast)

end DirectoryStore

namespace DirectoryStore

variable {store : DirectoryStore} {path : DocPath} {fs : FileSystem} {base : List String}

/-- There are no two dots in the path of a file but in that of the data directory. -/
theorem isPrefix_root (hroot : store.root ≠ "") (h : path.isDocument = true) {front : List String}
    (hup : front ++ [".."] <+: namesOf (store.fileOf path).toList) :
    front ++ [".."] <+: namesOf store.root.toList := by
  have hnames : namesOf (store.fileOf path).toList =
      namesOf store.root.toList ++ namesOf path.text.toList := by
    rw [fileOf, Scan.join_eq _ (DocPath.isAbsolute_of_isDocument h), String.toList_append,
      FileSystem.namesOf_separator store.root _ hroot]
  have hdots : ".." ∉ namesOf path.text.toList := by
    intro hmem
    obtain ⟨piece, hpiece, hname⟩ := List.mem_map.1 hmem
    exact DocPath.dots_notMem_names h (List.mem_map.2 ⟨piece, (List.mem_filter.1 hpiece).1, hname⟩)
  rw [hnames] at hup
  rcases List.prefix_or_prefix_of_prefix hup (List.prefix_append _ _) with hinside | ⟨back, hback⟩
  · exact hinside
  · rw [← hback, List.prefix_append_right_inj] at hup
    rcases List.eq_nil_or_concat back with rfl | ⟨before, last, rfl⟩
    · exact ⟨[], by rw [← hback, List.append_nil, List.append_nil]⟩
    · rw [List.concat_eq_append, ← List.append_assoc] at hback
      have hlast : last = ".." := List.singleton_inj.1 (List.append_inj_right' hback rfl)
      exact absurd (hup.subset (by simp [hlast])) hdots

/-- The system takes the path of a file below a data directory that is there, if it is not too
long. -/
theorem takes_fileOf (hroot : fs.LeadsTo store.root base) (h : path.isDocument = true)
    (hpieces : FileSystem.pieces (store.fileOf path) = .ok (namesOf (store.fileOf path).toList))
    (hsizes : ∀ name ∈ namesOf (store.fileOf path).toList,
      name.utf8ByteSize ≤ FileSystem.longestName) : fs.Takes (store.fileOf path) := by
  obtain ⟨front, entries, hfront, hfollow, -⟩ := hroot
  obtain ⟨-, hne, -, rfl⟩ := FileSystem.pieces_eq_ok.1 hfront
  refine ⟨hpieces, hsizes, fun above hup => ?_⟩
  obtain ⟨back, hback⟩ := isPrefix_root hne h hup
  have hbegin : store.root.toList <+: (store.fileOf path).toList := by
    rw [fileOf, Scan.join_eq _ (DocPath.isAbsolute_of_isDocument h), String.append_assoc,
      String.toList_append]
    exact List.prefix_append _ _
  rw [← hback, List.foldlM_append] at hfollow
  obtain ⟨place, hplace, -⟩ := bind_eq_ok.1 hfollow
  exact ⟨place, by rw [← FileSystem.start_of_isPrefix hbegin hne]; exact hplace⟩

end DirectoryStore

/-! ### Filling a file -/

/-- An attempt to fill a file: it changes nothing if it fails, it succeeds where there is a free
spot, and it succeeds nowhere else than at a spot with a name. -/
structure FileSystem.Fills (act : String → Attempt Unit) : Prop where
  stays : ∀ {fs after : FileSystem} {file : String} {e : Fault},
    fs.attempt (act file) = (.error e, after) → after = fs
  succeeds : ∀ {fs : FileSystem} {file name : String} {place : List String},
    fs.spot file = .ok ⟨place, some (name, none)⟩ → endsInSlash file = false →
      ∃ after, fs.attempt (act file) = (.ok (), after)
  named : ∀ {fs after : FileSystem} {file : String}, fs.attempt (act file) = (.ok (), after) →
    endsInSlash file = false ∧ ∃ place name there, fs.spot file = .ok ⟨place, some (name, there)⟩

namespace FileSystem

theorem fills_write (content : ByteArray) : Fills fun file => Files.write file content := by
  have hrun (fs : FileSystem) (file : String) : fs.attempt (Files.write file content) =
      fs.commit (fs.write file content) := rfl
  refine ⟨?_, ?_, ?_⟩
  · intro fs after file e h
    rw [hrun] at h
    cases hwrite : fs.write file content with
    | error fault => rw [hwrite] at h; cases h; rfl
    | ok changed => rw [hwrite] at h; cases h
  · intro fs file name place hspot hslash
    exact ⟨_, congrArg fs.commit (write_of_spot hspot nofun hslash)⟩
  · intro fs after file h
    rw [hrun] at h
    cases hwrite : fs.write file content with
    | error fault => rw [hwrite] at h; cases h
    | ok changed =>
        obtain ⟨place, name, there, hspot, -, hslash, -⟩ := of_write hwrite
        exact ⟨hslash, place, name, there, hspot⟩

theorem fills_create (content : ByteArray) : Fills fun file => Files.create file content := by
  refine ⟨?_, ?_, ?_⟩
  · intro fs after file e h
    rcases attempt_create_or fs file content with ⟨fault, hfault⟩ | ⟨place, name, -, -, hmade⟩
    · rw [hfault] at h
      cases h
      rfl
    · rw [hmade] at h
      cases h
  · intro fs file name place hspot hslash
    exact ⟨_, attempt_create_of_spot hspot hslash content⟩
  · intro fs after file h
    rcases attempt_create_or fs file content with ⟨fault, hfault⟩ | ⟨place, name, hspot, hslash, -⟩
    · rw [hfault] at h
      cases h
    · exact ⟨hslash, place, name, none, hspot⟩

end FileSystem

/-! ### Calls that write -/

namespace DirectoryStore

variable {store : DirectoryStore} {path : DocPath} {fs after : FileSystem}
  {act : String → Attempt Unit}

/-- In a new directory above it a document that ends in a name can be filled. -/
theorem exists_attempt_of_leadsToEmpty (hact : FileSystem.Fills act) (h : path.isDocument = true)
    (htakes : fs.Takes (store.fileOf path)) (hname : DocPath.isFiller path.fileName = false)
    {parent : String} (hparent : Paths.parent? (store.fileOf path) = some parent)
    (hempty : after.LeadsToEmpty parent) :
    ∃ filled, after.attempt (act (store.fileOf path)) = (.ok (), filled) := by
  obtain ⟨hne, hdot⟩ : path.fileName ≠ "" ∧ path.fileName ≠ "." := by
    simpa [DocPath.isFiller] using hname
  obtain ⟨above, habove⟩ := store.exists_namesOf_fileOf h hne
  have hlast : ∀ front, namesOf (store.fileOf path).toList = front ++ ["."] → front = [] := by
    intro front hfront
    rw [habove] at hfront
    exact absurd (List.singleton_inj.1 (List.append_inj_right' hfront rfl)) hdot
  obtain ⟨dots, name, hnames, hdots, -⟩ :=
    FileSystem.exists_concat_of_parent? hparent hempty.ne_empty hlast
  obtain rfl : path.fileName = name := by
    rw [habove] at hnames
    exact List.singleton_inj.1 (List.append_inj_right' hnames rfl)
  have hup : path.fileName ≠ ".." := by
    intro heq
    refine DocPath.dots_notMem_names h ?_
    rw [← heq, DocPath.names_eq_concat]
    simp
  have hslash : endsInSlash (store.fileOf path) = false :=
    Bool.eq_false_iff.2 fun hslash => hne ((store.endsInSlash_fileOf h).1 hslash)
  have hstart :=
    FileSystem.start_of_isPrefix (Paths.isPrefix_of_parent? hparent) hempty.ne_empty after
  obtain ⟨place, hspot⟩ := FileSystem.exists_spot_of_leadsToEmpty hempty htakes.pieces hstart hnames
    hdots hdot hup (htakes.size_le _ (by rw [habove]; simp))
  exact hact.succeeds hspot hslash

/-- A document that does not end in a name cannot be filled. -/
theorem isFiller_of_attempt (hact : FileSystem.Fills act) (h : path.isDocument = true)
    (hfilled : fs.attempt (act (store.fileOf path)) = (.ok (), after)) :
    DocPath.isFiller path.fileName = false := by
  obtain ⟨hslash, place, name, there, hspot⟩ := hact.named hfilled
  have hne : path.fileName ≠ "" := fun hempty =>
    absurd ((store.endsInSlash_fileOf h).2 hempty) (Bool.eq_false_iff.1 hslash)
  obtain ⟨front, entries, hpieces, -, -, -, hdot, -⟩ := FileSystem.of_spot hspot
  obtain ⟨above, habove⟩ := store.exists_namesOf_fileOf h hne
  obtain ⟨-, -, -, hnames⟩ := FileSystem.pieces_eq_ok.1 hpieces
  rw [habove] at hnames
  obtain rfl : name = path.fileName := List.singleton_inj.1 (List.append_inj_right' hnames rfl)
  simp [DocPath.isFiller, hne, hdot]

/-- **A document that cannot be filled leaves nothing behind**, if it ends in a name or the
directories above it were there or cannot be made. -/
theorem unchanged_iff_of_fills (hact : FileSystem.Fills act) (h : path.isDocument = true)
    (htakes : fs.Takes (store.fileOf path)) {e : Fault}
    (hfails : fs.attempt (do ensureParent (store.fileOf path); act (store.fileOf path)) =
      (.error e, after)) :
    after = fs ↔ DocPath.isFiller path.fileName = false ∨
      (fs.attempt (ensureParent (store.fileOf path))).2 = fs := by
  rw [FileSystem.attempt_bind] at hfails
  rcases FileSystem.attempt_ensureParent_or htakes with ⟨e', habove⟩ | ⟨between, habove, hbetween⟩
  · rw [habove] at hfails ⊢
    cases hfails
    exact ⟨fun _ => .inr rfl, fun _ => rfl⟩
  · rw [habove] at hfails ⊢
    have hafter : after = between := hact.stays hfails
    constructor
    · intro hsame
      exact .inr (hafter.symm.trans hsame)
    · rintro (hname | hsame)
      · rcases hbetween with rfl | ⟨parent, hparent, hempty⟩
        · exact hafter
        · obtain ⟨filled, hfilled⟩ :=
            exists_attempt_of_leadsToEmpty hact h htakes hname hparent hempty
          have hboth := hfails.symm.trans hfilled
          cases hboth
      · exact hafter.trans hsame

/-- The call to write a document, or to create it. -/
theorem perform_fill (store : DirectoryStore) (path : DocPath) (act : String → Attempt Unit)
    (fs : FileSystem) :
    Script.run FileSystem.perform
        (store.onFile path fun file => do ensureParent file; act file) fs =
      if path.isDocument then
        let result := fs.attempt (do ensureParent (store.fileOf path); act (store.fileOf path))
        (result.1.mapError (storeError path), result.2)
      else (.error (.invalidPath path), fs) := by
  rw [run_onFile, checkPath]
  cases path.isDocument <;> rfl

/-- What comes of the call, for an attempt that fills a file. -/
theorem unchanged_iff_of_perform (hact : FileSystem.Fills act)
    (htakes : fs.Takes (store.fileOf path))
    {reply : Except StoreError Unit × FileSystem} (hreply : reply = Script.run FileSystem.perform
      (store.onFile path fun file => do ensureParent file; act file) fs) :
    (∀ e, reply.1 = .error e → (reply.2 = fs ↔ path.isDocument = false ∨
      DocPath.isFiller path.fileName = false ∨
        (fs.attempt (ensureParent (store.fileOf path))).2 = fs)) ∧
      (path.isDocument = true → DocPath.isFiller path.fileName = true →
        ∃ e, reply.1 = .error e) := by
  rw [perform_fill] at hreply
  cases hdocument : path.isDocument with
  | false =>
      rw [hdocument, if_neg Bool.false_ne_true] at hreply
      subst hreply
      exact ⟨fun e _ => ⟨fun _ => .inl rfl, fun _ => rfl⟩, nofun⟩
  | true =>
      rw [hdocument, if_pos rfl] at hreply
      generalize hresult :
        fs.attempt (do ensureParent (store.fileOf path); act (store.fileOf path)) = result at hreply
      obtain ⟨outcome, after⟩ := result
      subst hreply
      cases outcome with
      | ok filled =>
          refine ⟨nofun, fun _ hname => ?_⟩
          obtain ⟨_, between, -, hfilled⟩ := FileSystem.attempt_bind_eq_ok hresult
          rw [isFiller_of_attempt hact hdocument hfilled] at hname
          cases hname
      | error fault =>
          refine ⟨fun e _ => ?_, fun _ _ => ⟨_, rfl⟩⟩
          refine (unchanged_iff_of_fills hact hdocument htakes hresult).trans ?_
          simp

/-- **A write that fails leaves the file system as it was**, unless the path ends in a slash or a
dot and directories above had to be made: then they stay, and such a write always fails. -/
theorem failed_write_unchanged_iff (store : DirectoryStore) (path : DocPath) (text : String)
    (htakes : fs.Takes (store.fileOf path)) {reply : Except StoreError Unit × FileSystem}
    (hreply : reply = store.perform (.writeText path text) fs ∨
      reply = store.perform (.createText path text) fs) :
    (∀ e, reply.1 = .error e → (reply.2 = fs ↔ path.isDocument = false ∨
      DocPath.isFiller path.fileName = false ∨
        (fs.attempt (ensureParent (store.fileOf path))).2 = fs)) ∧
      (path.isDocument = true → DocPath.isFiller path.fileName = true →
        ∃ e, reply.1 = .error e) := by
  rcases hreply with hwrite | hcreate
  · exact unchanged_iff_of_perform (FileSystem.fills_write text.toUTF8) htakes hwrite
  · exact unchanged_iff_of_perform (FileSystem.fills_create text.toUTF8) htakes hcreate

/-- A file system with a document in a data directory. -/
def oneDocument : FileSystem :=
  ⟨.directory [("site", .directory [("data",
    .directory [("a.json", .file "[]".toUTF8 ⟨0, 0, 0⟩)])])], ["site"], [], ⟨0, 0, 0⟩⟩

/-- The store in the data directory. -/
def siteStore : DirectoryStore := ⟨"../site/data", ⟨3, [], [], true⟩⟩

/-- A document below another one cannot be written, and nothing changes. -/
theorem failed_write_unchanged_iff_below :
    ∃ e, siteStore.perform (.writeText (.ofString "a.json/x.json") "[]") oneDocument =
      (.error e, oneDocument) := by
  have hlocate : oneDocument.locate siteStore.root = .ok (["site", "data"],
      .directory [("a.json", .file "[]".toUTF8 ⟨0, 0, 0⟩)]) := by rfl
  have htakes : oneDocument.Takes (siteStore.fileOf (.ofString "a.json/x.json")) :=
    takes_fileOf (FileSystem.leadsTo_of_locate hlocate) (by decide) (by rfl) (by decide +kernel)
  obtain ⟨hsame, -⟩ := failed_write_unchanged_iff siteStore _ "[]" htakes (.inl rfl)
  have hfails : Except.toBool
      (siteStore.perform (.writeText (.ofString "a.json/x.json") "[]") oneDocument).1 = false := by
    decide +kernel
  obtain ⟨e, herror⟩ := toBool_eq_false.1 hfails
  exact ⟨e, Prod.ext herror ((hsame e herror).2 (.inr (.inl (by decide))))⟩

/-- **A path that ends in a slash is let through, and a directory is left of it.** -/
theorem failed_write_leaves_directory :
    (DocPath.ofString "new/x.json/").isDocument = true ∧
      (oneDocument.root.find? ["site", "data", "new"]).isNone = true ∧
      ∃ e after, siteStore.perform (.writeText (.ofString "new/x.json/") "[]") oneDocument =
          (.error e, after) ∧
        (after.root.find? ["site", "data", "new"]).isSome = true := by
  have hfails : Except.toBool
      (siteStore.perform (.writeText (.ofString "new/x.json/") "[]") oneDocument).1 = false := by
    decide +kernel
  obtain ⟨e, herror⟩ := toBool_eq_false.1 hfails
  exact ⟨by decide, by decide +kernel, e, _, Prod.ext herror rfl, by decide +kernel⟩

end DirectoryStore

end JsonShelf
