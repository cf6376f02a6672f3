/-
**A data directory that mirrors a store in memory.**

A store in memory is a map from paths to texts, a data directory a tree of files.  The tree mirrors
the map if the files of the paths in use are those that have a text, with this text as content, and
if all else below the data directory are directories above such files: they are left behind when
files are taken away.  As no path in use leads through the file of another, each call is replied
alike by the two stores, and the tree mirrors the map as before.

Main definitions:

* `StoreCall.timeless` — a reply without the time of change in it;
* `Store.Separate` — names that can all be names of files;
* `Store.Mirrors` — the tree of a data directory mirrors a store in memory;
* `Store.Mirrors.Agree` — the two stores reply alike to a call.

Main results:

* `Store.Mirrors.of_made`, `Store.Mirrors.change` — what keeps the tree a mirror;
* `Store.Mirrors.agree_writeText`, `Store.Mirrors.agree_createText`, `Store.Mirrors.agree_remove`,
  `Store.Mirrors.agree_list` — single calls;
* `Store.Mirrors.agree` — **the two stores reply alike, and the tree is a mirror afterwards**.
-/

import JsonShelf.Proofs.Files.OneFile
import JsonShelf.Proofs.Scan.Listing
import JsonShelf.Proofs.Store.Faithful

set_option autoImplicit false

namespace JsonShelf

/-- The reply without the time of change in it. -/
def StoreCall.timeless : (c : StoreCall) → c.Reply → c.Reply
  | .facts _, reply => reply.map fun facts => { facts with modified := none }
  | .readText _, reply => reply
  | .writeText .., reply => reply
  | .createText .., reply => reply
  | .remove _, reply => reply
  | .contains _, reply => reply
  | .list, reply => reply

namespace Store

open Files (Attempt Kind Node)
open FileSystem (Fits Made)
open Paths (IsStep)
open Scan (pathOf)

variable {memory changed : MemoryStore} {directory : DirectoryStore} {fs after : FileSystem}
  {root name : String} {base names above others : List String} {used : List String → Prop}
  {path : DocPath} {text? : Option String} {kind? : Option Kind}

/-! ### Names of files -/

/-- The names can all be names of files: the system takes them, and none leads through another. -/
structure Separate (root : String) (used : List String → Prop) : Prop where
  fits : ∀ names, used names → Fits root names
  ne_nil : ∀ names, used names → names ≠ []
  apart : ∀ names others, used names → used others → names <+: others → names = others

namespace Separate

theorem isStep (h : Separate root used) (hnames : used names) : ∀ name ∈ names, IsStep name :=
  (h.fits names hnames).isStep

theorem exists_concat (h : Separate root used) (hnames : used names) :
    ∃ above name, names = above ++ [name] := by
  rcases List.eq_nil_or_concat names with rfl | ⟨above, name, rfl⟩
  · exact absurd rfl (h.ne_nil [] hnames)
  · exact ⟨above, name, List.concat_eq_append⟩

theorem pathOf_eq_iff (h : Separate root used) (hnames : used names) (hothers : used others) :
    pathOf names = pathOf others ↔ names = others :=
  ⟨Scan.pathOf_injective (h.isStep hnames) (h.ne_nil names hnames) (h.isStep hothers)
    (h.ne_nil others hothers), congrArg pathOf⟩

/-- The file of a path in use. -/
theorem fileOf (h : Separate directory.root used) (hnames : used names) :
    directory.fileOf (pathOf names) = names.foldl Paths.join directory.root :=
  Scan.join_pathOf directory.root (h.isStep hnames) (h.ne_nil names hnames)

end Separate

/-! ### Mirrors -/

/-- There is a text and a file with this content, or neither of them. -/
def Holds (text? : Option String) (kind? : Option Kind) : Prop :=
  (∃ text modified, text? = some text ∧ kind? = some (.file text.toUTF8 modified)) ∨
    (text? = none ∧ kind? = none)

theorem Holds.ne_directory (h : Holds text? kind?) : kind? ≠ some .directory := by
  rcases h with ⟨text, modified, -, rfl⟩ | ⟨-, rfl⟩
  · exact nofun
  · exact nofun

/-- The tree of the data directory at a place mirrors a store in memory. -/
structure Mirrors (memory : MemoryStore) (fs : FileSystem) (root : String) (base : List String)
    (used : List String → Prop) : Prop where
  leadsTo : fs.LeadsTo root base
  /-- The files of the paths in use are those that have a text. -/
  texts : ∀ names, used names → Holds (memory.get? (pathOf names)) (fs.kindAt (base ++ names))
  /-- All else below the data directory are directories above such files. -/
  inside : ∀ names kind, names ≠ [] → fs.kindAt (base ++ names) = some kind →
    used names ∨ kind = .directory ∧ ∃ longer, used longer ∧ names <+: longer
  ordered : memory.Ordered
  /-- There are texts under paths in use only. -/
  keys : ∀ path text, memory.get? path = some text → ∃ names, used names ∧ path = pathOf names

namespace Mirrors

/-- No file is in the way of a path in use. -/
theorem clear (h : Mirrors memory fs root base used) (hsep : Separate root used)
    (hnames : used names) : fs.Clear base names := by
  intro above habove hproper content modified hfile
  have hkind := Node.kindAt_eq_file.2 hfile
  by_cases hnil : above = []
  · -- the data directory itself is a directory
    obtain ⟨_, entries, -, -, hbase⟩ := h.leadsTo
    rw [hnil, List.append_nil, hbase] at hfile
    cases hfile
  · rcases h.inside above _ hnil hkind with hused | ⟨hdirectory, -⟩
    · exact hproper (hsep.apart above names hused hnames habove)
    · cases hdirectory

/-- Directories above a file change nothing. -/
theorem of_made (h : Mirrors memory fs root base used) (hsep : Separate root used)
    (hnames : used (above ++ [name])) (hmade : Made fs after base above) :
    Mirrors memory after root base used := by
  have hprefix := List.prefix_append above [name]
  refine ⟨FileSystem.leadsTo_of_directories hmade.here (fun _ => hmade.stay) h.leadsTo, ?_, ?_,
    h.ordered, h.keys⟩
  · intro others hothers
    rw [hmade.outside]
    · exact h.texts others hothers
    · -- the path of another file does not end above this one
      intro front hfront heq
      rw [List.append_cancel_left heq] at hothers
      have hself := hsep.apart front _ hothers hnames (hfront.trans hprefix)
      have hlength := hfront.length_le
      rw [hself, List.length_append, List.length_singleton] at hlength
      omega
  · intro others kind hnil hkind
    by_cases hfront : others <+: above
    · rw [hmade.inside others hfront] at hkind
      exact .inr ⟨(Option.some.inj hkind).symm, _, hnames, hfront.trans hprefix⟩
    · refine h.inside others kind hnil ?_
      rw [← hkind, hmade.outside]
      intro front hmem heq
      rw [List.append_cancel_left heq] at hfront
      exact hfront hmem

/-- A change of the text under a path in use and of its file keeps the tree a mirror. -/
theorem change (h : Mirrors memory fs root base used) (hsep : Separate root used)
    (hnames : used names) (text? : Option String) (kind? : Option Kind) (hnew : Holds text? kind?)
    (hhere : after.here = fs.here)
    (hkind : ∀ place, after.kindAt place = if place = base ++ names then kind? else fs.kindAt place)
    (hget : ∀ path, changed.get? path = if pathOf names = path then text? else memory.get? path)
    (hordered : changed.Ordered) : Mirrors changed after root base used := by
  have hold := (h.texts names hnames).ne_directory
  refine ⟨?_, ?_, ?_, hordered, ?_⟩
  · refine FileSystem.leadsTo_of_directories hhere ?_ h.leadsTo
    intro place hplace
    rw [hkind, if_neg, hplace]
    rintro rfl
    exact hold hplace
  · intro others hothers
    rw [hget, hkind]
    by_cases heq : names = others
    · rw [heq, if_pos rfl, if_pos rfl]
      exact hnew
    · rw [if_neg (mt (hsep.pathOf_eq_iff hnames hothers).1 heq),
        if_neg fun happend => heq (List.append_cancel_left happend).symm]
      exact h.texts others hothers
  · intro others kind hnil hothers
    by_cases heq : others = names
    · exact .inl (heq ▸ hnames)
    · rw [hkind, if_neg fun happend => heq (List.append_cancel_left happend)] at hothers
      exact h.inside others kind hnil hothers
  · intro path text hpath
    rw [hget] at hpath
    split at hpath
    · next heq => exact ⟨names, hnames, heq.symm⟩
    · exact h.keys path text hpath

/-- The directories above the file of a path in use are made, and the tree is a mirror still. -/
theorem exists_ensureParent (h : Mirrors memory fs root base used) (hsep : Separate root used)
    (hnames : used (above ++ [name])) :
    ∃ between, fs.attempt (DirectoryStore.ensureParent ((above ++ [name]).foldl Paths.join root)) =
        (.ok (), between) ∧
      Mirrors memory between root base used ∧ between.kindAt (base ++ above) = some .directory := by
  obtain ⟨between, hmade, hensure⟩ := FileSystem.exists_ensureParent h.leadsTo
    (hsep.fits _ hnames) (h.clear hsep hnames).passable
  exact ⟨between, hensure, h.of_made hsep hnames hmade,
    hmade.inside above (List.prefix_refl above)⟩

/-- A text is put under a path in memory, and its file is written. -/
theorem put_file (h : Mirrors memory fs root base used) (hsep : Separate root used)
    (hnames : used (above ++ [name])) (habove : fs.kindAt (base ++ above) = some .directory)
    (text : String) :
    Mirrors (memory.insert (pathOf (above ++ [name])) text)
      (fs.put (base ++ above ++ [name]) (.file text.toUTF8 fs.clock)) root base used := by
  have hold := (h.texts _ hnames).ne_directory
  rw [← List.append_assoc] at hold
  refine h.change hsep hnames (some text) (some (.file text.toUTF8 fs.clock))
    (.inl ⟨text, fs.clock, rfl, rfl⟩) rfl ?_ (fun path => MemoryStore.get?_insert _ _ _ _)
    (h.ordered.insert _ text)
  intro place
  rw [FileSystem.kindAt_put habove hold (Node.isLeaf_file _ _), List.append_assoc]
  rfl

end Mirrors

/-! ### Single calls -/

/-- What a call does when it is on the file of a path that is accepted. -/
theorem run_onFile {α : Type} (fs : FileSystem) (hsep : Separate directory.root used)
    (hnames : used names) (hpath : checkPath (pathOf names) = .ok ()) (act : String → Attempt α) :
    Script.run FileSystem.perform (directory.onFile (pathOf names) act) fs =
      ((fs.attempt (act (names.foldl Paths.join directory.root))).1.mapError
          (DirectoryStore.storeError (pathOf names)),
        (fs.attempt (act (names.foldl Paths.join directory.root))).2) := by
  rw [DirectoryStore.run_onFile, hpath, hsep.fileOf hnames]
  rfl

namespace Mirrors

/-- The two stores reply alike to a call, and the tree is a mirror afterwards. -/
def Agree (directory : DirectoryStore) (base : List String) (used : List String → Prop)
    (memory : MemoryStore) (fs : FileSystem) (c : StoreCall) : Prop :=
  c.timeless (directory.perform c fs).1 = c.timeless (memory.perform c).1 ∧
    Mirrors (memory.perform c).2 (directory.perform c fs).2 directory.root base used

section Accepted

variable {text : String} (h : Mirrors memory fs directory.root base used)
  (hsep : Separate directory.root used) (hnames : used names)
  (hpath : checkPath (pathOf names) = .ok ())

include h hsep hnames hpath

theorem agree_readText :
    Agree directory base used memory fs (.readText (pathOf names)) := by
  have hrun := run_onFile fs hsep hnames hpath Files.readText
  rw [FileSystem.attempt, DirectoryStore.run_readText] at hrun
  have hperform : directory.perform (.readText (pathOf names)) fs = _ := hrun
  rw [Agree, hperform]
  refine ⟨?_, h⟩
  show _ = memory.find (pathOf names)
  rcases h.texts names hnames with ⟨text, modified, htext, hfile⟩ | ⟨htext, hmissing⟩
  · rw [MemoryStore.find_of_get? hpath htext,
      FileSystem.read_file h.leadsTo (hsep.fits names hnames) hfile]
    simp only [StoreCall.timeless, Except.bind, DirectoryStore.fromUTF8?_toUTF8]
    rfl
  · rw [MemoryStore.find_of_get?_none hpath htext,
      FileSystem.read_nothing h.leadsTo (hsep.fits names hnames) hmissing (h.clear hsep hnames)]
    rfl

theorem agree_contains :
    Agree directory base used memory fs (.contains (pathOf names)) := by
  have hfits := hsep.fits names hnames
  have hrun := run_onFile fs hsep hnames hpath fun file => liftM (Files.isFile file)
  have hperform : directory.perform (.contains (pathOf names)) fs = _ := hrun
  have hstatus : ∀ file, Script.run FileSystem.perform (Files.status file).run fs =
      (fs.status file, fs) := fun file => rfl
  have hmemory : memory.perform (.contains (pathOf names)) =
      (.ok (memory.get? (pathOf names)).isSome, memory) := by
    rw [MemoryStore.perform, hpath]
    rfl
  have hisFile : fs.run (Files.isFile (names.foldl Paths.join directory.root)) =
      ((memory.get? (pathOf names)).isSome, fs) := by
    rw [FileSystem.run, Files.isFile, Script.run_bind_of_run (hstatus _)]
    rcases h.texts names hnames with ⟨text, modified, htext, hfile⟩ | ⟨htext, hmissing⟩
    · rw [htext, FileSystem.status_file h.leadsTo hfits hfile]
      rfl
    · rw [htext, FileSystem.status_nothing h.leadsTo hfits hmissing (h.clear hsep hnames)]
      rfl
  have hanswer :
      fs.attempt (liftM (Files.isFile (names.foldl Paths.join directory.root)) : Attempt Bool) =
        (.ok (memory.get? (pathOf names)).isSome, fs) := Script.run_bind_of_run hisFile _
  rw [Agree, hperform, hanswer, hmemory]
  exact ⟨rfl, h⟩

theorem agree_facts :
    Agree directory base used memory fs (.facts (pathOf names)) := by
  have hfits := hsep.fits names hnames
  have hrun := run_onFile fs hsep hnames hpath DirectoryStore.factsOf
  have hperform : directory.perform (.facts (pathOf names)) fs = _ := hrun
  have hstatus : ∀ file, fs.attempt (Files.status file) = (fs.status file, fs) := fun file => rfl
  have hmemory : memory.perform (.facts (pathOf names)) =
      ((memory.find (pathOf names)).map fun text => ⟨text.utf8ByteSize, none⟩, memory) := by
    rw [MemoryStore.perform, MemoryStore.facts_eq]
    rfl
  rw [Agree, hperform, hmemory, DirectoryStore.factsOf, FileSystem.attempt_bind, hstatus]
  refine ⟨?_, ?_⟩
  · rcases h.texts names hnames with ⟨text, modified, htext, hfile⟩ | ⟨htext, hmissing⟩
    · rw [FileSystem.status_file h.leadsTo hfits hfile, MemoryStore.find_of_get? hpath htext]
      rfl
    · rw [FileSystem.status_nothing h.leadsTo hfits hmissing (h.clear hsep hnames),
        MemoryStore.find_of_get?_none hpath htext]
      rfl
  · cases fs.status (names.foldl Paths.join directory.root) <;> exact h

theorem agree_writeText :
    Agree directory base used memory fs (.writeText (pathOf names) text) := by
  have hrun := run_onFile fs hsep hnames hpath fun file => do
    DirectoryStore.ensureParent file
    Files.writeText file text
  have hperform : directory.perform (.writeText (pathOf names) text) fs = _ := hrun
  have hmemory : memory.perform (.writeText (pathOf names) text) =
      (.ok (), memory.insert (pathOf names) text) := by
    rw [MemoryStore.perform_writeText, if_pos (checkPath_eq_ok.1 hpath)]
  rw [Agree, hperform, hmemory]
  obtain ⟨above, name, rfl⟩ := hsep.exists_concat hnames
  have hfits := hsep.fits _ hnames
  obtain ⟨between, hensure, hbetween, habove⟩ := h.exists_ensureParent hsep hnames
  have hold := (hbetween.texts _ hnames).ne_directory
  rw [← List.append_assoc] at hold
  rw [FileSystem.attempt_bind_of_attempt hensure]
  have hwrite : ∀ file, between.attempt (Files.writeText file text) =
      between.commit (between.write file text.toUTF8) := fun file => rfl
  rw [hwrite, FileSystem.write_entry hbetween.leadsTo hfits habove hold]
  exact ⟨rfl, hbetween.put_file hsep hnames habove text⟩

theorem agree_createText :
    Agree directory base used memory fs (.createText (pathOf names) text) := by
  have hrun := run_onFile fs hsep hnames hpath fun file => do
    DirectoryStore.ensureParent file
    Files.create file text.toUTF8
  have hperform : directory.perform (.createText (pathOf names) text) fs = _ := hrun
  rw [Agree, hperform]
  obtain ⟨above, name, rfl⟩ := hsep.exists_concat hnames
  have hfits := hsep.fits _ hnames
  obtain ⟨between, hensure, hbetween, habove⟩ := h.exists_ensureParent hsep hnames
  rw [FileSystem.attempt_bind_of_attempt hensure]
  have hmemory : memory.perform (.createText (pathOf (above ++ [name])) text) =
      if (memory.get? (pathOf (above ++ [name]))).isSome
      then (.error (.alreadyExists (pathOf (above ++ [name]))), memory)
      else (.ok (), memory.insert (pathOf (above ++ [name])) text) := by
    rw [MemoryStore.perform_createText, if_pos (checkPath_eq_ok.1 hpath)]
  rw [hmemory]
  rcases hbetween.texts _ hnames with ⟨old, modified, htext, hfile⟩ | ⟨htext, hmissing⟩
  · rw [← List.append_assoc] at hfile
    rw [htext, FileSystem.create_file hbetween.leadsTo hfits hfile]
    exact ⟨rfl, hbetween⟩
  · rw [← List.append_assoc] at hmissing
    rw [htext, FileSystem.create_missing hbetween.leadsTo hfits habove hmissing]
    exact ⟨rfl, hbetween.put_file hsep hnames habove text⟩

theorem agree_remove :
    Agree directory base used memory fs (.remove (pathOf names)) := by
  have hrun := run_onFile fs hsep hnames hpath Files.remove
  have hperform : directory.perform (.remove (pathOf names)) fs = _ := hrun
  have hremove : ∀ file, fs.attempt (Files.remove file) = fs.commit (fs.remove file) :=
    fun file => rfl
  have hfits := hsep.fits _ hnames
  rw [Agree, hperform, hremove]
  rcases h.texts _ hnames with ⟨text, modified, htext, hfile⟩ | ⟨htext, hmissing⟩
  · have hmemory : memory.perform (.remove (pathOf names)) =
        (.ok (), memory.erase (pathOf names)) := by
      rw [MemoryStore.perform_remove, if_pos (checkPath_eq_ok.1 hpath), htext]
      rfl
    rw [hmemory]
    obtain ⟨above, name, rfl⟩ := hsep.exists_concat hnames
    rw [← List.append_assoc] at hfile
    rw [FileSystem.remove_file h.leadsTo hfits hfile]
    refine ⟨rfl, h.change hsep hnames none none (.inr ⟨rfl, rfl⟩) rfl ?_
      (fun path => MemoryStore.get?_erase _ _ _) (h.ordered.erase _)⟩
    intro place
    rw [← List.append_assoc]
    exact FileSystem.kindAt_remove hfile place
  · have hmemory : memory.perform (.remove (pathOf names)) =
        (.error (.notFound (pathOf names)), memory) := by
      rw [MemoryStore.perform_remove, if_pos (checkPath_eq_ok.1 hpath), htext]
      rfl
    rw [hmemory]
    have hclear := h.clear hsep hnames
    obtain ⟨above, name, rfl⟩ := hsep.exists_concat hnames
    rw [← List.append_assoc] at hmissing
    rw [FileSystem.remove_missing h.leadsTo hfits hmissing hclear]
    exact ⟨rfl, h⟩

end Accepted

/-- The texts in memory are those of the files below the data directory. -/
theorem get?_iff_hasText (h : Mirrors memory fs root base used) {entries : Members Node}
    (hentries : fs.root.find? base = some (.directory entries)) (path : DocPath) (text : String) :
    memory.get? path = some text ↔
      ∃ names, path = pathOf names ∧ Scan.HasText (.directory entries) names text := by
  have hfind : ∀ names, fs.root.find? (base ++ names) = (Node.directory entries).find? names := by
    intro names
    rw [Node.find?_append, hentries]
    rfl
  constructor
  · intro hget
    obtain ⟨names, hnames, rfl⟩ := h.keys path text hget
    rcases h.texts names hnames with ⟨other, modified, hother, hfile⟩ | ⟨hnone, -⟩
    · rw [hget] at hother
      cases hother
      refine ⟨names, rfl, text.toUTF8, modified, ?_, DirectoryStore.fromUTF8?_toUTF8 text⟩
      rw [← hfind]
      exact Node.kindAt_eq_file.1 hfile
    · rw [hget] at hnone
      cases hnone
  · rintro ⟨names, rfl, htext⟩
    have hne := htext.ne_nil
    obtain ⟨content, modified, hfile, hcontent⟩ := htext
    rw [← hfind] at hfile
    have hkind := Node.kindAt_eq_file.2 hfile
    rcases h.inside names _ hne hkind with hnames | ⟨hdirectory, -⟩
    · rcases h.texts names hnames with ⟨other, modified', hother, hfile'⟩ | ⟨-, hmissing⟩
      · have hsame : some (Kind.file content modified) = some (.file other.toUTF8 modified') :=
          hkind.symm.trans hfile'
        cases hsame
        rw [DirectoryStore.fromUTF8?_toUTF8] at hcontent
        rw [hother, hcontent]
      · have hnothing : some (Kind.file content modified) = none := hkind.symm.trans hmissing
        cases hnothing
    · cases hdirectory

/-- The system takes all names below the data directory. -/
theorem fits (h : Mirrors memory fs root base used) (hsep : Separate root used)
    {kind : Kind} (hkind : fs.kindAt (base ++ names) = some kind) : Fits root names := by
  by_cases hnil : names = []
  · obtain ⟨front, -, hfront, -⟩ := h.leadsTo
    obtain ⟨-, -, hsize, -⟩ := FileSystem.pieces_eq_ok.1 hfront
    rw [hnil]
    exact ⟨nofun, nofun, nofun, hsize⟩
  · rcases h.inside names kind hnil hkind with hnames | ⟨-, longer, hlonger, hprefix⟩
    · exact hsep.fits names hnames
    · exact (hsep.fits longer hlonger).of_above hprefix

theorem agree_list (h : Mirrors memory fs directory.root base used)
    (hsep : Separate directory.root used)
    (hfilter : ScanFilter.ofPolicy .standard = .ok directory.filter) :
    Agree directory base used memory fs .list := by
  obtain ⟨_, entries, -, -, hentries⟩ := h.leadsTo
  have hfits : ∀ names node, (Node.directory entries).find? names = some node →
      Fits directory.root names := by
    intro names node hnode
    have hkind : fs.kindAt (base ++ names) = some node.kind := by
      rw [FileSystem.kindAt, Node.kindAt, Node.find?_append, hentries, Option.bind_some, hnode]
      rfl
    exact h.fits hsep hkind
  have hrun := Scan.run_discover_eq_list (FileSystem.serves h.leadsTo hentries hfits)
    (fun names node hnode => (hfits names node hnode).isStep) hfilter h.ordered
    (h.get?_iff_hasText hentries)
  have hperform : directory.perform .list fs = (memory.list, fs) := hrun
  rw [Agree, hperform]
  exact ⟨rfl, h⟩

/-- Both stores refuse a path that cannot name a document. -/
theorem agree_of_refused (h : Mirrors memory fs directory.root base used) {c : StoreCall}
    (hc : c.path? = some path) {e : StoreError} (hpath : checkPath path = .error e) :
    Agree directory base used memory fs c := by
  have hrun : ∀ (α : Type) (act : String → Attempt α),
      Script.run FileSystem.perform (directory.onFile path act) fs = (.error e, fs) := by
    intro α act
    rw [DirectoryStore.run_onFile, hpath]
  have hfind : memory.find path = .error e := by
    rw [MemoryStore.find, hpath]
    rfl
  have hcommit : ∀ change, memory.changed change = .error e →
      memory.commit change = (.error e, memory) := by
    intro change hchange
    rw [MemoryStore.commit, hchange]
  have hperform : ∃ refusal : c.Reply, directory.perform c fs = (refusal, fs) ∧
      memory.perform c = (refusal, memory) := by
    cases c with
    | list => cases hc
    | readText other =>
        cases hc
        exact ⟨.error e, hrun String Files.readText, congrArg (·, memory) hfind⟩
    | writeText other text =>
        cases hc
        refine ⟨.error e, hrun Unit fun file => do
          DirectoryStore.ensureParent file
          Files.writeText file text, hcommit _ ?_⟩
        rw [MemoryStore.changed, hpath]
        rfl
    | createText other text =>
        cases hc
        refine ⟨.error e, hrun Unit fun file => do
          DirectoryStore.ensureParent file
          Files.create file text.toUTF8, hcommit _ ?_⟩
        rw [MemoryStore.changed, hpath]
        rfl
    | remove other =>
        cases hc
        refine ⟨.error e, hrun Unit Files.remove, hcommit _ ?_⟩
        rw [MemoryStore.changed, hfind]
        rfl
    | contains other =>
        cases hc
        refine ⟨.error e, hrun Bool fun file => liftM (Files.isFile file), ?_⟩
        rw [MemoryStore.perform, hpath]
        rfl
    | facts other =>
        cases hc
        refine ⟨.error e, hrun StoredFacts DirectoryStore.factsOf, ?_⟩
        rw [MemoryStore.perform, MemoryStore.facts, hfind]
        rfl
  obtain ⟨refusal, hdirectory, hmemory⟩ := hperform
  rw [Agree, hdirectory, hmemory]
  exact ⟨rfl, h⟩

/-- **The two stores reply alike, and the tree is a mirror afterwards**, whatever the call: its path
is refused, or it is in use. -/
theorem agree (h : Mirrors memory fs directory.root base used) (hsep : Separate directory.root used)
    (hfilter : ScanFilter.ofPolicy .standard = .ok directory.filter) (c : StoreCall)
    (hpaths : ∀ path, c.path? = some path → checkPath path = .ok () →
      ∃ names, used names ∧ path = pathOf names) :
    Agree directory base used memory fs c := by
  cases hc : c.path? with
  | none =>
      cases c with
      | list => exact h.agree_list hsep hfilter
      | _ => cases hc
  | some path =>
      cases hpath : checkPath path with
      | error e => exact h.agree_of_refused hc hpath
      | ok _ =>
          obtain ⟨names, hnames, rfl⟩ := hpaths path hc hpath
          cases c with
          | list => cases hc
          | readText other => cases hc; exact h.agree_readText hsep hnames hpath
          | writeText other text => cases hc; exact h.agree_writeText hsep hnames hpath
          | createText other text => cases hc; exact h.agree_createText hsep hnames hpath
          | remove other => cases hc; exact h.agree_remove hsep hnames hpath
          | contains other => cases hc; exact h.agree_contains hsep hnames hpath
          | facts other => cases hc; exact h.agree_facts hsep hnames hpath

end Mirrors

end Store

end JsonShelf
