/-
**Documents stay in the data directory.**

The path of a document is checked before it is read from the data directory.  What the check lets
through has steps down only: names between slashes, without a root and without a way up.  Such a
path is read from any directory by adding its names to the components of that directory, so the file
of a document is below the data directory, however the path was written.

Main definitions:

* `Paths.steps` — the pieces of a text that are components;
* `Paths.IsStep` — names that lead one step down.

Main results:

* `Paths.components_join_of_not_isAbsolute`, `Paths.components_join` — a path that is read from a
  base adds its steps to the components of the base;
* `DocPath.anchor_of_isDocument` — the path of a document has no anchor;
* `DirectoryStore.components_fileOf` — **the file of a document lies below the data directory**, by
  names that lead down and with a name that ends in `.json`.
-/

import JsonShelf.Proofs.Text.Lines
import JsonShelf.Store.Directory
import Mathlib.Data.List.TakeDrop

set_option autoImplicit false

namespace JsonShelf

namespace Paths

variable {cs front back piece : List Char} {base path name : String}

/-! ### Steps -/

theorem splitOnP_of_notMem (h : '/' ∉ cs) : cs.splitOnP (· == '/') = [cs] := by
  refine List.splitOnP_eq_singleton ?_
  intro c hc
  simpa using ne_of_mem_of_not_mem hc h

/-- The pieces between the slashes of a text that are components. -/
def steps (cs : List Char) : List (List Char) :=
  (cs.splitOnP (· == '/')).filter (!isIdle ·)

theorem steps_nil : steps [] = [] := rfl

theorem steps_append_slash (front back : List Char) :
    steps (front ++ '/' :: back) = steps front ++ steps back := by
  rw [steps, List.splitOnP_append_cons front back rfl, List.filter_append]
  rfl

/-- A step is neither empty nor a dot, and there is no slash in it. -/
theorem of_mem_steps (h : piece ∈ steps cs) : piece ≠ [] ∧ piece ≠ ['.'] ∧ '/' ∉ piece := by
  obtain ⟨hpiece, hidle⟩ := List.mem_filter.1 h
  simp only [isIdle, Bool.not_eq_true', Bool.or_eq_false_iff, beq_eq_false_iff_ne] at hidle
  refine ⟨hidle.1, hidle.2, ?_⟩
  intro hslash
  have hsplit := (Text.mem_and_not_of_mem_splitOnP hpiece _ hslash).2
  exact absurd hsplit (by decide)

/-! ### Joined paths -/

/-- The components of a path as a list of characters. -/
def componentsOf (cs : List Char) : List Component :=
  anchorComponent (anchor cs) ++ (steps (cs.drop (anchor cs).length)).map componentOf

theorem components_eq (path : String) : components path = componentsOf path.toList := rfl

theorem componentsOf_of_anchor (h : anchor cs = []) :
    componentsOf cs = (steps cs).map componentOf := by
  rw [componentsOf, h]
  rfl

theorem isPrefix_anchor (cs : List Char) : anchor cs <+: cs := by
  unfold anchor
  split
  · next habsolute =>
    obtain ⟨rest, rfl⟩ := List.head?_eq_some_iff.1 (beq_iff_eq.1 habsolute)
    exact ⟨rest, rfl⟩
  · split
    · next hdot =>
      rw [← hdot]
      exact List.takeWhile_prefix _
    · exact List.nil_prefix

theorem takeWhile_append_slash (front back : List Char) :
    (front ++ '/' :: back).takeWhile (· != '/') = front.takeWhile (· != '/') := by
  induction front with
  | nil => rfl
  | cons c front ih => simp only [List.cons_append, List.takeWhile_cons, ih]

/-- A slash and what follows it make no difference to the anchor of what is there already. -/
theorem anchor_append_slash (h : front ≠ []) (back : List Char) :
    anchor (front ++ '/' :: back) = anchor front := by
  obtain ⟨c, rest, rfl⟩ := List.exists_cons_of_ne_nil h
  unfold anchor
  rw [takeWhile_append_slash]
  rfl

theorem componentsOf_append_slash (h : front ≠ []) (back : List Char) :
    componentsOf (front ++ '/' :: back) = componentsOf front ++ (steps back).map componentOf := by
  have hlength := (isPrefix_anchor front).length_le
  rw [componentsOf, anchor_append_slash h, List.drop_append_of_le_length hlength,
    steps_append_slash, List.map_append, ← List.append_assoc]
  rfl

/-- What follows a slash adds its steps to the components of what ends there. -/
theorem componentsOf_slash_append (front back : List Char) :
    componentsOf (front ++ '/' :: back) =
      componentsOf (front ++ ['/']) ++ (steps back).map componentOf := by
  cases front with
  | nil => rfl
  | cons c front =>
      rw [componentsOf_append_slash (List.cons_ne_nil c front),
        componentsOf_append_slash (List.cons_ne_nil c front), steps_nil, List.map_nil,
        List.append_nil]

theorem isAbsolute_of_anchor (h : anchor cs = []) : isAbsolute cs = false := by
  unfold anchor at h
  split at h
  · cases h
  · next habsolute => exact Bool.not_eq_true _ ▸ habsolute

theorem eq_of_takeWhile_dot (h : cs.takeWhile (· != '/') = ['.']) :
    cs = ['.'] ∨ ∃ rest, cs = '.' :: '/' :: rest := by
  have hcs : '.' :: cs.dropWhile (· != '/') = cs := by
    rw [← List.singleton_append, ← h, List.takeWhile_append_dropWhile]
  have hhead := List.head?_dropWhile_not (· != '/') cs
  cases hrest : cs.dropWhile (· != '/') with
  | nil => exact .inl (by rw [← hcs, hrest])
  | cons c rest =>
      obtain rfl : c = '/' := by simpa [hrest] using hhead
      exact .inr ⟨rest, by rw [← hcs, hrest]⟩

/-- The anchor is no step and hides none. -/
theorem steps_drop_anchor (cs : List Char) : steps (cs.drop (anchor cs).length) = steps cs := by
  unfold anchor
  split
  · next habsolute =>
    obtain ⟨rest, rfl⟩ := List.head?_eq_some_iff.1 (beq_iff_eq.1 habsolute)
    exact (steps_append_slash [] rest).symm
  · split
    · next hdot =>
      rcases eq_of_takeWhile_dot hdot with rfl | ⟨rest, rfl⟩
      · rfl
      · exact (steps_append_slash [] rest).trans (steps_append_slash ['.'] rest).symm
    · rfl

theorem components_eq_append (path : String) :
    components path =
      anchorComponent (anchor path.toList) ++ (steps path.toList).map componentOf := by
  rw [components_eq, componentsOf, steps_drop_anchor]

/-- The steps of a path that does not start at the root follow the components of its base. -/
theorem components_join_of_not_isAbsolute (hbase : base ≠ "")
    (h : isAbsolute path.toList = false) :
    components (join base path) = components base ++ (steps path.toList).map componentOf := by
  have hchars : base.toList ≠ [] := fun e => hbase (String.toList_eq_nil_iff.1 e)
  rw [join, h]
  simp only [Bool.false_eq_true, if_false]
  split
  · next hend =>
    -- the base ends in a slash, which then separates the two
    have hslash : base.toList.getLast? = some '/' := by simpa [hbase] using hend
    obtain ⟨front, hfront⟩ := List.getLast?_eq_some_iff.1 hslash
    rw [components_eq, components_eq, String.toList_append, hfront, List.append_assoc]
    exact componentsOf_slash_append front path.toList
  · rw [components_eq, components_eq, String.toList_append, String.toList_append,
      List.append_assoc]
    exact componentsOf_append_slash hchars path.toList

/-- **The components of a path without anchor follow those of its base.** -/
theorem components_join (base : String) (h : anchor path.toList = []) :
    components (join base path) = components base ++ components path := by
  have hpath : components path = (steps path.toList).map componentOf := by
    rw [components_eq, componentsOf_of_anchor h]
  by_cases hempty : base = ""
  · subst hempty
    rw [join, isAbsolute_of_anchor h]
    exact congrArg components String.empty_append
  · rw [components_join_of_not_isAbsolute hempty (isAbsolute_of_anchor h), hpath]

/-! ### Names -/

/-- The name leads one step down. -/
structure IsStep (name : String) : Prop where
  ne_empty : name ≠ ""
  ne_dot : name ≠ "."
  ne_dots : name ≠ ".."
  slash_notMem : '/' ∉ name.toList
  backslash_notMem : '\\' ∉ name.toList

theorem isStep_ofList (h : piece ∈ steps cs) (hparent : piece ≠ ['.', '.']) (hcs : '\\' ∉ cs) :
    IsStep (String.ofList piece) := by
  have hne : ∀ chars : List Char, piece ≠ chars → String.ofList piece ≠ String.ofList chars := by
    intro chars hchars heq
    exact hchars (by simpa using congrArg String.toList heq)
  obtain ⟨hnil, hdot, hslash⟩ := of_mem_steps h
  refine ⟨hne [] hnil, hne ['.'] hdot, hne ['.', '.'] hparent, ?_, ?_⟩
  · rwa [String.toList_ofList]
  · rw [String.toList_ofList]
    intro hbackslash
    exact hcs (Text.mem_and_not_of_mem_splitOnP (List.mem_of_mem_filter h) _ hbackslash).1

/-- A name with an extension is a stem, a point and the extension. -/
theorem exists_stem_of_cutAtPoint {extension : String}
    (h : (cutAtPoint name).2 = some extension) :
    ∃ stem, stem ≠ "" ∧ name = stem ++ "." ++ extension := by
  unfold cutAtPoint at h
  split at h
  next tail front hspan =>
  rw [List.span_eq_takeWhile_dropWhile, Prod.mk.injEq] at hspan
  obtain ⟨htail, hfront⟩ := hspan
  have hname : name.toList.reverse = tail ++ front := by
    rw [← htail, ← hfront, List.takeWhile_append_dropWhile]
  split at h
  · next point c before =>
    -- what stands before the extension ends with the first character that is no other than a point
    obtain rfl : point = '.' := by
      have hhead := List.head?_dropWhile_not (· != '.') name.toList.reverse
      rw [hfront] at hhead
      simpa using hhead
    cases h
    refine ⟨String.ofList (c :: before).reverse, ?_, ?_⟩
    · simp [← String.toList_inj]
    · rw [← String.toList_inj, ← List.reverse_inj, hname]
      simp
  · cases h

end Paths

/-! ### Paths of documents -/

namespace DocPath

open Paths

variable {path : DocPath} {s : String}

theorem not_begins_iff {cs : List Char} :
    ¬['.', '/'] <+: cs ↔ ∀ rest, cs ≠ '.' :: '/' :: rest :=
  ⟨fun h rest hrest => h ⟨rest, hrest.symm⟩, fun h ⟨rest, hrest⟩ => h rest hrest.symm⟩

theorem dropDots_of_ne {cs : List Char} (h : ∀ rest, cs ≠ '.' :: '/' :: rest) :
    dropDots cs = cs := by
  rw [dropDots]
  exact h

theorem dropDots_suffix (cs : List Char) : dropDots cs <:+ cs := by
  induction cs using dropDots.induct with
  | case1 rest ih => exact ih.trans ⟨['.', '/'], rfl⟩
  | case2 cs h => exact ⟨[], by rw [List.nil_append, dropDots_of_ne h]⟩

theorem dropDots_ne (cs rest : List Char) : dropDots cs ≠ '.' :: '/' :: rest := by
  induction cs using dropDots.induct with
  | case1 tail ih => exact ih
  | case2 cs h =>
      rw [dropDots_of_ne h]
      exact h rest

theorem toList_ofString (h : (ofString s).text ≠ ".") :
    (ofString s).text.toList = dropDots (s.toList.map forward) := by
  unfold ofString at h ⊢
  split
  · next hnil =>
    rw [hnil] at h
    exact absurd rfl h
  · exact String.toList_ofList

theorem backslash_notMem_ofString (s : String) : '\\' ∉ (ofString s).text.toList := by
  intro hmem
  by_cases h : (ofString s).text = "."
  · rw [h] at hmem
    exact absurd hmem (by decide)
  · rw [toList_ofString h] at hmem
    obtain ⟨c, -, hc⟩ := List.mem_map.1 ((dropDots_suffix _).subset hmem)
    unfold forward at hc
    split at hc
    · cases hc
    · next hne => exact hne hc

theorem isDocument_iff : path.isDocument = true ↔
    path.text ≠ "." ∧ path.escapes = false ∧ extension? path.text = some "json" := by
  simp [isDocument, hasJsonExtension, and_assoc]

/-- The path of a document has no anchor: the check refuses the root, and the dots at the start are
gone. -/
theorem anchor_of_isDocument (h : (ofString s).isDocument = true) :
    anchor (ofString s).text.toList = [] := by
  obtain ⟨hdot, hescapes, -⟩ := isDocument_iff.1 h
  unfold anchor
  split
  · next habsolute =>
    have hroot : Component.root ∈ components (ofString s).text := by
      rw [components, anchor, if_pos habsolute]
      exact List.mem_cons_self
    exact absurd rfl (List.any_eq_false.1 hescapes _ hroot)
  · split
    · next hpiece =>
      rcases eq_of_takeWhile_dot hpiece with hchars | ⟨rest, hchars⟩
      · exact absurd (String.toList_injective hchars) hdot
      · rw [toList_ofString hdot] at hchars
        exact absurd hchars (dropDots_ne _ rest)
    · rfl

/-- **The components of the path of a document are names that lead down**, and the last of them has
a stem and ends in `.json`. -/
theorem components_of_isDocument (h : (ofString s).isDocument = true) :
    ∃ names : List String, components (ofString s).text = names.map .normal ∧
      (∀ name ∈ names, IsStep name) ∧
      ∃ stem, stem ≠ "" ∧ names.getLast? = some (stem ++ ".json") := by
  obtain ⟨-, hescapes, hextension⟩ := isDocument_iff.1 h
  have hparts : components (ofString s).text =
      (steps (ofString s).text.toList).map componentOf := by
    rw [components_eq, componentsOf_of_anchor (anchor_of_isDocument h)]
  have hparent : ∀ piece ∈ steps (ofString s).text.toList, piece ≠ ['.', '.'] := by
    rintro piece hpiece rfl
    have hmem : Component.parent ∈ components (ofString s).text := by
      rw [hparts]
      exact List.mem_map_of_mem (f := componentOf) hpiece
    exact absurd rfl (List.any_eq_false.1 hescapes _ hmem)
  have hnames : components (ofString s).text =
      ((steps (ofString s).text.toList).map String.ofList).map .normal := by
    rw [hparts, List.map_map]
    refine List.map_congr_left ?_
    intro piece hpiece
    exact if_neg (hparent piece hpiece)
  refine ⟨_, hnames, ?_, ?_⟩
  · intro name hname
    obtain ⟨piece, hpiece, rfl⟩ := List.mem_map.1 hname
    exact isStep_ofList hpiece (hparent piece hpiece) (backslash_notMem_ofString s)
  · obtain ⟨name, hname, hcut⟩ := Option.bind_eq_some_iff.1 hextension
    obtain ⟨stem, hstem, rfl⟩ := exists_stem_of_cutAtPoint hcut
    refine ⟨stem, hstem, ?_⟩
    rw [fileName?, hnames, List.getLast?_map, Option.bind_map] at hname
    simpa [Function.comp_def, Component.name?, String.append_assoc] using hname

/-- An argument names a document in the way of some text. -/
theorem exists_ofString_eq_ofArgument (s : String) : ∃ t, ofArgument s = ofString t := by
  unfold ofArgument
  dsimp only
  split
  · exact ⟨_, rfl⟩
  · exact ⟨_, rfl⟩

end DocPath

open DocPath Paths

theorem checkPath_eq_ok {path : DocPath} : checkPath path = .ok () ↔ path.isDocument = true := by
  unfold checkPath
  split
  · next h => exact ⟨fun _ => h, fun _ => rfl⟩
  · next h => exact ⟨nofun, fun hdocument => absurd hdocument h⟩

/-- **The file of a document lies below the data directory**, whether the path was read from any
text or from an argument of a command: if the check lets it through, the components of the file are
those of the data directory and then names that lead down, the last of which ends in `.json`. -/
theorem DirectoryStore.components_fileOf (store : DirectoryStore) (s : String) (path : DocPath)
    (hpath : path = .ofString s ∨ path = .ofArgument s) (hcheck : checkPath path = .ok ()) :
    ∃ names : List String,
      components (store.fileOf path) = components store.root ++ names.map .normal ∧
      (∀ name ∈ names, IsStep name) ∧
      ∃ stem, stem ≠ "" ∧ names.getLast? = some (stem ++ ".json") := by
  have htext : ∃ t, path = .ofString t := by
    rcases hpath with h | h
    · exact ⟨s, h⟩
    · rw [h]
      exact exists_ofString_eq_ofArgument s
  obtain ⟨t, ht⟩ := htext
  subst ht
  have hdocument := checkPath_eq_ok.1 hcheck
  obtain ⟨names, hnames, hsteps, hlast⟩ := components_of_isDocument hdocument
  refine ⟨names, ?_, hsteps, hlast⟩
  rw [fileOf, components_join store.root (anchor_of_isDocument hdocument), hnames]

/-- An argument with blanks around it, dots at its start, slashes of both kinds and no extension. -/
theorem DirectoryStore.components_fileOf_shopItems :
    ∃ names : List String,
      components "data/shop/.//items.v2.json" = components "data/" ++ names.map .normal ∧
      (∀ name ∈ names, IsStep name) ∧
      ∃ stem, stem ≠ "" ∧ names.getLast? = some (stem ++ ".json") :=
  DirectoryStore.components_fileOf ⟨"data/", ⟨3, [], [], true⟩⟩ " .\\./shop\\.//items.v2 "
    ⟨"shop/.//items.v2.json"⟩ (.inr (by decide +kernel)) (by decide +kernel)

end JsonShelf
