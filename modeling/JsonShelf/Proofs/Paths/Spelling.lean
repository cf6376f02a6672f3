/-
**How paths are spelled.**

What stands between the slashes of a path are names, and some of them count for nothing: empty ones,
from slashes that are repeated or stand at the end, and single dots.  Reading a path normalises the
slashes and the dots at its start only, so a file below the data directory has many paths.  Two of
them differ in these fillers alone, and exactly one of them has none.

Main definitions:

* `DocPath.names` — what stands between the slashes of a path;
* `DocPath.IsPlain` — no name in the path counts for nothing;
* `DocPath.fillers` — the names that count for nothing, each at its place.

Main results:

* `DocPath.eq_pathOf_names` — a path that is made of names is the path of these names;
* `DocPath.steps_eq_of_components` — the components of a document tell its steps;
* `DocPath.eq_iff_fillers` — **two paths of one file are equal exactly when their fillers are**, and
  a file has exactly one path without any.
-/

import JsonShelf.Proofs.Paths.Parent

set_option autoImplicit false

namespace JsonShelf

open Paths (IsStep)
open Scan (pathOf)

namespace DocPath

variable {path other : DocPath} {s t : String} {ns : List String}

/-! ### The names in a path -/

/-- What stands between the slashes of a path. -/
def names (path : DocPath) : List String := Text.split (· == '/') path.text

theorem eq_of_text (h : path.text = other.text) : path = other := by
  cases path
  exact congrArg mk h

theorem names_ne_nil (path : DocPath) : path.names ≠ [] := by
  intro h
  exact List.splitOnP_ne_nil _ _ (List.map_eq_nil_iff.1 h)

/-- The names in a path spell it, with slashes between them. -/
theorem intercalate_names (path : DocPath) : "/".intercalate path.names = path.text := by
  refine String.toList_injective ?_
  have hid : String.toList ∘ String.ofList = id := funext fun cs => String.toList_ofList
  rw [String.toList_intercalate, names, Text.split, List.map_map, hid, List.map_id]
  exact Paths.intercalate_splitOnP path.text.toList

theorem eq_of_names (h : path.names = other.names) : path = other := by
  refine eq_of_text ?_
  rw [← intercalate_names, h, intercalate_names]

/-- The names in the path of a document lead down, if none of them is empty or a dot. -/
theorem isStep_of_mem_names (h : (ofString s).isDocument = true)
    (hplain : ∀ name ∈ (ofString s).names, name ≠ "" ∧ name ≠ ".") :
    ∀ name ∈ (ofString s).names, IsStep name := by
  intro name hname
  obtain ⟨hempty, hdot⟩ := hplain name hname
  obtain ⟨piece, hpiece, rfl⟩ := List.mem_map.1 hname
  have hidle : Paths.isIdle piece = false := by
    refine Bool.eq_false_iff.2 fun hidle => ?_
    rcases Paths.isIdle_iff.1 hidle with rfl | rfl
    · exact hempty rfl
    · exact hdot rfl
  have hstep : piece ∈ Paths.steps (ofString s).text.toList :=
    List.mem_filter.2 ⟨hpiece, by rw [hidle]; rfl⟩
  obtain ⟨names, hnames, hsteps, -⟩ := components_of_isDocument h
  have hmem : Paths.componentOf piece ∈ Paths.components (ofString s).text := by
    rw [Paths.components_eq_append]
    exact List.mem_append_right _ (List.mem_map_of_mem hstep)
  rw [hnames] at hmem
  obtain ⟨name, hname, hcomponent⟩ := List.mem_map.1 hmem
  unfold Paths.componentOf at hcomponent
  split at hcomponent
  · cases hcomponent
  · cases hcomponent
    exact hsteps _ hname

theorem names_pathOf (h : ∀ name ∈ ns, IsStep name) (hne : ns ≠ []) : (pathOf ns).names = ns :=
  Scan.split_pathOf h hne

/-- A path that is made of names is the path of these names. -/
theorem eq_pathOf_names (h : ∀ name ∈ path.names, IsStep name) : path = pathOf path.names :=
  eq_of_names (names_pathOf h path.names_ne_nil).symm

/-! ### Names that count for nothing -/

/-- The name counts for nothing. -/
def isFiller (name : String) : Bool := name == "" || name == "."

/-- No name in the path counts for nothing. -/
def IsPlain (path : DocPath) : Prop := ∀ name ∈ path.names, isFiller name = false

/-- The names that count for nothing, each at its place among the others. -/
def fillers (path : DocPath) : List (Option String) :=
  path.names.map fun name => if isFiller name then some name else none

theorem isFiller_ofList (piece : List Char) :
    isFiller (String.ofList piece) = Paths.isIdle piece := by
  have hofList : ∀ cs : List Char, (String.ofList piece == String.ofList cs) = (piece == cs) := by
    intro cs
    rw [Bool.eq_iff_iff, beq_iff_eq, beq_iff_eq]
    exact ⟨fun h => by simpa using congrArg String.toList h, congrArg String.ofList⟩
  exact congrArg₂ or (hofList []) (hofList ['.'])

/-- The steps of a path are its names but for the fillers. -/
theorem map_steps (path : DocPath) :
    (Paths.steps path.text.toList).map String.ofList = path.names.filter (!isFiller ·) := by
  rw [names, Text.split, List.filter_map, Paths.steps]
  exact congrArg _ (List.filter_congr fun piece _ => congrArg not (isFiller_ofList piece).symm)

theorem map_steps_of_isPlain (h : path.IsPlain) :
    (Paths.steps path.text.toList).map String.ofList = path.names := by
  rw [map_steps]
  exact List.filter_eq_self.2 fun name hname => congrArg not (h name hname)

/-- What is left of two lists, and what is left out of them and where, tell the lists. -/
theorem eq_of_filter_eq {α : Type} {p : α → Bool} {l l' : List α}
    (hkept : l.filter (!p ·) = l'.filter (!p ·))
    (hout : l.map (fun a => if p a then some a else none) =
      l'.map (fun a => if p a then some a else none)) : l = l' := by
  induction l generalizing l' with
  | nil => exact (List.map_eq_nil_iff.1 hout.symm).symm
  | cons a rest ih =>
      cases l' with
      | nil => cases hout
      | cons b rest' =>
          rw [List.map_cons, List.map_cons, List.cons.injEq] at hout
          obtain ⟨hfirst, hrest⟩ := hout
          rw [List.filter_cons, List.filter_cons] at hkept
          cases ha : p a <;> cases hb : p b <;> simp [ha, hb] at hfirst hkept
          · rw [hkept.1, ih hkept.2 hrest]
          · rw [hfirst, ih hkept hrest]

theorem eq_of_fillers (hsteps : Paths.steps path.text.toList = Paths.steps other.text.toList)
    (hfillers : path.fillers = other.fillers) : path = other := by
  refine eq_of_names (eq_of_filter_eq ?_ hfillers)
  rw [← map_steps, ← map_steps, hsteps]

/-- A path without fillers has as many empty places as steps. -/
theorem fillers_of_isPlain (h : path.IsPlain) :
    path.fillers = List.replicate (Paths.steps path.text.toList).length none := by
  have hnone : path.names.map (fun name => if isFiller name then some name else none) =
      path.names.map (Function.const String none) := by
    refine List.map_congr_left fun name hname => ?_
    rw [h name hname]
    rfl
  rw [fillers, hnone, List.map_const, ← map_steps_of_isPlain h, List.length_map]

/-! ### Paths of one file -/

theorem componentOf_injective {piece piece' : List Char}
    (h : Paths.componentOf piece = Paths.componentOf piece') : piece = piece' := by
  unfold Paths.componentOf at h
  split at h
  · next hdots =>
    split at h
    · next hdots' => rw [hdots, hdots']
    · cases h
  · split at h
    · cases h
    · simpa using congrArg String.toList (Paths.Component.normal.inj h)

/-- The components of the path of a document are its steps. -/
theorem components_of_steps (h : (ofString s).isDocument = true) :
    Paths.components (ofString s).text =
      (Paths.steps (ofString s).text.toList).map Paths.componentOf := by
  rw [Paths.components_eq, Paths.componentsOf_of_anchor (anchor_of_isDocument h)]

/-- The components of a document tell its steps. -/
theorem steps_eq_of_components (hs : (ofString s).isDocument = true)
    (ht : (ofString t).isDocument = true)
    (h : Paths.components (ofString s).text = Paths.components (ofString t).text) :
    Paths.steps (ofString s).text.toList = Paths.steps (ofString t).text.toList := by
  rw [components_of_steps hs, components_of_steps ht] at h
  exact List.map_injective_iff.2 (fun _ _ => componentOf_injective) h

/-- Whether a path may name a document is told by its components, unless it is a dot. -/
theorem isDocument_of_components (h : path.isDocument = true) (hne : other.text ≠ ".")
    (hsame : Paths.components other.text = Paths.components path.text) :
    other.isDocument = true := by
  obtain ⟨-, hescapes, hextension⟩ := isDocument_iff.1 h
  refine isDocument_iff.2 ⟨hne, ?_, ?_⟩
  · rwa [escapes, hsame]
  · rwa [Paths.extension?, Paths.fileName?, hsame]

theorem isPlain_pathOf (h : ∀ name ∈ ns, IsStep name) (hne : ns ≠ []) : (pathOf ns).IsPlain := by
  intro name hname
  rw [names_pathOf h hne] at hname
  simp [isFiller, (h name hname).ne_empty, (h name hname).ne_dot]

theorem text_pathOf_ne_dot (h : ∀ name ∈ ns, IsStep name) (hne : ns ≠ []) :
    (pathOf ns).text ≠ "." := by
  intro hdot
  have hnames := names_pathOf h hne
  rw [names, hdot] at hnames
  exact (h "." (by rw [← hnames]; decide)).ne_dot rfl

/-- The path of some names has these as its components. -/
theorem components_pathOf (h : ∀ name ∈ ns, IsStep name) (hne : ns ≠ []) :
    Paths.components (pathOf ns).text = ns.map .normal := by
  have hanchor : Paths.anchor (pathOf ns).text.toList = [] := by
    have htext := Scan.text_pathOf h hne
    rcases Paths.anchor_cases (pathOf ns).text.toList with
      ⟨-, rest, hroot⟩ | ⟨-, hdot | ⟨rest, hdots⟩⟩ | hnil
    · have habsolute := Scan.isAbsolute_intercalate h
      rw [← htext, hroot] at habsolute
      cases habsolute
    · exact absurd (String.toList_injective hdot) (text_pathOf_ne_dot h hne)
    · obtain ⟨first, others, rfl⟩ := List.exists_cons_of_ne_nil hne
      rw [htext] at hdots
      exact absurd hdots (Scan.dots_ne_intercalate (h first List.mem_cons_self) others rest)
    · exact hnil
  have hsteps := map_steps_of_isPlain (isPlain_pathOf h hne)
  rw [names_pathOf h hne] at hsteps
  rw [Paths.components_eq, Paths.componentsOf_of_anchor hanchor]
  conv_rhs => rw [← hsteps, List.map_map]
  refine List.map_congr_left fun piece hpiece => ?_
  have hdots : piece ≠ ['.', '.'] := by
    rintro rfl
    have hmem : ".." ∈ ns := by
      rw [← hsteps]
      exact List.mem_map.2 ⟨_, hpiece, by decide⟩
    exact (h ".." hmem).ne_dots rfl
  exact if_neg hdots

/-- A document has a path without fillers. -/
theorem exists_plain (h : (ofString s).isDocument = true) :
    ∃ t, (ofString t).isDocument = true ∧ (ofString t).IsPlain ∧
      Paths.components (ofString t).text = Paths.components (ofString s).text := by
  obtain ⟨ns, hcomponents, hsteps, stem, -, hlast⟩ := components_of_isDocument h
  have hne : ns ≠ [] := by
    rintro rfl
    cases hlast
  have hsame : Paths.components (pathOf ns).text = Paths.components (ofString s).text := by
    rw [components_pathOf hsteps hne, hcomponents]
  exact ⟨"/".intercalate ns, isDocument_of_components h (text_pathOf_ne_dot hsteps hne) hsame,
    isPlain_pathOf hsteps hne, hsame⟩

/-- Paths of one file without fillers are equal. -/
theorem eq_of_isPlain (hs : (ofString s).isDocument = true) (ht : (ofString t).isDocument = true)
    (h : Paths.components (ofString s).text = Paths.components (ofString t).text)
    (hplain : (ofString s).IsPlain) (hplain' : (ofString t).IsPlain) : ofString s = ofString t := by
  have hsteps := steps_eq_of_components hs ht h
  refine eq_of_fillers hsteps ?_
  rw [fillers_of_isPlain hplain, fillers_of_isPlain hplain', hsteps]

/-- **Two paths of one file are equal exactly when their fillers are**: the empty names in them and
the single dots, each at its place.  So they are equal if they have none, and exactly one path of a
file has none. -/
theorem eq_iff_fillers (hs : checkPath (ofString s) = .ok ()) (ht : checkPath (ofString t) = .ok ())
    (h : Paths.components (ofString s).text = Paths.components (ofString t).text) :
    (ofString s = ofString t ↔ (ofString s).fillers = (ofString t).fillers) ∧
      ((ofString s).IsPlain → (ofString t).IsPlain → ofString s = ofString t) ∧
      ∃! path, (∃ u, path = ofString u) ∧ checkPath path = .ok () ∧ path.IsPlain ∧
        Paths.components path.text = Paths.components (ofString s).text := by
  rw [checkPath_eq_ok] at hs ht
  refine ⟨⟨fun heq => by rw [heq], eq_of_fillers (steps_eq_of_components hs ht h)⟩,
    eq_of_isPlain hs ht h, ?_⟩
  obtain ⟨u, hu, hplain, hsame⟩ := exists_plain hs
  refine ⟨ofString u, ⟨⟨u, rfl⟩, checkPath_eq_ok.2 hu, hplain, hsame⟩, ?_⟩
  rintro _ ⟨⟨v, rfl⟩, hv, hplain', hsame'⟩
  exact eq_of_isPlain (checkPath_eq_ok.1 hv) hu (hsame'.trans hsame.symm) hplain' hplain

/-- A path written with slashes of both kinds and dots, and another one with a slash at its end. -/
theorem eq_iff_fillers_items :
    checkPath (ofString "./.\\shop\\.//items.v2.json") = .ok () ∧
      checkPath (ofString "shop//items.v2.json/") = .ok () ∧
      Paths.components (ofString "./.\\shop\\.//items.v2.json").text =
        Paths.components (ofString "shop//items.v2.json/").text ∧
      (ofString "./.\\shop\\.//items.v2.json" = ofString "shop//items.v2.json/" ↔
        (ofString "./.\\shop\\.//items.v2.json").fillers =
          (ofString "shop//items.v2.json/").fillers) ∧
      ∃! path, (∃ u, path = ofString u) ∧ checkPath path = .ok () ∧ path.IsPlain ∧
        Paths.components path.text =
          Paths.components (ofString "./.\\shop\\.//items.v2.json").text := by
  have hs : checkPath (ofString "./.\\shop\\.//items.v2.json") = .ok () := by decide +kernel
  have ht : checkPath (ofString "shop//items.v2.json/") = .ok () := by decide +kernel
  have hsame : Paths.components (ofString "./.\\shop\\.//items.v2.json").text =
      Paths.components (ofString "shop//items.v2.json/").text := by decide +kernel
  obtain ⟨hiff, -, hplain⟩ := eq_iff_fillers hs ht hsame
  exact ⟨hs, ht, hsame, hiff, hplain⟩

/-- Slashes that are repeated make another path of the same file. -/
theorem ne_of_repeated_slash :
    checkPath (ofString "a/b.json") = .ok () ∧ checkPath (ofString "a//b.json") = .ok () ∧
      Paths.components (ofString "a/b.json").text = Paths.components (ofString "a//b.json").text ∧
      ofString "a/b.json" ≠ ofString "a//b.json" := by
  decide +kernel

end DocPath

end JsonShelf
