/-
**Names and the paths that they spell.**

A scan goes from name to name, and what it tells are paths.  The path of some names can be split
into the names again, and read from the data directory it leads where the names lead one after the
other.

Main definitions:

* `Scan.separator` — what has to stand between a base and a path that is read from it.

Main results:

* `Scan.split_pathOf` — **a path is split into its names**;
* `Scan.pathOf_injective` — different names have different paths;
* `Scan.foldl_join`, `Scan.join_pathOf` — **the path leads where the names lead**.
-/

import JsonShelf.Proofs.Paths.Arguments
import JsonShelf.Scan.Discovery
import Mathlib.Data.List.Induction

set_option autoImplicit false

namespace JsonShelf.Scan

open Paths (IsStep)

variable {names : List String} {name : String}

/-! ### The text of a path -/

theorem toList_intercalate_cons {first : String} {others : List String} (h : others ≠ []) :
    ("/".intercalate (first :: others)).toList =
      first.toList ++ '/' :: ("/".intercalate others).toList := by
  obtain ⟨second, rest, rfl⟩ := List.exists_cons_of_ne_nil h
  rw [String.toList_intercalate, String.toList_intercalate, List.map_cons, List.map_cons,
    List.intercalate_cons_cons, List.append_assoc]
  rfl

theorem intercalate_append_singleton (h : names ≠ []) :
    "/".intercalate (names ++ [name]) = "/".intercalate names ++ "/" ++ name := by
  rw [String.intercalate_append_of_ne_nil h (List.cons_ne_nil _ _), String.intercalate_singleton]

/-- Names spell no character that is in none of them, but for the slashes between them. -/
theorem notMem_intercalate {c : Char} (hc : c ≠ '/') (h : ∀ name ∈ names, c ∉ name.toList) :
    c ∉ ("/".intercalate names).toList := by
  induction names with
  | nil => simp
  | cons first others ih =>
      have hfirst := h first List.mem_cons_self
      by_cases hnil : others = []
      · rw [hnil, String.intercalate_singleton]
        exact hfirst
      · rw [toList_intercalate_cons hnil, List.mem_append, List.mem_cons, not_or, not_or]
        exact ⟨hfirst, hc, ih fun name hname => h name (List.mem_cons_of_mem _ hname)⟩

/-- The first of some names begins what they spell, and a slash or nothing follows. -/
theorem exists_intercalate_eq (first : String) (others : List String) :
    ∃ rest, ("/".intercalate (first :: others)).toList = first.toList ++ rest ∧
      (rest = [] ∨ ∃ after, rest = '/' :: after) := by
  by_cases hnil : others = []
  · refine ⟨[], ?_, .inl rfl⟩
    rw [hnil, String.intercalate_singleton, List.append_nil]
  · exact ⟨_, toList_intercalate_cons hnil, .inr ⟨_, rfl⟩⟩

theorem toList_ne_nil (h : IsStep name) : name.toList ≠ [] :=
  fun e => h.ne_empty (String.toList_eq_nil_iff.1 e)

theorem intercalate_ne_empty {first : String} (h : IsStep first) (others : List String) :
    "/".intercalate (first :: others) ≠ "" := by
  intro hempty
  obtain ⟨rest, htext, -⟩ := exists_intercalate_eq first others
  rw [hempty] at htext
  exact toList_ne_nil h (List.append_eq_nil_iff.1 htext.symm).1

/-- Names do not spell a dot and a slash in front: the dot would be the first name. -/
theorem dots_ne_intercalate {first : String} (h : IsStep first) (others : List String)
    (after : List Char) : ("/".intercalate (first :: others)).toList ≠ '.' :: '/' :: after := by
  intro hdot
  obtain ⟨rest, htext, hrest⟩ := exists_intercalate_eq first others
  obtain ⟨c, tail, hcs⟩ := List.exists_cons_of_ne_nil (toList_ne_nil h)
  rw [htext, hcs] at hdot
  cases tail with
  | nil =>
      refine h.ne_dot (String.toList_injective ?_)
      rw [hcs, (List.cons.inj hdot).1]
      rfl
  | cons d tail =>
      refine h.slash_notMem ?_
      rw [hcs, ← (List.cons.inj (List.cons.inj hdot).2).1]
      simp

/-- The path of some names is what they spell, with slashes between them. -/
theorem text_pathOf (h : ∀ name ∈ names, IsStep name) (hne : names ≠ []) :
    (pathOf names).text = "/".intercalate names := by
  obtain ⟨first, others, rfl⟩ := List.exists_cons_of_ne_nil hne
  have hfirst := h first List.mem_cons_self
  rw [pathOf, DocPath.ofString_eq_self (intercalate_ne_empty hfirst others)
    (notMem_intercalate (by decide) fun name hname => (h name hname).backslash_notMem)
    (dots_ne_intercalate hfirst others)]

/-- **A path is split into its names.** -/
theorem split_pathOf (h : ∀ name ∈ names, IsStep name) (hne : names ≠ []) :
    Text.split (· == '/') (pathOf names).text = names := by
  have hpieces : (['/'].intercalate (names.map String.toList)).splitOn '/' =
      names.map String.toList := by
    refine List.splitOn_intercalate '/' ?_ (by simpa using hne)
    intro piece hpiece
    obtain ⟨name, hname, rfl⟩ := List.mem_map.1 hpiece
    exact (h name hname).slash_notMem
  rw [text_pathOf h hne, Text.split, String.toList_intercalate]
  rw [List.splitOn] at hpieces
  have hslash : "/".toList = ['/'] := rfl
  rw [hslash, hpieces, List.map_map]
  have hid : String.ofList ∘ String.toList = id := funext fun s => String.ofList_toList
  rw [hid, List.map_id]

/-- **Different names have different paths.** -/
theorem pathOf_injective {others : List String} (h : ∀ name ∈ names, IsStep name) (hne : names ≠ [])
    (hothers : ∀ name ∈ others, IsStep name) (hothersNe : others ≠ [])
    (heq : pathOf names = pathOf others) : names = others := by
  rw [← split_pathOf h hne, heq, split_pathOf hothers hothersNe]

/-! ### Going from name to name -/

/-- What has to stand between a base and a path that is read from it. -/
def separator (base : String) : String :=
  if base.isEmpty || base.toList.getLast? == some '/' then "" else "/"

theorem join_eq {path : String} (base : String) (h : Paths.isAbsolute path.toList = false) :
    Paths.join base path = base ++ separator base ++ path := by
  rw [Paths.join, h, separator]
  split
  · next hfalse => cases hfalse
  · split
    · rw [String.append_empty]
    · rfl

theorem separator_of_getLast? {base : String} (hne : base ≠ "")
    (hslash : base.toList.getLast? ≠ some '/') : separator base = "/" := by
  simp [separator, hne, hslash]

theorem isAbsolute_intercalate (h : ∀ name ∈ names, IsStep name) :
    Paths.isAbsolute ("/".intercalate names).toList = false := by
  cases names with
  | nil => decide
  | cons first others =>
      have hfirst := h first List.mem_cons_self
      obtain ⟨rest, htext, -⟩ := exists_intercalate_eq first others
      obtain ⟨c, tail, hcs⟩ := List.exists_cons_of_ne_nil (toList_ne_nil hfirst)
      have hne : c ≠ '/' := by
        rintro rfl
        exact hfirst.slash_notMem (by rw [hcs]; exact List.mem_cons_self)
      rw [htext, hcs]
      simpa [Paths.isAbsolute] using hne

theorem isAbsolute_of_isStep (h : IsStep name) : Paths.isAbsolute name.toList = false := by
  rw [← String.intercalate_singleton (s := "/") (t := name)]
  exact isAbsolute_intercalate (by simpa using h)

/-- What some names spell does not end in a slash. -/
theorem getLast?_intercalate (front : String) (h : ∀ name ∈ names, IsStep name) (hne : names ≠ []) :
    (front ++ "/".intercalate names).toList.getLast? ≠ some '/' := by
  have hlast : ∀ (front : String) {name : String}, IsStep name →
      (front ++ name).toList.getLast? ≠ some '/' := by
    intro front name hname hslash
    rw [String.toList_append, List.getLast?_append_of_ne_nil _ (toList_ne_nil hname)] at hslash
    exact hname.slash_notMem (List.mem_of_getLast? hslash)
  induction names using List.reverseRecOn with
  | nil => exact absurd rfl hne
  | append_singleton above name =>
      have hname := h name (by simp)
      by_cases hnil : above = []
      · rw [hnil, List.nil_append, String.intercalate_singleton]
        exact hlast front hname
      · rw [intercalate_append_singleton hnil, ← String.append_assoc]
        exact hlast _ hname

/-- **Names read from a base, one after the other, spell a path behind the base.** -/
theorem foldl_join (root : String) (h : ∀ name ∈ names, IsStep name) (hne : names ≠ []) :
    names.foldl Paths.join root = root ++ separator root ++ "/".intercalate names := by
  induction names using List.reverseRecOn with
  | nil => exact absurd rfl hne
  | append_singleton above name ih =>
      have hname := isAbsolute_of_isStep (h name (by simp))
      rw [List.foldl_append, List.foldl_cons, List.foldl_nil]
      by_cases hnil : above = []
      · rw [hnil, List.nil_append, String.intercalate_singleton]
        exact join_eq root hname
      · have habove : ∀ name ∈ above, IsStep name := fun name hmem => h name (by simp [hmem])
        have hslash := getLast?_intercalate (root ++ separator root) habove hnil
        have hempty : root ++ separator root ++ "/".intercalate above ≠ "" := by
          obtain ⟨first, others, rfl⟩ := List.exists_cons_of_ne_nil hnil
          intro hempty
          have hspelled := (String.append_eq_empty_iff.1 hempty).2
          exact intercalate_ne_empty (habove first List.mem_cons_self) others hspelled
        rw [ih habove hnil, join_eq _ hname, separator_of_getLast? hempty hslash,
          intercalate_append_singleton hnil]
        simp only [String.append_assoc]

/-- **The path leads where the names lead.** -/
theorem join_pathOf (root : String) (h : ∀ name ∈ names, IsStep name) (hne : names ≠ []) :
    Paths.join root (pathOf names).text = names.foldl Paths.join root := by
  rw [text_pathOf h hne, foldl_join root h hne, join_eq root (isAbsolute_intercalate h)]

end JsonShelf.Scan
