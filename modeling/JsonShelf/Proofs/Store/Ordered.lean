/-
**The store in memory as a map.**

The entries of a store in memory stand in the order of their paths, whatever was done to it.  So
there is one text for a path at most, and the listing is in order.

Main definitions:

* `MemoryStore.Ordered` — the entries stand in order.

Main results:

* `MemoryStore.get?_insert`, `MemoryStore.get?_erase` — what is under a path after a change;
* `MemoryStore.Ordered.insert`, `MemoryStore.Ordered.erase` — the entries stay in order;
* `MemoryStore.exists_list` — **what is listed, and in which order**;
* `MemoryStore.get?_ofList` — the texts of a list with one text for each path.
-/

import JsonShelf.Proofs.Computation
import JsonShelf.Proofs.Scan.Order
import JsonShelf.Store.Memory
import Mathlib.Data.List.Induction

set_option autoImplicit false

namespace JsonShelf.MemoryStore

variable {store : MemoryStore} {path other : DocPath} {text : String} {filter : ScanFilter}
  {entries : List (DocPath × String)}

/-! ### Look-up -/

theorem lookup_cons (path other : DocPath) (text : String) (entries : List (DocPath × String)) :
    ((path, text) :: entries).lookup other =
      if path = other then some text else entries.lookup other := by
  rw [List.lookup_cons]
  split
  · next heq => rw [if_pos (eq_of_beq heq).symm]
  · next hne => rw [if_neg fun heq => by rw [heq, beq_self_eq_true] at hne; cases hne]

theorem lookup_insertEntry (path other : DocPath) (text : String)
    (entries : List (DocPath × String)) :
    (insertEntry path text entries).lookup other =
      if path = other then some text else entries.lookup other := by
  induction entries with
  | nil => exact lookup_cons path other text []
  | cons entry rest ih =>
      obtain ⟨p, t⟩ := entry
      rw [insertEntry]
      split
      · next heq =>
        subst heq
        rw [lookup_cons, lookup_cons]
        split
        · rfl
        · rfl
      · next hne =>
        split
        · exact lookup_cons path other text _
        · rw [lookup_cons, lookup_cons, ih]
          split
          · next heq => rw [if_neg fun e => hne (heq.trans e.symm)]
          · rfl

/-- What is under a path after a text was put under a path. -/
theorem get?_insert (store : MemoryStore) (path other : DocPath) (text : String) :
    (store.insert path text).get? other = if path = other then some text else store.get? other :=
  lookup_insertEntry path other text store.entries

theorem insertEntry_insertEntry (path : DocPath) (text : String)
    (entries : List (DocPath × String)) :
    insertEntry path text (insertEntry path text entries) = insertEntry path text entries := by
  induction entries with
  | nil => exact if_pos rfl
  | cons entry rest ih =>
      obtain ⟨p, t⟩ := entry
      rw [insertEntry]
      split
      · exact if_pos rfl
      · next hne =>
        split
        · exact if_pos rfl
        · next hlt => rw [insertEntry, if_neg hne, if_neg hlt, ih]

/-- A text that is put under a path twice is there as if it was put there once. -/
theorem insert_insert (store : MemoryStore) (path : DocPath) (text : String) :
    (store.insert path text).insert path text = store.insert path text :=
  congrArg MemoryStore.mk (insertEntry_insertEntry path text store.entries)

theorem get?_erase (store : MemoryStore) (path other : DocPath) :
    (store.erase path).get? other = if path = other then none else store.get? other := by
  unfold erase get?
  dsimp only
  induction store.entries with
  | nil => simp
  | cons entry rest ih =>
      obtain ⟨p, t⟩ := entry
      rw [List.filter_cons, lookup_cons]
      split
      · next hkeep =>
        have hne : p ≠ path := by simpa using hkeep
        rw [lookup_cons, ih]
        split
        · next heq => rw [if_neg fun e => hne (heq.trans e.symm)]
        · rfl
      · next hdrop =>
        have heq : p = path := by simpa using hdrop
        rw [ih, heq]
        split
        · rfl
        · rfl

theorem get?_empty (path : DocPath) : empty.get? path = none := rfl

/-! ### Order -/

/-- The entries stand in the order of their paths. -/
def Ordered (store : MemoryStore) : Prop := Scan.Ordered (store.entries.map Prod.fst)

theorem map_fst_insertEntry (path : DocPath) (text : String) (entries : List (DocPath × String)) :
    (insertEntry path text entries).map Prod.fst =
      Scan.insertSorted path (entries.map Prod.fst) := by
  induction entries with
  | nil => rfl
  | cons entry rest ih =>
      obtain ⟨p, t⟩ := entry
      rw [insertEntry, List.map_cons, Scan.insertSorted]
      dsimp only
      split
      · next heq => rw [List.map_cons, heq]
      · split
        · rfl
        · rw [List.map_cons, ih]

theorem mem_iff_lookup (h : (entries.map Prod.fst).Nodup) :
    (path, text) ∈ entries ↔ entries.lookup path = some text := by
  induction entries with
  | nil => simp
  | cons entry rest ih =>
      obtain ⟨p, t⟩ := entry
      obtain ⟨hnotMem, hrest⟩ := List.nodup_cons.1 h
      rw [lookup_cons, List.mem_cons]
      split
      · next heq =>
        subst heq
        have hno : (p, text) ∉ rest := fun hmem => hnotMem (List.mem_map.2 ⟨_, hmem, rfl⟩)
        simp [hno, eq_comm]
      · next hne =>
        rw [← ih hrest, or_iff_right]
        intro heq
        exact hne (congrArg Prod.fst heq).symm

namespace Ordered

theorem empty : MemoryStore.empty.Ordered := List.Pairwise.nil

theorem insert (h : store.Ordered) (path : DocPath) (text : String) :
    (store.insert path text).Ordered := by
  unfold MemoryStore.Ordered MemoryStore.insert
  rw [map_fst_insertEntry]
  exact Scan.ordered_insertSorted h

theorem sublist (h : store.Ordered) (hentries : entries.Sublist store.entries) :
    Scan.Ordered (entries.map Prod.fst) :=
  List.Pairwise.sublist (hentries.map Prod.fst) h

theorem erase (h : store.Ordered) (path : DocPath) : (store.erase path).Ordered :=
  h.sublist List.filter_sublist

/-- The entries are the texts that are under some path. -/
theorem mem_entries_iff (h : store.Ordered) :
    (path, text) ∈ store.entries ↔ store.get? path = some text :=
  mem_iff_lookup (Scan.Ordered.nodup h)

end Ordered

/-! ### Listing -/

/-- **What is listed, and in which order.** -/
theorem exists_list (h : store.Ordered) (hfilter : ScanFilter.ofPolicy .standard = .ok filter) :
    ∃ listed, store.list = .ok listed ∧ Scan.Ordered listed ∧
      ∀ path, path ∈ listed ↔ ∃ text, store.get? path = some text ∧
        filter.allowsFile path = true ∧ (Json.parse text).toBool = true := by
  refine ⟨(store.entries.filter (isListed filter)).map Prod.fst, ?_, h.sublist List.filter_sublist,
    ?_⟩
  · rw [list, hfilter]
    rfl
  · intro path
    rw [List.mem_map]
    constructor
    · rintro ⟨⟨_, text⟩, hmem, rfl⟩
      obtain ⟨hmem, hlisted⟩ := List.mem_filter.1 hmem
      exact ⟨text, h.mem_entries_iff.1 hmem, by simpa [isListed] using hlisted⟩
    · rintro ⟨text, hget, hallowed, hparses⟩
      refine ⟨(path, text), List.mem_filter.2 ⟨h.mem_entries_iff.2 hget, ?_⟩, rfl⟩
      rw [isListed, hallowed, hparses]
      rfl

/-! ### Texts of a list -/

theorem ordered_ofList (files : List (DocPath × String)) : (ofList files).Ordered := by
  induction files using List.reverseRecOn with
  | nil => exact Ordered.empty
  | append_singleton files file ih =>
      rw [ofList, List.foldl_append]
      exact ih.insert file.1 file.2

/-- The last text of a path counts, so all count if each path has one text. -/
theorem get?_ofList {files : List (DocPath × String)}
    (h : ∀ path text text', (path, text) ∈ files → (path, text') ∈ files → text = text') :
    (ofList files).get? path = some text ↔ (path, text) ∈ files := by
  induction files using List.reverseRecOn with
  | nil => simp [ofList, get?_empty]
  | append_singleton files file ih =>
      obtain ⟨p, t⟩ := file
      have hfiles : ∀ path text text', (path, text) ∈ files → (path, text') ∈ files →
          text = text' :=
        fun path text text' hmem hmem' => h path text text' (by simp [hmem]) (by simp [hmem'])
      have hstep : ofList (files ++ [(p, t)]) = (ofList files).insert p t := by
        rw [ofList, List.foldl_append]
        rfl
      rw [hstep, get?_insert, List.mem_append, List.mem_singleton]
      split
      · next heq =>
        subst heq
        constructor
        · intro htext
          exact .inr (by rw [Option.some.inj htext])
        · rintro (hmem | heq)
          · exact congrArg some (h p t text (by simp) (by simp [hmem]))
          · exact congrArg some (congrArg Prod.snd heq).symm
      · next hne =>
        rw [ih hfiles, or_iff_left]
        intro heq
        exact hne (congrArg Prod.fst heq).symm

end JsonShelf.MemoryStore
