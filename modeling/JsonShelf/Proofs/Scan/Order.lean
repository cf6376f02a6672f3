/-
**Paths in order.**

A listing is a list of paths in order, each once.  Such a list is known when its members are.

Main definitions:

* `Scan.Ordered` — the paths of a list stand in order, each once.

Main results:

* `Scan.ordered_sorted`, `Scan.mem_sorted` — sorting puts the same paths in order;
* `Scan.Ordered.eq_of_mem_iff` — **two lists in order with the same members are equal**;
* `Scan.Ordered.sublist_of_subset` — a list in order with fewer members is a part of the other;
* `Scan.Ordered.bytes` — they stand in the order of their bytes.
-/

import JsonShelf.Proofs.Text.ByteOrder
import JsonShelf.Scan.Discovery
import Mathlib.Data.List.Perm.Subperm

set_option autoImplicit false

namespace JsonShelf.Scan

variable {path p : DocPath} {paths others : List DocPath}

/-- The paths stand in order, each once. -/
def Ordered (paths : List DocPath) : Prop :=
  paths.Pairwise fun p q => p.text < q.text

theorem lt_of_not_lt (hne : p ≠ path) (h : ¬path.text < p.text) : p.text < path.text := by
  refine Decidable.byContradiction fun hlt => hne ?_
  have htext := String.le_antisymm (String.not_lt.1 h) (String.not_lt.1 hlt)
  exact congrArg DocPath.mk htext

theorem mem_insertSorted : p ∈ insertSorted path paths ↔ p = path ∨ p ∈ paths := by
  induction paths with
  | nil => simp [insertSorted]
  | cons first rest ih =>
      rw [insertSorted]
      split
      · next heq => simp [heq]
      · split
        · simp
        · rw [List.mem_cons, List.mem_cons, ih]
          tauto

theorem ordered_insertSorted (h : Ordered paths) : Ordered (insertSorted path paths) := by
  induction paths with
  | nil => exact List.pairwise_singleton _ _
  | cons first rest ih =>
      obtain ⟨hfirst, hrest⟩ := List.pairwise_cons.1 h
      rw [insertSorted]
      split
      · exact h
      · next hne =>
        split
        · next hlt =>
          refine List.pairwise_cons.2 ⟨?_, h⟩
          intro q hq
          rcases List.mem_cons.1 hq with rfl | hq
          · exact hlt
          · exact String.lt_trans hlt (hfirst q hq)
        · next hlt =>
          refine List.pairwise_cons.2 ⟨?_, ih hrest⟩
          intro q hq
          rcases mem_insertSorted.1 hq with rfl | hq
          · exact lt_of_not_lt hne hlt
          · exact hfirst q hq

theorem mem_sorted : p ∈ sorted paths ↔ p ∈ paths := by
  induction paths with
  | nil => rfl
  | cons first rest ih =>
      have hcons : sorted (first :: rest) = insertSorted first (sorted rest) := rfl
      rw [hcons, mem_insertSorted, ih, List.mem_cons]

theorem ordered_sorted (paths : List DocPath) : Ordered (sorted paths) := by
  induction paths with
  | nil => exact List.Pairwise.nil
  | cons first rest ih => exact ordered_insertSorted ih

namespace Ordered

theorem nodup (h : Ordered paths) : paths.Nodup := by
  refine List.Pairwise.imp ?_ h
  rintro p _ hlt rfl
  exact String.lt_irrefl p.text hlt

/-- **Two lists in order with the same members are equal.** -/
theorem eq_of_mem_iff (h : Ordered paths) (hothers : Ordered others)
    (hmem : ∀ p, p ∈ paths ↔ p ∈ others) : paths = others := by
  have hperm : paths.Perm others := (List.perm_ext_iff_of_nodup h.nodup hothers.nodup).2 hmem
  exact hperm.eq_of_pairwise (fun p q _ _ hpq hqp => absurd hqp (String.lt_asymm hpq)) h hothers

/-- A list in order whose members are members of another is a part of it. -/
theorem sublist_of_subset (h : Ordered paths) (hothers : Ordered others)
    (hsubset : paths ⊆ others) : paths.Sublist others := by
  obtain ⟨part, hperm, hpart⟩ := List.subperm_of_subset h.nodup hsubset
  have hordered : Ordered part := List.Pairwise.sublist hpart hothers
  rw [← hordered.eq_of_mem_iff h fun p => hperm.mem_iff]
  exact hpart

/-- Paths in order stand in the order of their bytes. -/
theorem bytes (h : Ordered paths) :
    paths.Pairwise fun p q => Text.bytes p.text < Text.bytes q.text :=
  List.Pairwise.imp (fun hlt => Text.bytes_lt_bytes hlt) h

end Ordered

end JsonShelf.Scan
