/-
**Names do not depend on the order of the documents.**

Each stage looks at the names of all documents, but only counts them.  So in whatever order the
documents come, a path gets the same name, and if names clash in the end, the same identifier is
reported, with the same documents.

Main definitions:

* `Zod.leastShared?` — the least identifier that several documents declare;
* `Zod.MovesAlong` — the outcomes for two orders of the same documents go together.

Main results:

* `Zod.refined_of_perm` — one stage gives a path the same name in any order;
* `Zod.marked_of_perm` — **so do all stages**;
* `Zod.leastShared?_of_perm` — the clash that is reported is the same;
* `Zod.assignNames_movesAlong` — **names move along with the documents**.
-/

import JsonShelf.Proofs.Zod.Clashes
import Mathlib.Data.List.FinRange
import Mathlib.Data.String.Basic

set_option autoImplicit false

namespace JsonShelf.Zod

variable {paths others : List DocPath} {names : List String} {name : DocPath → String}

/-! ### Stages -/

/-- A stage gives a path the same name in any order. -/
theorem refined_of_perm (h : paths.Perm others) (rename : DocPath → String → String)
    (name : DocPath → String) : refined rename paths name = refined rename others name := by
  have hclashes : clashes (paths.map name) = clashes (others.map name) := by
    funext ident
    rw [clashes, clashes, (h.map name).countP_eq]
  funext path
  rw [refined, refined, hclashes]

/-- **The stages together give a path the same name in any order.** -/
theorem marked_of_perm (h : paths.Perm others) (digest : String → String) :
    marked digest paths = marked digest others := by
  have hqualified : qualified paths = qualified others := refined_of_perm h _ plainName
  rw [marked, marked, hqualified]
  exact refined_of_perm h _ (qualified others)

/-! ### The clash that is reported -/

/-- The least identifier that several documents declare. -/
def leastShared? (paths : List DocPath) (name : DocPath → String) : Option String :=
  (((paths.map name).flatMap declared).filter fun ident =>
    1 < (owners paths (paths.map name) ident).length).min?

theorem lesser_eq_min (a b : String) : lesser a b = min a b := by
  rw [lesser, min_def]
  split
  · next h => rw [if_neg (not_le.2 h)]
  · next h => rw [if_pos (not_lt.1 h)]

theorem firstClash?_map (paths : List DocPath) (name : DocPath → String) :
    firstClash? paths (paths.map name) = (leastShared? paths name).map fun ident =>
      ⟨ident, owners paths (paths.map name) ident⟩ := by
  have hlesser : lesser = min := by
    funext a b
    exact lesser_eq_min a b
  rw [firstClash?, leastShared?]
  split
  · next h => rw [h, List.min?_nil, Option.map_none]
  · next first rest h => rw [h, List.min?_cons', Option.map_some, hlesser]

/-- The least element of a list does not depend on the order. -/
theorem min?_of_perm {xs ys : List String} (h : xs.Perm ys) : xs.min? = ys.min? := by
  refine Option.ext fun least => ?_
  rw [List.min?_eq_some_iff, List.min?_eq_some_iff, h.mem_iff]
  exact and_congr_right fun _ => forall_congr' fun other => by rw [h.mem_iff]

theorem owners_of_perm (h : paths.Perm others) (name : DocPath → String) (ident : String) :
    (owners paths (paths.map name) ident).Perm (owners others (others.map name) ident) := by
  rw [owners_map, owners_map]
  exact h.filter _

theorem leastShared?_of_perm (h : paths.Perm others) (name : DocPath → String) :
    leastShared? paths name = leastShared? others name := by
  rw [leastShared?, leastShared?]
  simp only [(owners_of_perm h name _).length_eq]
  exact min?_of_perm (((h.map name).flatMap_right declared).filter _)

/-! ### All outcomes -/

/-- The outcomes for two orders of the same documents go together: the document at place `i` of the
second order, which was at place `σ i` of the first, has the same name, or the same identifier is
declared by the same documents. -/
inductive MovesAlong {n : ℕ} (σ : Equiv.Perm (Fin n)) :
    Except NameClash (List String) → Except NameClash (List String) → Prop where
  | names {first second : List String} (length_first : first.length = n)
      (length_second : second.length = n)
      (moved : ∀ i : Fin n, second[(i : ℕ)]? = first[(σ i : ℕ)]?) :
      MovesAlong σ (.ok first) (.ok second)
  | clash {first second : NameClash} (identifier : second.identifier = first.identifier)
      (paths : second.paths.Perm first.paths) : MovesAlong σ (.error first) (.error second)

/-- **Names move along with the documents.**  Whatever the fingerprint, documents in another order
get the names they had before, each document its own; if there are none, the same identifier
clashes, with the same documents. -/
theorem assignNames_movesAlong (digest : String → String) (paths : List DocPath)
    (σ : Equiv.Perm (Fin paths.length)) :
    MovesAlong σ (assignNames digest paths)
      (assignNames digest (List.ofFn fun i => paths[σ i])) := by
  have hperm : (List.ofFn fun i => paths[σ i]).Perm paths := by
    have hmoved := σ.ofFn_comp_perm fun i : Fin paths.length => paths[i]
    rw [show (List.ofFn fun i : Fin paths.length => paths[i]) = paths from List.ofFn_getElem]
      at hmoved
    exact hmoved
  have hlength := hperm.length_eq
  rw [assignNames_eq, assignNames_eq, marked_of_perm hperm digest, firstClash?_map,
    firstClash?_map, leastShared?_of_perm hperm]
  cases leastShared? paths (marked digest paths) with
  | some ident => exact .clash rfl (owners_of_perm hperm _ ident)
  | none =>
      refine .names (List.length_map _) ((List.length_map _).trans hlength) fun i => ?_
      rw [List.getElem?_map, List.getElem?_map, List.getElem?_ofFn, dif_pos i.isLt,
        List.getElem?_eq_getElem (σ i).isLt]
      rfl

end JsonShelf.Zod
