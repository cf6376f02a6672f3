/-
**How clashes between names are resolved.**

For a given list of documents each stage gives a path its name, so the name of a document depends on
its path and the whole list only.  After the last stage two names that declare a common identifier
would both be plain, both be marked, or one of each.  Plain names that clash have been marked, a
plain name ends otherwise than a marked one, and marked names end alike only if their marks are the
same.

Main definitions:

* `Zod.refined` — the name of a path after a stage;
* `Zod.qualified`, `Zod.marked` — the names after the first and after the second stage.

Main results:

* `Zod.refine_map` — a stage gives each path its name;
* `Zod.assignNames_eq` — what the stages together give;
* `Zod.assignNames_eq_ok` — when names are assigned, and which;
* `Zod.disjoint_of_ne_marks` — documents with different marks declare different identifiers;
* `Zod.assignNames_of_nodup_fingerprints` — **names are assigned whenever the fingerprints are
  different, and only to different paths**;
* `Zod.exported_of_assignNames` — **what is declared is never declared twice, is no fixed name of
  the module and is an identifier**.
-/

import JsonShelf.Proofs.Zod.NameForms
import JsonShelf.Proofs.Zod.Reader
import Mathlib.Data.List.Nodup

set_option autoImplicit false

namespace JsonShelf.Zod

variable {paths : List DocPath} {p q : DocPath} {name : DocPath → String} {ident : String}
  {names : List String} {digest : String → String}

/-! ### Stages -/

/-- The name of a path after a stage: replaced if it clashes. -/
def refined (rename : DocPath → String → String) (paths : List DocPath) (name : DocPath → String)
    (path : DocPath) : String :=
  if clashes (paths.map name) (name path) then rename path (name path) else name path

/-- A stage gives each path its name. -/
theorem refine_map (rename : DocPath → String → String) (paths : List DocPath)
    (name : DocPath → String) :
    refine rename paths (paths.map name) = paths.map (refined rename paths name) := by
  rw [refine, List.zipWith_map_right, List.zipWith_self]
  rfl

/-- The names after the first stage. -/
def qualified (paths : List DocPath) : DocPath → String :=
  refined (fun path _ => qualifiedName path) paths plainName

/-- The names after the second stage. -/
def marked (digest : String → String) (paths : List DocPath) : DocPath → String :=
  refined (fun path name => name ++ "_" ++ digest path.text) paths (qualified paths)

/-- A name stays as it is when it does not clash. -/
theorem marked_cases (digest : String → String) (paths : List DocPath) (path : DocPath) :
    (clashes (paths.map (qualified paths)) (qualified paths path) = true ∧
      marked digest paths path = qualified paths path ++ "_" ++ digest path.text) ∨
    (clashes (paths.map (qualified paths)) (qualified paths path) = false ∧
      marked digest paths path = qualified paths path) := by
  unfold marked refined
  split
  · next h => exact .inl ⟨h, rfl⟩
  · next h => exact .inr ⟨Bool.not_eq_true _ ▸ h, rfl⟩

theorem exists_qualifiedName_eq (path : DocPath) :
    ∃ text, qualifiedName path = schemaName (identifier text) := by
  unfold qualifiedName
  split
  · exact ⟨_, rfl⟩
  · exact ⟨_, rfl⟩

/-- The names after the first stage are plain. -/
theorem exists_qualified_eq (paths : List DocPath) (path : DocPath) :
    ∃ text, qualified paths path = schemaName (identifier text) := by
  unfold qualified refined
  split
  · exact exists_qualifiedName_eq path
  · exact ⟨_, rfl⟩

theorem isFormed_marked (hmark : IsMark (digest p.text)) :
    IsFormed (marked digest paths p) := by
  obtain ⟨text, htext⟩ := exists_qualified_eq paths p
  rcases marked_cases digest paths p with ⟨-, h⟩ | ⟨-, h⟩
  · exact ⟨text, .inr ⟨_, hmark, by rw [h, htext]⟩⟩
  · exact ⟨text, .inl (by rw [h, htext])⟩

/-! ### Clashes -/

theorem shares_comm (a b : String) : shares a b = shares b a := by
  rw [Bool.eq_iff_iff, shares_iff, shares_iff]
  constructor <;> rintro ⟨ident, ha, hb⟩ <;> exact ⟨ident, hb, ha⟩

theorem shares_self (a : String) : shares a a = true :=
  shares_iff.2 ⟨a, List.mem_cons_self, List.mem_cons_self⟩

/-- Two documents at different places whose names declare a common identifier clash. -/
theorem clashes_of_sublist (hsub : [p, q].Sublist paths)
    (h : shares (name p) (name q) = true) :
    clashes (paths.map name) (name p) = true ∧ clashes (paths.map name) (name q) = true := by
  have hcount : ∀ ident : String, shares ident (name p) = true → shares ident (name q) = true →
      clashes (paths.map name) ident = true := by
    intro ident hp hq
    have hle := (hsub.map name).countP_le (p := shares ident)
    rw [List.map_cons, List.map_cons, List.map_nil, List.countP_cons_of_pos hp,
      List.countP_cons_of_pos hq, List.countP_nil] at hle
    exact decide_eq_true hle
  exact ⟨hcount _ (shares_self _) h, hcount _ (shares_comm _ _ ▸ h) (shares_self _)⟩

theorem owners_map (paths : List DocPath) (name : DocPath → String) (ident : String) :
    owners paths (paths.map name) ident =
      paths.filter fun path => ident ∈ declared (name path) := by
  unfold owners
  induction paths with
  | nil => rfl
  | cons path rest ih =>
      rw [List.map_cons, List.zip_cons_cons, List.filter_cons, List.filter_cons, ← ih]
      by_cases h : ident ∈ declared (name path) <;> simp [h]

theorem firstClash?_eq_none :
    firstClash? paths names = none ↔
      ∀ ident ∈ names.flatMap declared, (owners paths names ident).length ≤ 1 := by
  have hfilter : (names.flatMap declared).filter
        (fun ident => 1 < (owners paths names ident).length) = [] ↔
      ∀ ident ∈ names.flatMap declared, (owners paths names ident).length ≤ 1 := by
    simp [List.filter_eq_nil_iff]
  rw [← hfilter, firstClash?]
  split
  · next h => exact ⟨fun _ => h, fun _ => rfl⟩
  · next h =>
    rw [h]
    exact ⟨nofun, nofun⟩

/-- There is no clash exactly when no two documents declare a common identifier. -/
theorem firstClash?_map_eq_none :
    firstClash? paths (paths.map name) = none ↔
      paths.Pairwise fun p q => List.Disjoint (declared (name p)) (declared (name q)) := by
  rw [firstClash?_eq_none, List.pairwise_iff_forall_sublist]
  constructor
  · intro h p q hsub ident hp hq
    have hident : ident ∈ (paths.map name).flatMap declared :=
      List.mem_flatMap.2 ⟨name p, List.mem_map_of_mem (hsub.subset List.mem_cons_self), hp⟩
    have hboth : [p, q].filter (fun path => ident ∈ declared (name path)) = [p, q] :=
      List.filter_eq_self.2 (by simp [hp, hq])
    have hle := (hsub.filter fun path => ident ∈ declared (name path)).length_le
    rw [hboth, ← owners_map] at hle
    exact absurd (Nat.le_trans hle (h ident hident)) (Nat.not_succ_le_self 1)
  · intro h ident _
    rw [owners_map]
    cases howners : paths.filter (fun path => ident ∈ declared (name path)) with
    | nil => exact Nat.zero_le 1
    | cons p others =>
        cases others with
        | nil => exact Nat.le_refl 1
        | cons q others =>
            -- two owners stand one after the other in the list
            have hmem : ∀ path ∈ p :: q :: others, ident ∈ declared (name path) := by
              intro path hpath
              rw [← howners] at hpath
              exact of_decide_eq_true (List.mem_filter.1 hpath).2
            have hsub : [p, q].Sublist paths := by
              refine List.Sublist.trans ?_ (List.filter_sublist (p := fun path =>
                decide (ident ∈ declared (name path))))
              rw [howners]
              exact List.sublist_append_left [p, q] others
            have hp := hmem p List.mem_cons_self
            have hq := hmem q (List.mem_cons_of_mem _ List.mem_cons_self)
            exact (h hsub hp hq).elim

/-- A marked name and a plain one declare nothing in common. -/
theorem not_shares_mark {mark base base' : String} (hmark : IsMark mark) :
    ¬shares (schemaName base ++ "_" ++ mark) (schemaName base') = true := by
  intro h
  have hlength : (mark.toList.drop 4).length = 4 := by
    rw [List.length_drop, hmark.length]
  have hends : Ends (schemaName base ++ "_" ++ mark) (mark.toList.drop 4) :=
    (ends_mark hmark base).of_suffix ((List.drop_suffix 4 _).trans (List.suffix_cons '_' _))
      (Nat.le_of_eq hlength.symm)
  have heq := eq_of_shares hends (ends_schemaName base') hlength h
  have hm : 'm' ∈ mark.toList.drop 4 := by
    rw [heq]
    decide
  exact absurd (hmark.digits _ (List.mem_of_mem_drop hm)) (by decide)

/-! ### When names are assigned -/

/-- The names after the last stage are assigned unless two of them clash. -/
theorem assignNames_eq (digest : String → String) (paths : List DocPath) :
    assignNames digest paths =
      match firstClash? paths (paths.map (marked digest paths)) with
      | some clash => .error clash
      | none => .ok (paths.map (marked digest paths)) := by
  have hstages : refine (fun path name => name ++ "_" ++ digest path.text) paths
      (refine (fun path _ => qualifiedName path) paths (paths.map plainName)) =
        paths.map (marked digest paths) := by
    rw [refine_map, refine_map]
    rfl
  rw [← hstages]
  rfl

/-- Names are assigned when the names after the last stage declare nothing in common, and then they
are those names. -/
theorem assignNames_eq_ok :
    assignNames digest paths = .ok names ↔
      names = paths.map (marked digest paths) ∧
        paths.Pairwise fun p q => List.Disjoint (declared (marked digest paths p))
          (declared (marked digest paths q)) := by
  rw [← firstClash?_map_eq_none, assignNames_eq]
  split
  · next clash h => simp [h]
  · next h =>
    simp only [h, Except.ok.injEq, and_true]
    exact eq_comm

/-- Documents at different places, with different marks, declare different identifiers. -/
theorem disjoint_of_ne_marks (hsub : [p, q].Sublist paths) (hp : IsMark (digest p.text))
    (hq : IsMark (digest q.text)) (hne : digest p.text ≠ digest q.text) :
    List.Disjoint (declared (marked digest paths p)) (declared (marked digest paths q)) := by
  intro ident hidentp hidentq
  have hshares := shares_iff.2 ⟨ident, hidentp, hidentq⟩
  obtain ⟨textp, htextp⟩ := exists_qualified_eq paths p
  obtain ⟨textq, htextq⟩ := exists_qualified_eq paths q
  rcases marked_cases digest paths p with ⟨-, hmarkp⟩ | ⟨hclashp, hmarkp⟩ <;>
    rcases marked_cases digest paths q with ⟨-, hmarkq⟩ | ⟨hclashq, hmarkq⟩ <;>
    rw [hmarkp, hmarkq] at hshares
  · -- two marked names end in their marks
    rw [htextp, htextq] at hshares
    have hends := eq_of_shares (ends_mark hp _) (ends_mark hq _) (by simp [hp.length, hq.length])
      hshares
    exact hne (String.toList_injective (List.cons.inj hends).2)
  · rw [htextp, htextq] at hshares
    exact absurd hshares (not_shares_mark hp)
  · rw [htextp, htextq, shares_comm] at hshares
    exact absurd hshares (not_shares_mark hq)
  · -- two plain names that clash would have been marked
    rw [(clashes_of_sublist hsub hshares).1] at hclashp
    cases hclashp

/-- Names are assigned whenever the marks of the documents are different. -/
theorem exists_assignNames_eq_ok (hmark : ∀ path ∈ paths, IsMark (digest path.text))
    (hnodup : (paths.map fun path => digest path.text).Nodup) :
    ∃ names, assignNames digest paths = .ok names := by
  refine ⟨_, assignNames_eq_ok.2 ⟨rfl, List.pairwise_iff_forall_sublist.2 ?_⟩⟩
  intro p q hsub
  have hp := hmark p (hsub.subset List.mem_cons_self)
  have hq := hmark q (hsub.subset (List.mem_cons_of_mem _ List.mem_cons_self))
  have hne := hnodup.sublist (hsub.map fun path => digest path.text)
  exact disjoint_of_ne_marks hsub hp hq (by simpa using hne)

/-- Names are assigned to different paths only. -/
theorem nodup_of_assignNames (h : assignNames digest paths = .ok names) : paths.Nodup := by
  refine (assignNames_eq_ok.1 h).2.imp ?_
  rintro p q hdisjoint rfl
  exact hdisjoint List.mem_cons_self List.mem_cons_self

/-- **Names are assigned whenever the fingerprints of the paths are different**, whatever function
to eight hexadecimal digits the fingerprint is.  They are never assigned when a path occurs twice,
so no key occurs twice in the registry. -/
theorem assignNames_of_nodup_fingerprints (digest : String → String) (paths : List DocPath)
    (hmark : ∀ path ∈ paths, IsMark (digest path.text)) :
    ((paths.map fun path => digest path.text).Nodup →
      ∃ names, assignNames digest paths = .ok names) ∧
    ∀ names, assignNames digest paths = .ok names →
      paths.Nodup ∧ (paths.map fun path => literal path.text).Nodup := by
  refine ⟨exists_assignNames_eq_ok hmark, ?_⟩
  intro names h
  have hnodup := nodup_of_assignNames h
  have hkeys : Function.Injective fun path : DocPath => literal path.text := by
    intro p q hkey
    exact congrArg DocPath.mk (literal_injective hkey)
  exact ⟨hnodup, hnodup.map hkeys⟩

/-- Two documents of the same name in directories of the same name. -/
theorem assignNames_of_nodup_fingerprints_sameDirectory :
    ∃ names, assignNames fingerprint [⟨"a/x/users.json"⟩, ⟨"b/x/users.json"⟩] = .ok names :=
  (assignNames_of_nodup_fingerprints fingerprint _ fun path _ => isMark_fingerprint path.text).1
    (by decide +kernel)

/-! ### What is exported -/

theorem nodup_flatMap_declared (h : assignNames digest paths = .ok names) :
    (names.flatMap declared).Nodup := by
  obtain ⟨rfl, hpairwise⟩ := assignNames_eq_ok.1 h
  rw [List.flatMap_map, List.nodup_flatMap]
  exact ⟨fun path _ => nodup_declared _, hpairwise⟩

theorem isFormed_of_assignNames (h : assignNames fingerprint paths = .ok names) :
    ∀ name ∈ names, IsFormed name := by
  obtain ⟨rfl, -⟩ := assignNames_eq_ok.1 h
  intro name hname
  obtain ⟨path, -, rfl⟩ := List.mem_map.1 hname
  exact isFormed_marked (isMark_fingerprint path.text)

/-- **What the names of a module declare is never declared twice**, is no fixed name of the module,
and is an identifier of ASCII letters, digits and underscores. -/
theorem exported_of_assignNames (paths : List DocPath) (names : List String)
    (h : assignNames fingerprint paths = .ok names) :
    names.length = paths.length ∧ (names.flatMap declared).Nodup ∧
      ∀ ident ∈ names.flatMap declared, ident ∉ reserved ∧ IsName ident.toList := by
  refine ⟨?_, nodup_flatMap_declared h, ?_⟩
  · rw [(assignNames_eq_ok.1 h).1, List.length_map]
  · intro ident hident
    obtain ⟨name, hname, hmem⟩ := List.mem_flatMap.1 hident
    have hformed := isFormed_of_assignNames h name hname
    exact ⟨notMem_reserved hformed hmem, hformed.isName.of_mem_declared hmem⟩

/-- One document named like the validating function of another, and one with an accented name that
begins with a digit. -/
theorem exported_of_assignNames_threeDocuments :
    (["usersSchema_9eb18d9b", "validateUsersSchema_d3ed2521", "_2024TSchema"].flatMap
      declared).Nodup :=
  (exported_of_assignNames [⟨"users.json"⟩, ⟨"validateUsers.json"⟩, ⟨"2024 été.json"⟩] _
    (by decide +kernel)).2.1

end JsonShelf.Zod
