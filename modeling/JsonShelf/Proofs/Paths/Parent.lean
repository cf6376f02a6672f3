/-
**The path above a path.**

The path above the end of a path is found by text: the last component is cut off, with the slash in
front of it and all pieces there that are no component.  For a path made of names behind a base
these are the names but for the last, and above the first name it is the base, cut short if it ends
in slashes or dots.

Main definitions:

* `Paths.trimmed` — a path without the slashes and dots at its end.

Main results:

* `Paths.parent?_join` — **above a name behind a base is the base**, cut short;
* `Paths.trimmed_join` — a name behind a base is not cut off;
* `Paths.exists_eq_trimmed` — what is cut off.
-/

import JsonShelf.Proofs.Scan.Names

set_option autoImplicit false

namespace JsonShelf.Paths

variable {cs front back : List Char} {base root name : String} {names : List String}
  {ps : List (List Char)}

/-! ### Pieces -/

theorem pieces_append_slash (h : front ≠ []) (back : List Char) :
    pieces (front ++ '/' :: back) = pieces front ++ back.splitOnP (· == '/') := by
  have hlength := (isPrefix_anchor front).length_le
  rw [pieces, anchor_append_slash h, List.drop_append_of_le_length hlength]
  exact List.splitOnP_append_cons _ _ rfl

theorem pieces_slash (back : List Char) : pieces ('/' :: back) = back.splitOnP (· == '/') := rfl

theorem splitOnP_of_isStep (h : IsStep name) :
    name.toList.splitOnP (· == '/') = [name.toList] :=
  splitOnP_of_notMem h.slash_notMem

theorem isIdle_of_isStep (h : IsStep name) : isIdle name.toList = false := by
  refine Bool.eq_false_iff.2 fun hidle => ?_
  rcases isIdle_iff.1 hidle with hnil | hdot
  · exact Scan.toList_ne_nil h hnil
  · exact h.ne_dot (String.toList_injective hdot)

/-- The pieces up to the last one that is a component. -/
def shortened (ps : List (List Char)) : List (List Char) := (ps.reverse.dropWhile isIdle).reverse

theorem shortened_concat (ps : List (List Char)) (piece : List Char) :
    shortened (ps ++ [piece]) = if isIdle piece then shortened ps else ps ++ [piece] := by
  rw [shortened, List.reverse_concat, List.dropWhile_cons]
  split
  · rfl
  · rw [List.reverse_cons, List.reverse_reverse]

theorem exists_eq_shortened (ps : List (List Char)) :
    ∃ rest, ps = shortened ps ++ rest ∧ ∀ piece ∈ rest, isIdle piece = true := by
  refine ⟨(ps.reverse.takeWhile isIdle).reverse, ?_, ?_⟩
  · rw [shortened, ← List.reverse_append, List.takeWhile_append_dropWhile, List.reverse_reverse]
  · intro piece hpiece
    exact List.all_eq_true.1 List.all_takeWhile piece (List.mem_reverse.1 hpiece)

/-! ### Above a name -/

/-- A path without the slashes and dots at its end. -/
def trimmed (cs : List Char) : List Char :=
  anchor cs ++ ['/'].intercalate (shortened (pieces cs))

theorem trimmed_slash : trimmed ['/'] = ['/'] := by decide

theorem trimmed_concat_slash (h : front ≠ []) : trimmed (front ++ ['/']) = trimmed front := by
  have hpieces := pieces_append_slash h []
  have hnil : ([] : List Char).splitOnP (· == '/') = [[]] := rfl
  rw [trimmed, anchor_append_slash h, hpieces, hnil, shortened_concat]
  rfl

/-- A name behind a base is the last piece, and the pieces in front of it are those of the base. -/
theorem exists_pieces_append_slash (hfront : front ≠ []) (h : IsStep name) :
    ∃ ps, pieces (front ++ '/' :: name.toList) = ps ++ [name.toList] ∧
      anchor (front ++ '/' :: name.toList) ++ ['/'].intercalate (shortened ps) = trimmed front := by
  refine ⟨pieces front, ?_, ?_⟩
  · rw [pieces_append_slash hfront, splitOnP_of_isStep h]
  · rw [anchor_append_slash hfront]
    rfl

theorem exists_pieces_join (hbase : base ≠ "") (h : IsStep name) :
    ∃ ps, pieces (join base name).toList = ps ++ [name.toList] ∧
      anchor (join base name).toList ++ ['/'].intercalate (shortened ps) = trimmed base.toList := by
  have hchars : base.toList ≠ [] := fun e => hbase (String.toList_eq_nil_iff.1 e)
  rw [Scan.join_eq base (Scan.isAbsolute_of_isStep h), String.toList_append, Scan.separator]
  split
  · next hend =>
    -- the base ends in a slash, and what is in front of it is cut short alike
    have hslash : base.toList.getLast? = some '/' := by simpa [hbase] using hend
    obtain ⟨front, hfront⟩ := List.getLast?_eq_some_iff.1 hslash
    rw [String.append_empty, hfront, List.append_assoc]
    cases front with
    | nil =>
        refine ⟨[], (pieces_slash name.toList).trans (splitOnP_of_isStep h), ?_⟩
        rw [List.nil_append, List.nil_append, trimmed_slash]
        rfl
    | cons c front =>
        rw [trimmed_concat_slash (List.cons_ne_nil c front)]
        exact exists_pieces_append_slash (List.cons_ne_nil c front) h
  · rw [String.toList_append, List.append_assoc]
    exact exists_pieces_append_slash hchars h

/-- **Above a name behind a base is the base**, cut short. -/
theorem parent?_join (hbase : base ≠ "") (h : IsStep name) :
    parent? (join base name) = some (String.ofList (trimmed base.toList)) := by
  obtain ⟨ps, hpieces, htrimmed⟩ := exists_pieces_join hbase h
  rw [parent?, hpieces, List.reverse_concat, List.dropWhile_cons, isIdle_of_isStep h, ← htrimmed]
  rfl

/-! ### Cutting short -/

theorem intercalate_splitOnP (cs : List Char) :
    ['/'].intercalate (cs.splitOnP (· == '/')) = cs := by
  have hsplit : ['/'].intercalate (cs.splitOn '/') = cs := List.intercalate_splitOn '/'
  rwa [List.splitOn] at hsplit

/-- A path is its anchor and its pieces. -/
theorem anchor_append_pieces (cs : List Char) :
    anchor cs ++ ['/'].intercalate (pieces cs) = cs := by
  obtain ⟨back, hback⟩ := isPrefix_anchor cs
  have hdrop := congrArg (List.drop (anchor cs).length) hback
  rw [List.drop_left] at hdrop
  rw [pieces, intercalate_splitOnP, ← hdrop, hback]

/-- **A name behind a base is not cut off.** -/
theorem trimmed_join (hbase : base ≠ "") (h : IsStep name) :
    trimmed (join base name).toList = (join base name).toList := by
  obtain ⟨ps, hpieces, -⟩ := exists_pieces_join hbase h
  have hself := anchor_append_pieces (join base name).toList
  rw [trimmed, hpieces, shortened_concat, isIdle_of_isStep h]
  rwa [hpieces] at hself

theorem intercalate_append {others : List (List Char)} (hps : ps ≠ []) (hothers : others ≠ []) :
    ['/'].intercalate (ps ++ others) = ['/'].intercalate ps ++ '/' :: ['/'].intercalate others := by
  induction ps with
  | nil => exact absurd rfl hps
  | cons piece rest ih =>
      cases rest with
      | nil =>
          obtain ⟨first, others, rfl⟩ := List.exists_cons_of_ne_nil hothers
          rw [List.singleton_append, List.intercalate_cons_cons, List.intercalate_singleton,
            List.append_assoc]
          rfl
      | cons second rest =>
          rw [List.cons_append, List.cons_append, List.intercalate_cons_cons, ← List.cons_append,
            ih (List.cons_ne_nil second rest), List.intercalate_cons_cons]
          simp only [List.append_assoc]

theorem splitOnP_intercalate (h : ∀ piece ∈ ps, '/' ∉ piece) (hne : ps ≠ []) :
    (['/'].intercalate ps).splitOnP (· == '/') = ps :=
  List.splitOn_intercalate '/' h hne

/-- How a path begins, by its anchor. -/
theorem anchor_cases (cs : List Char) :
    (anchor cs = ['/'] ∧ ∃ rest, cs = '/' :: rest) ∨
      (anchor cs = ['.'] ∧ (cs = ['.'] ∨ ∃ rest, cs = '.' :: '/' :: rest)) ∨ anchor cs = [] := by
  unfold anchor
  split
  · next habsolute => exact .inl ⟨rfl, List.head?_eq_some_iff.1 (beq_iff_eq.1 habsolute)⟩
  · split
    · next hdot => exact .inr (.inl ⟨rfl, eq_of_takeWhile_dot hdot⟩)
    · exact .inr (.inr rfl)

/-- A path that holds no component but an anchor has one. -/
theorem anchor_ne_nil (h : cs ≠ [])
    (hidle : ∀ piece ∈ cs.splitOnP (· == '/'), isIdle piece = true) : anchor cs ≠ [] := by
  -- the first piece is empty or a dot
  have hfirst : ∃ first, isIdle first =
      true ∧ (cs = first ∨ ∃ after, cs = first ++ '/' :: after) := by
    by_cases hslash : '/' ∈ cs
    · obtain ⟨first, after, rfl, hnot⟩ := List.eq_append_cons_of_mem hslash
      refine ⟨first, hidle first ?_, .inr ⟨after, rfl⟩⟩
      rw [List.splitOnP_append_cons first after rfl, splitOnP_of_notMem hnot]
      exact List.mem_cons_self
    · refine ⟨cs, hidle cs ?_, .inl rfl⟩
      rw [splitOnP_of_notMem hslash]
      exact List.mem_cons_self
  obtain ⟨first, hidle, hcs⟩ := hfirst
  rcases isIdle_iff.1 hidle with rfl | rfl
  · rcases hcs with rfl | ⟨after, rfl⟩
    · exact absurd rfl h
    · exact List.cons_ne_nil '/' []
  · rcases hcs with rfl | ⟨after, rfl⟩
    · decide
    · rw [anchor_append_slash (by simp)]
      decide

/-- **What is cut off**: pieces that are no component, and the slash in front of them. -/
theorem exists_eq_trimmed (h : cs ≠ []) : ∃ rest : List Char,
    (∀ piece ∈ rest.splitOnP (· == '/'), isIdle piece = true) ∧
      (cs = trimmed cs ∨ cs = trimmed cs ++ '/' :: rest ∨ trimmed cs = ['/'] ∧
        cs = '/' :: rest) := by
  obtain ⟨cut, hcut, hidle⟩ := exists_eq_shortened (pieces cs)
  have hself := anchor_append_pieces cs
  have hslash : ∀ piece ∈ cut, '/' ∉ piece := by
    intro piece hpiece hmem
    have hmem' : piece ∈ pieces cs := by
      rw [hcut]
      exact List.mem_append_right _ hpiece
    exact absurd (Text.mem_and_not_of_mem_splitOnP hmem' '/' hmem).2 (by decide)
  by_cases hnil : cut = []
  · refine ⟨[], by decide, .inl ?_⟩
    rw [hnil, List.append_nil] at hcut
    rw [trimmed, ← hcut, hself]
  · have hrest : ∀ piece ∈ (['/'].intercalate cut).splitOnP (· == '/'), isIdle piece = true := by
      rwa [splitOnP_intercalate hslash hnil]
    by_cases hshort : shortened (pieces cs) = []
    · -- nothing is left but the anchor
      rw [hshort, List.nil_append] at hcut
      have htrimmed : trimmed cs = anchor cs := by
        rw [trimmed, hshort]
        exact List.append_nil _
      rw [htrimmed]
      rw [hcut] at hself
      rcases anchor_cases cs with ⟨hanchor, -⟩ | ⟨hanchor, rfl | ⟨rest, rfl⟩⟩ | hanchor
      · refine ⟨_, hrest, .inr (.inr ⟨hanchor, ?_⟩)⟩
        rw [← hself, hanchor]
        rfl
      · exact ⟨[], by decide, .inl rfl⟩
      · refine ⟨rest, ?_, .inr (.inl (by rw [hanchor]; rfl))⟩
        intro piece hpiece
        refine hidle piece ?_
        rw [← hcut, pieces, hanchor]
        exact List.mem_cons_of_mem [] hpiece
      · refine absurd hanchor (anchor_ne_nil h ?_)
        rwa [← hself, hanchor]
    · refine ⟨_, hrest, .inr (.inl ?_)⟩
      rw [hcut, intercalate_append hshort hnil, ← List.append_assoc] at hself
      exact hself.symm

/-- What is left when a path is cut short is the start of the path, and more than nothing. -/
theorem isPrefix_trimmed (h : cs ≠ []) : trimmed cs <+: cs ∧ trimmed cs ≠ [] := by
  obtain ⟨rest, -, hcut⟩ := exists_eq_trimmed h
  rcases hcut with hself | hslash | ⟨hroot, hslash⟩
  · rw [← hself]
    exact ⟨List.prefix_refl cs, h⟩
  · refine ⟨⟨'/' :: rest, hslash.symm⟩, fun hnil => ?_⟩
    rw [hnil, List.nil_append] at hslash
    subst hslash
    cases hnil
  · rw [hroot, hslash]
    exact ⟨⟨rest, rfl⟩, List.cons_ne_nil _ _⟩

end JsonShelf.Paths
