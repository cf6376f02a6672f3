/-
**Paths as arguments.**

A document is named on the command line by the text of its path.  Blanks around an argument do not
count and an extension may be left out, so the question is which paths mean themselves.  The path of
a document ends in its extension, up to slashes and dots that count for nothing, so there is no
blank at its end and nothing to be appended; but a blank at the start is lost, and then the argument
means another document.

Main definitions:

* `DocPath.beginsBlank` — the path begins with a blank.

Main results:

* `Paths.extension?_eq` — the extension depends on the last step only;
* `Paths.getLast?_of_steps` — how a path ends;
* `DocPath.ofString_text` — a path names itself;
* `DocPath.ofArgument_eq_self_iff` — **the path of a document means itself as an argument exactly
  when it does not begin with a blank**.
-/

import JsonShelf.Proofs.Paths.Containment

set_option autoImplicit false

namespace JsonShelf

namespace Paths

variable {cs front back piece blanks : List Char} {path name : String}

/-! ### Extensions -/

/-- The name in a step, unless it leads up. -/
def nameOf (piece : List Char) : Option String := (componentOf piece).name?

/-- The name at the end of a path is that of its last step. -/
theorem fileName?_eq (path : String) :
    fileName? path = (steps path.toList).getLast?.bind nameOf := by
  rw [fileName?, components_eq_append]
  cases hsteps : steps path.toList with
  | nil =>
      unfold anchorComponent
      split <;> rfl
  | cons piece rest =>
      rw [List.getLast?_append_of_ne_nil _ (by simp), List.getLast?_map, Option.bind_map]
      rfl

/-- The extension depends on the last step only. -/
theorem extension?_eq (path : String) :
    extension? path =
      ((steps path.toList).getLast?.bind nameOf).bind fun name => (cutAtPoint name).2 := by
  rw [extension?, fileName?_eq]

theorem nameOf_eq_some (h : nameOf piece = some name) : piece = name.toList := by
  unfold nameOf componentOf at h
  split at h
  · cases h
  · cases h
    exact String.toList_ofList.symm

/-- A stem, a point and an extension without points are cut at that point. -/
theorem cutAtPoint_append {stem extension : List Char} (hstem : stem ≠ [])
    (hextension : '.' ∉ extension) :
    (cutAtPoint (String.ofList (stem ++ '.' :: extension))).2 = some (String.ofList extension) := by
  have hnone : ∀ c ∈ extension.reverse, (c != '.') = true := by
    intro c hc
    simpa using ne_of_mem_of_not_mem (List.mem_reverse.1 hc) hextension
  have hreverse : (stem ++ '.' :: extension).reverse =
      extension.reverse ++ '.' :: stem.reverse := by
    simp
  obtain ⟨c, before, hbefore⟩ := List.exists_cons_of_ne_nil (List.reverse_ne_nil_iff.2 hstem)
  unfold cutAtPoint
  rw [String.toList_ofList, hreverse, List.span_eq_takeWhile_dropWhile,
    List.takeWhile_append_of_pos hnone, List.dropWhile_append_of_pos hnone, hbefore]
  simp

/-! ### The end of a path -/

theorem exists_last_slash (h : '/' ∈ cs) :
    ∃ front back, cs = front ++ '/' :: back ∧ '/' ∉ back := by
  obtain ⟨back, front, hsplit, hback⟩ := List.eq_append_cons_of_mem (List.mem_reverse.2 h)
  refine ⟨front.reverse, back.reverse, ?_, fun hmem => hback (List.mem_reverse.1 hmem)⟩
  rw [← List.reverse_inj, hsplit]
  simp

theorem steps_of_notMem (h : '/' ∉ cs) : steps cs = if isIdle cs then [] else [cs] := by
  rw [steps, splitOnP_of_notMem h]
  cases hidle : isIdle cs <;> simp [hidle]

theorem isIdle_iff : isIdle cs = true ↔ cs = [] ∨ cs = ['.'] := by
  simp [isIdle]

/-- A path that has steps ends as the last of them does, or in a slash or a dot. -/
theorem getLast?_of_steps (h : (steps cs).getLast? = some piece) :
    cs.getLast? = piece.getLast? ∨ cs.getLast? = some '/' ∨ cs.getLast? = some '.' := by
  by_cases hslash : '/' ∈ cs
  · obtain ⟨front, back, rfl, hback⟩ := exists_last_slash hslash
    rw [steps_append_slash, steps_of_notMem hback] at h
    split at h
    · next hidle =>
      -- what follows the last slash is no step
      rcases isIdle_iff.1 hidle with rfl | rfl
      · exact .inr (.inl (by simp))
      · exact .inr (.inr (by simp))
    · next hidle =>
      obtain rfl : back = piece := by simpa using h
      have hne : back ≠ [] := fun e => hidle (isIdle_iff.2 (.inl e))
      left
      rw [List.getLast?_append_of_ne_nil _ (List.cons_ne_nil _ _), List.getLast?_cons_of_ne_nil hne]
  · rw [steps_of_notMem hslash] at h
    split at h
    · cases h
    · obtain rfl : cs = piece := Option.some.inj h
      exact .inl rfl

/-! ### Blanks in front -/

/-- A name in front of which there are blanks has its extension without them too, unless nothing
else stands before its point. -/
theorem eq_append_of_blanks {stem : List Char} (hblanks : ∀ c ∈ blanks, Text.isBlank c = true)
    (h : blanks ++ piece = stem ++ ".json".toList) :
    (∃ stem', stem' ≠ [] ∧ piece = stem' ++ ".json".toList) ∨ piece = ".json".toList := by
  rcases List.append_eq_append_iff.1 h with ⟨middle, -, hpiece⟩ | ⟨middle, hmiddle, hjson⟩
  · by_cases hnil : middle = []
    · exact .inr (by rw [hpiece, hnil, List.nil_append])
    · exact .inl ⟨middle, hnil, hpiece⟩
  · -- the blanks do not reach into the extension
    have hnil : middle = [] := by
      cases middle with
      | nil => rfl
      | cons c rest =>
          have hc : c = '.' := (List.cons.inj hjson).1.symm
          have hblank := hblanks c (by rw [hmiddle]; simp)
          rw [hc] at hblank
          exact absurd hblank (by decide)
    rw [hnil] at hjson
    exact .inr hjson.symm

/-- A path with blanks in front of it still ends in its extension without them, unless the extension
is all of its first piece. -/
theorem steps_of_blanks {rest stem : List Char} (hblanks : ∀ c ∈ blanks, Text.isBlank c = true)
    (hstem : stem ≠ []) (h : (steps (blanks ++ rest)).getLast? = some (stem ++ ".json".toList)) :
    (∃ stem', stem' ≠ [] ∧ (steps rest).getLast? = some (stem' ++ ".json".toList)) ∨
      ∃ after, rest = ".json".toList ++ after := by
  have hslash : '/' ∉ blanks := fun hmem => absurd (hblanks '/' hmem) (by decide)
  -- the first piece, and what the steps after it are
  obtain ⟨first, others, hrest, hfirst, hsteps⟩ : ∃ first others, first <+: rest ∧ '/' ∉ first ∧
      ∀ front, steps (front ++ rest) = steps (front ++ first) ++ others := by
    by_cases hmem : '/' ∈ rest
    · obtain ⟨first, after, rfl, hfirst⟩ := List.eq_append_cons_of_mem hmem
      refine ⟨first, steps after, List.prefix_append _ _, hfirst, fun front => ?_⟩
      rw [← List.append_assoc, steps_append_slash]
    · exact ⟨rest, [], List.prefix_refl _, hmem, fun front => (List.append_nil _).symm⟩
  have hnotMem : '/' ∉ blanks ++ first := by
    rw [List.mem_append, not_or]
    exact ⟨hslash, hfirst⟩
  by_cases hothers : others = []
  · rw [hsteps, hothers, List.append_nil, steps_of_notMem hnotMem] at h
    split at h
    · cases h
    · rcases eq_append_of_blanks hblanks (Option.some.inj h) with ⟨stem', hstem', hpiece⟩ | hpiece
      · refine .inl ⟨stem', hstem', ?_⟩
        have hidle : isIdle first = false := by
          obtain ⟨c, tail, rfl⟩ := List.exists_cons_of_ne_nil hstem'
          rw [hpiece]
          simp [isIdle]
        have hall := hsteps []
        rw [List.nil_append, List.nil_append, steps_of_notMem hfirst, hidle, hothers] at hall
        rw [hall, hpiece]
        rfl
      · obtain ⟨after, hafter⟩ := hrest
        exact .inr ⟨after, by rw [← hafter, hpiece]⟩
  · rw [hsteps, List.getLast?_append_of_ne_nil _ hothers] at h
    refine .inl ⟨stem, hstem, ?_⟩
    have hall := hsteps []
    rw [List.nil_append, List.nil_append] at hall
    rw [hall, List.getLast?_append_of_ne_nil _ hothers, h]

end Paths

/-! ### Paths that mean themselves -/

namespace DocPath

open Paths

variable {path : DocPath} {s : String} {cs : List Char}

/-- The path begins with a blank. -/
def beginsBlank (path : DocPath) : Bool :=
  path.text.toList.head?.any Text.isBlank

theorem steps_dropDots (cs : List Char) : steps (dropDots cs) = steps cs := by
  induction cs using dropDots.induct with
  | case1 rest ih =>
      rw [dropDots, ih]
      exact (steps_append_slash ['.'] rest).symm
  | case2 cs h => rw [dropDots_of_ne h]

theorem ofString_eq_or (s : String) :
    (ofString s = ⟨"."⟩ ∧ dropDots (s.toList.map forward) = []) ∨
      (ofString s).text.toList = dropDots (s.toList.map forward) := by
  unfold ofString
  split
  · next hnil => exact .inl ⟨rfl, hnil⟩
  · exact .inr String.toList_ofList

/-- A path has the steps of the text that it was read from. -/
theorem steps_ofString (s : String) :
    steps (ofString s).text.toList = steps (s.toList.map forward) := by
  rw [← steps_dropDots (s.toList.map forward)]
  rcases ofString_eq_or s with ⟨hdot, hnil⟩ | htext
  · rw [hdot, hnil]
    rfl
  · rw [htext]

theorem map_forward_of_notMem (h : '\\' ∉ cs) : cs.map forward = cs := by
  have hforward : ∀ c ∈ cs, forward c = id c := fun c hc => if_neg (ne_of_mem_of_not_mem hc h)
  rw [List.map_congr_left hforward, List.map_id]

/-- A text without backslashes and without dots at its start is a path as it stands. -/
theorem ofString_eq_self (hne : s ≠ "") (hbackslash : '\\' ∉ s.toList)
    (hdots : ∀ rest, s.toList ≠ '.' :: '/' :: rest) : ofString s = ⟨s⟩ := by
  have hchars : dropDots (s.toList.map forward) = s.toList := by
    rw [map_forward_of_notMem hbackslash, dropDots_of_ne hdots]
  rcases ofString_eq_or s with ⟨-, hnil⟩ | htext
  · rw [hchars] at hnil
    exact absurd (String.toList_eq_nil_iff.1 hnil) hne
  · rw [hchars] at htext
    exact congrArg DocPath.mk (String.toList_injective htext)

/-- **A path names itself.** -/
theorem ofString_text (s : String) : ofString (ofString s).text = ofString s := by
  rcases ofString_eq_or s with ⟨hdot, -⟩ | htext
  · rw [hdot]
    decide
  · refine ofString_eq_self (ofString_text_ne_empty s) (backslash_notMem_ofString s) ?_
    intro rest
    rw [htext]
    exact dropDots_ne _ rest

theorem hasJsonExtension_iff : path.hasJsonExtension = true ↔ ∃ stem, stem ≠ [] ∧
    (steps path.text.toList).getLast? = some (stem ++ ".json".toList) := by
  rw [hasJsonExtension, beq_iff_eq, extension?_eq]
  constructor
  · intro h
    obtain ⟨name, hname, hcut⟩ := Option.bind_eq_some_iff.1 h
    obtain ⟨piece, hpiece, hname⟩ := Option.bind_eq_some_iff.1 hname
    obtain ⟨stem, hstem, rfl⟩ := exists_stem_of_cutAtPoint hcut
    refine ⟨stem.toList, fun e => hstem (String.toList_eq_nil_iff.1 e), ?_⟩
    rw [hpiece, nameOf_eq_some hname]
    simp
  · rintro ⟨stem, hstem, hlast⟩
    have hname : nameOf (stem ++ ".json".toList) =
        some (String.ofList (stem ++ ".json".toList)) := by
      obtain ⟨c, rest, rfl⟩ := List.exists_cons_of_ne_nil hstem
      refine congrArg Component.name? (if_neg fun hparent => ?_)
      have hlength := congrArg List.length hparent
      simp at hlength
    rw [hlast, Option.bind_some, hname]
    exact cutAtPoint_append hstem (by decide)

/-- There is no blank at the end of the path of a document. -/
theorem not_isBlank_getLast (h : path.hasJsonExtension = true) :
    ∃ c, path.text.toList.getLast? = some c ∧ Text.isBlank c = false := by
  obtain ⟨stem, -, hlast⟩ := hasJsonExtension_iff.1 h
  rcases getLast?_of_steps hlast with hend | hend | hend
  · refine ⟨'n', ?_, by decide⟩
    rw [hend, List.getLast?_append_of_ne_nil _ (by decide)]
    decide
  · exact ⟨'/', hend, by decide⟩
  · exact ⟨'.', hend, by decide⟩

/-- Of the path of a document, blanks are cut at the start only. -/
theorem toList_trim (h : path.hasJsonExtension = true) :
    (Text.trim path.text).toList = path.text.toList.dropWhile Text.isBlank := by
  obtain ⟨c, hlast, hblank⟩ := not_isBlank_getLast h
  obtain ⟨front, hfront⟩ := List.getLast?_eq_some_iff.1 hlast
  have hdrop : path.text.toList.dropWhile Text.isBlank =
      front.dropWhile Text.isBlank ++ [c] := by
    rw [hfront, List.dropWhile_append]
    split
    · next hnil => simp [List.isEmpty_iff.1 hnil, hblank]
    · rfl
  rw [Text.trim, Text.trimEnd, Text.trimStart, String.toList_ofList, String.toList_ofList, hdrop]
  simp [hblank]

theorem beginsBlank_eq_false_iff :
    path.beginsBlank = false ↔ path.text.toList.dropWhile Text.isBlank = path.text.toList := by
  unfold beginsBlank
  cases path.text.toList with
  | nil => simp
  | cons c rest =>
      cases hblank : Text.isBlank c with
      | false => simp [hblank]
      | true =>
          have hlength := (List.dropWhile_suffix (l := rest) Text.isBlank).length_le
          have hne : rest.dropWhile Text.isBlank ≠ c :: rest := by
            intro e
            rw [e, List.length_cons] at hlength
            omega
          simp [hblank, hne]

/-- The text of a path is no longer than the text that it was read from. -/
theorem length_ofString_le (h : (ofString s).text ≠ ".") :
    (ofString s).text.toList.length ≤ s.toList.length := by
  rw [toList_ofString h]
  simpa using (dropDots_suffix (s.toList.map forward)).length_le

/-- An argument with its extension means the path that it spells, without blanks around it. -/
theorem ofArgument_of_hasJsonExtension (h : (ofString (Text.trim s)).hasJsonExtension = true) :
    ofArgument s = ofString (Text.trim s) := by
  rw [ofArgument]
  exact if_pos h

/-- An argument that begins with its extension is a path that begins with a dot. -/
theorem head?_ofArgument {after : List Char} (hbackslash : '\\' ∉ (Text.trim s).toList)
    (h : (Text.trim s).toList = ".json".toList ++ after) :
    (ofArgument s).text.toList.head? = some '.' := by
  have hdots : ∀ back rest, (Text.trim s).toList ++ back ≠ '.' :: '/' :: rest := by
    intro back rest e
    rw [h] at e
    simp at e
  have hself : ofString (Text.trim s) = ⟨Text.trim s⟩ := by
    refine ofString_eq_self ?_ hbackslash fun rest => by simpa using hdots [] rest
    intro e
    rw [e] at h
    simp at h
  unfold ofArgument
  rw [hself]
  dsimp only
  split
  · rw [h]
    rfl
  · rw [ofString_eq_self (by simp) ?_ ?_]
    · rw [String.toList_append, h]
      rfl
    · rw [String.toList_append, List.mem_append, not_or]
      exact ⟨hbackslash, by decide⟩
    · intro rest
      rw [String.toList_append]
      exact hdots _ rest

/-- **The path of a document means itself as an argument exactly when it does not begin with a
blank.** -/
theorem ofArgument_eq_self_iff (h : (ofString s).hasJsonExtension = true) :
    ofArgument (ofString s).text = ofString s ↔ (ofString s).beginsBlank = false := by
  have htrim := toList_trim h
  constructor
  · intro heq
    refine Decidable.byContradiction fun hblank => ?_
    have hcut : (ofString s).text.toList.dropWhile Text.isBlank ≠ (ofString s).text.toList :=
      fun e => hblank (beginsBlank_eq_false_iff.2 e)
    by_cases hext : (ofString (Text.trim (ofString s).text)).hasJsonExtension = true
    · -- the argument means what is left without the blanks, which is shorter
      have hself : ofArgument (ofString s).text = ofString (Text.trim (ofString s).text) :=
        ofArgument_of_hasJsonExtension hext
      have hne : (ofString (Text.trim (ofString s).text)).text ≠ "." := by
        intro hdot
        rw [hasJsonExtension, hdot] at hext
        exact absurd hext (by decide)
      have hlength := length_ofString_le hne
      rw [← hself, heq, htrim] at hlength
      exact hcut ((List.dropWhile_suffix _).eq_of_length_le hlength)
    · -- the extension was all of the first piece, and with it the argument begins
      have hbackslash : '\\' ∉ (Text.trim (ofString s).text).toList := by
        rw [htrim]
        exact fun hmem => backslash_notMem_ofString s ((List.dropWhile_suffix _).subset hmem)
      obtain ⟨stem, hstem, hlast⟩ := hasJsonExtension_iff.1 h
      rw [← List.takeWhile_append_dropWhile (p := Text.isBlank)
        (l := (ofString s).text.toList)] at hlast
      rcases steps_of_blanks (List.all_eq_true.1 List.all_takeWhile) hstem hlast with
        ⟨stem', hstem', hlast'⟩ | ⟨after, hafter⟩
      · refine hext (hasJsonExtension_iff.2 ⟨stem', hstem', ?_⟩)
        rw [steps_ofString, map_forward_of_notMem hbackslash, htrim, hlast']
      · have hhead := head?_ofArgument hbackslash (htrim.trans hafter)
        rw [heq] at hhead
        refine hblank ?_
        rw [beginsBlank, hhead]
        decide
  · intro hblank
    rw [beginsBlank_eq_false_iff, ← htrim] at hblank
    have hself : ofString (Text.trim (ofString s).text) = ofString s := by
      rw [String.toList_injective hblank, ofString_text]
    rw [← hself] at h
    rw [ofArgument_of_hasJsonExtension h, hself]

end DocPath

end JsonShelf
