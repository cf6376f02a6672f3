/-
**The lines of a text that is put together.**

Main definitions:

* `Text.pieces` — what stands between the line feeds of a text;
* `Text.Complete` — texts in which every line has its end;
* `Text.Indented` — texts whose lines after the first begin with a blank or a closing brace.

Main results:

* `Text.mem_and_not_of_mem_splitOnP` — a piece holds what the list holds, but nothing it was split
  at;
* `Text.splitOnP_or` — splitting at elements of two kinds is splitting at one and then at the other;
* `Text.pieces_append` — what is put in front of a text goes to its first line;
* `Text.lines_lined_append` — **the lines after complete lines are those of the rest**;
* `Text.lines_lined_append_of_notMem` — complete lines are lines of the text;
* `Text.head?_of_mem_pieces_tail` — how the lines of an indented text begin.
-/

import JsonShelf.Text.Layout
import Mathlib.Data.List.Basic

set_option autoImplicit false

namespace JsonShelf.Text

variable {cs front back : List Char} {s t : String} {ls : List String}

/-! ### Pieces -/

/-- A piece holds elements of the list only, and none that the list was split at. -/
theorem mem_and_not_of_mem_splitOnP {α : Type} {p : α → Bool} {xs piece : List α}
    (h : piece ∈ xs.splitOnP p) : ∀ x ∈ piece, x ∈ xs ∧ p x = false := by
  induction xs generalizing piece with
  | nil =>
      rw [List.splitOnP_nil, List.mem_singleton] at h
      subst h
      exact nofun
  | cons x rest ih =>
      have hlater : ∀ {piece}, piece ∈ rest.splitOnP p →
          ∀ y ∈ piece, y ∈ x :: rest ∧ p y = false := by
        intro piece hpiece y hy
        exact ⟨List.mem_cons_of_mem x (ih hpiece y hy).1, (ih hpiece y hy).2⟩
      rw [List.splitOnP_cons_eq_if_modifyHead] at h
      split at h
      · rcases List.mem_cons.1 h with rfl | h
        · exact nofun
        · exact hlater h
      · next hx =>
        obtain ⟨first, others, hsplit⟩ := List.exists_cons_of_ne_nil (List.splitOnP_ne_nil p rest)
        rw [hsplit] at hlater h
        rcases List.mem_cons.1 h with rfl | h
        · exact List.forall_mem_cons.2
            ⟨⟨List.mem_cons_self, Bool.not_eq_true _ ▸ hx⟩, hlater List.mem_cons_self⟩
        · exact hlater (List.mem_cons_of_mem _ h)

/-- Splitting at elements of two kinds is splitting at those of one, and then each piece at those of
the other. -/
theorem splitOnP_or {α : Type} (p q : α → Bool) (xs : List α) :
    xs.splitOnP (fun x => p x || q x) = (xs.splitOnP p).flatMap (·.splitOnP q) := by
  induction xs with
  | nil => rfl
  | cons x rest ih =>
      obtain ⟨first, others, hsplit⟩ := List.exists_cons_of_ne_nil (List.splitOnP_ne_nil p rest)
      obtain ⟨piece, pieces, hpiece⟩ := List.exists_cons_of_ne_nil (List.splitOnP_ne_nil q first)
      simp only [List.splitOnP_cons_eq_if_modifyHead, ih, hsplit]
      cases hp : p x with
      | true => rfl
      | false =>
          simp only [Bool.false_or, Bool.false_eq_true, if_false, List.modifyHead_cons,
            List.flatMap_cons, List.splitOnP_cons_eq_if_modifyHead, hpiece]
          cases q x <;> rfl

/-- A piece without elements of a second kind is a piece at elements of both kinds. -/
theorem mem_splitOnP_or {α : Type} {p q : α → Bool} {xs piece : List α}
    (h : piece ∈ xs.splitOnP p) (hq : ∀ x ∈ piece, q x = false) :
    piece ∈ xs.splitOnP fun x => p x || q x := by
  rw [splitOnP_or]
  refine List.mem_flatMap.2 ⟨piece, h, ?_⟩
  rw [List.splitOnP_eq_singleton hq]
  exact List.mem_singleton_self piece

/-- What stands between the line feeds of a text. -/
def pieces (cs : List Char) : List (List Char) :=
  cs.splitOnP (· == '\n')

theorem pieces_ne_nil (cs : List Char) : pieces cs ≠ [] :=
  List.splitOnP_ne_nil _ cs

theorem pieces_of_notMem (h : '\n' ∉ cs) : pieces cs = [cs] := by
  refine List.splitOnP_eq_singleton ?_
  intro c hc
  simpa using ne_of_mem_of_not_mem hc h

theorem pieces_append_newline (front back : List Char) :
    pieces (front ++ '\n' :: back) = pieces front ++ pieces back :=
  List.splitOnP_append_cons front back rfl

/-- What is put in front of a text goes to its first line. -/
theorem pieces_append (h : '\n' ∉ front) (back : List Char) :
    pieces (front ++ back) = (pieces back).modifyHead (front ++ ·) := by
  induction front with
  | nil => exact (congrFun List.modifyHead_id (pieces back)).symm
  | cons c front ih =>
      rw [List.mem_cons, not_or] at h
      have hc : (c == '\n') = false := by simpa using Ne.symm h.1
      rw [List.cons_append, pieces, List.splitOnP_cons_eq_if_modifyHead, hc, ← pieces, ih h.2]
      cases pieces back <;> rfl

/-! ### Complete lines -/

/-- Every line of the text has its end. -/
def Complete (s : String) : Prop := ∃ ls, s = lined ls

theorem toList_lined_cons (s : String) (ls : List String) :
    (lined (s :: ls)).toList = s.toList ++ '\n' :: (lined ls).toList := by
  simp [lined, String.join_cons]

theorem lined_append (ls ls' : List String) : lined (ls ++ ls') = lined ls ++ lined ls' := by
  simp [lined]

theorem complete_lined (ls : List String) : Complete (lined ls) := ⟨ls, rfl⟩

theorem complete_empty : Complete "" := ⟨[], rfl⟩

theorem Complete.append (hs : Complete s) (ht : Complete t) : Complete (s ++ t) := by
  obtain ⟨ls, rfl⟩ := hs
  obtain ⟨ls', rfl⟩ := ht
  exact ⟨ls ++ ls', (lined_append ls ls').symm⟩

theorem pieces_lined_append (ls : List String) (back : List Char) :
    pieces ((lined ls).toList ++ back) = ls.flatMap (pieces ·.toList) ++ pieces back := by
  induction ls with
  | nil => rfl
  | cons s ls ih =>
      rw [toList_lined_cons, List.append_assoc, List.cons_append, pieces_append_newline, ih,
        List.flatMap_cons, List.append_assoc]

/-- The pieces are the lines, apart from the carriage returns and from an empty last one. -/
theorem lines_of_pieces {ended : List (List Char)} {last : List Char}
    (h : pieces s.toList = ended ++ [last]) :
    lines s = (ended.map withoutReturn ++ if last = [] then [] else [last]).map String.ofList := by
  have hsplit : s.toList.splitOnP (· == '\n') = ended ++ [last] := h
  cases last <;> simp [lines, hsplit]

/-- **The lines after complete lines are those of the rest.** -/
theorem lines_lined_append (ls : List String) (t : String) :
    lines (lined ls ++ t) =
      (ls.flatMap (pieces ·.toList)).map (String.ofList ∘ withoutReturn) ++ lines t := by
  obtain ⟨ended, last, ht⟩ := (List.eq_nil_or_concat (pieces t.toList)).resolve_left
    (pieces_ne_nil t.toList)
  have hall : pieces (lined ls ++ t).toList =
      (ls.flatMap (pieces ·.toList) ++ ended) ++ [last] := by
    rw [String.toList_append, pieces_lined_append, ht, List.append_assoc, List.concat_eq_append]
  rw [lines_of_pieces hall, lines_of_pieces (ht.trans (List.concat_eq_append ..))]
  simp

theorem lines_empty : lines "" = [] := by
  simp [lines]

theorem withoutReturn_of_notMem (h : '\r' ∉ cs) : withoutReturn cs = cs :=
  if_neg fun hlast => h (List.mem_of_getLast? hlast)

/-- Complete lines with no line feed and no carriage return inside are lines of the text. -/
theorem lines_lined_append_of_notMem (h : ∀ s ∈ ls, '\n' ∉ s.toList ∧ '\r' ∉ s.toList)
    (t : String) : lines (lined ls ++ t) = ls ++ lines t := by
  have hline : ∀ s ∈ ls, (pieces s.toList).map (String.ofList ∘ withoutReturn) = [s] := by
    intro s hs
    rw [pieces_of_notMem (h s hs).1, List.map_singleton, Function.comp,
      withoutReturn_of_notMem (h s hs).2, String.ofList_toList]
  rw [lines_lined_append, List.map_flatMap, List.flatMap_congr hline, List.flatMap_singleton']

/-- How a text ends does not depend on what stands before a line feed in it. -/
theorem endsInNewline_append (s t : String) :
    endsInNewline (s ++ "\n" ++ t) = (('\n' :: t.toList).getLast? == some '\n') := by
  have hchars : (s ++ "\n" ++ t).toList = s.toList ++ '\n' :: t.toList := by
    rw [String.append_assoc, String.toList_append, String.toList_append]
    rfl
  rw [endsInNewline, hchars, List.getLast?_append_cons]

/-! ### Indented lines -/

/-- Every line but the first begins with a blank or a closing brace. -/
def Indented (cs : List Char) : Prop :=
  ∀ front back, cs = front ++ '\n' :: back →
    ∃ c rest, back = c :: rest ∧ (c = ' ' ∨ c = '\x7d')

theorem indented_of_notMem (h : '\n' ∉ cs) : Indented cs := by
  rintro front back rfl
  simp at h

theorem Indented.append (hfront : Indented front) (hback : Indented back) :
    Indented (front ++ back) := by
  intro before after h
  rcases List.append_eq_append_iff.1 h with ⟨middle, -, hmiddle⟩ | ⟨middle, rfl, hmiddle⟩
  · exact hback middle after hmiddle
  · cases middle with
    | nil => exact hback [] after hmiddle.symm
    | cons c middle =>
        -- the line feed is in front, and so is what begins the line after it
        obtain ⟨rfl, rfl⟩ := List.cons.inj hmiddle
        obtain ⟨c, rest, rfl, hc⟩ := hfront before middle rfl
        exact ⟨c, rest ++ back, rfl, hc⟩

/-- A line feed may be put before a blank and before a closing brace. -/
theorem Indented.newline {c : Char} (hc : c = ' ' ∨ c = '\x7d') (h : Indented (c :: cs)) :
    Indented ('\n' :: c :: cs) := by
  intro front back heq
  cases front with
  | nil => exact ⟨c, cs, (List.cons.inj heq).2.symm, hc⟩
  | cons d front => exact h front back (List.cons.inj heq).2

theorem indented_flatMap {α : Type} {text : α → List Char} {xs : List α}
    (h : ∀ x ∈ xs, Indented (text x)) : Indented (xs.flatMap text) := by
  induction xs with
  | nil => exact indented_of_notMem List.not_mem_nil
  | cons x xs ih =>
      obtain ⟨hx, hxs⟩ := List.forall_mem_cons.1 h
      exact hx.append (ih hxs)

theorem indented_cons {c : Char} (hc : c ≠ '\n') (h : Indented cs) : Indented (c :: cs) := by
  have hfirst : Indented [c] := indented_of_notMem (by simpa using hc.symm)
  exact hfirst.append h

/-- How the lines of an indented text after the first begin. -/
theorem head?_of_mem_pieces_tail (h : Indented cs) {piece : List Char}
    (hpiece : piece ∈ (pieces cs).tail) : piece.head? = some ' ' ∨ piece.head? = some '\x7d' := by
  induction hn : cs.length using Nat.strongRecOn generalizing cs with
  | ind n ih =>
      by_cases hmem : '\n' ∈ cs
      · obtain ⟨front, back, rfl, hfront⟩ := List.eq_append_cons_of_mem hmem
        obtain ⟨c, rest, rfl, hc⟩ := h front back rfl
        have hback : Indented (c :: rest) := by
          rintro before after heq
          exact h (front ++ '\n' :: before) after (by simp [heq])
        have hfirst : '\n' ∉ [c] := by
          rcases hc with rfl | rfl <;> decide
        have hsplit : pieces (c :: rest) = (pieces rest).modifyHead ([c] ++ ·) :=
          pieces_append hfirst rest
        rw [pieces_append_newline, pieces_of_notMem hfront, List.singleton_append, List.tail_cons]
          at hpiece
        obtain ⟨first, others, hrest⟩ := List.exists_cons_of_ne_nil (pieces_ne_nil rest)
        rw [hrest, List.modifyHead_cons] at hsplit
        rw [hsplit] at hpiece
        rcases List.mem_cons.1 hpiece with rfl | hpiece
        · rcases hc with rfl | rfl
          · exact .inl rfl
          · exact .inr rfl
        · refine ih _ ?_ hback (by rwa [hsplit]) rfl
          simp only [← hn, List.length_append, List.length_cons]
          omega
      · rw [pieces_of_notMem hmem] at hpiece
        cases hpiece

end JsonShelf.Text
