/-
**What the lines of a generated module declare.**

The declarations of a module are read off its lines: a line that begins with one of the words for an
export declares the identifier after it.  So a line in which user data stand behind something else
declares nothing by itself, and what it declares further on depends on the line feeds in the data.

Main definitions:

* `Zod.declarations` — the identifiers that the lines of a text declare;
* `Zod.continued` — what the lines of a text after its first one declare;
* `Zod.Silent` — lines that declare nothing.

Main results:

* `Zod.declarations_append` — **declarations are found part by part**;
* `Zod.continued_of_indented` — indented lines declare nothing;
* `Zod.declarationsIn_declaring` — a declaring line declares its name;
* `Zod.declarations_between` — between silent lines, one line tells what is declared.
-/

import JsonShelf.Proofs.Text.Lines
import JsonShelf.Proofs.Zod.NameForms
import JsonShelf.Zod.Literal
import Mathlib.Data.List.Find

set_option autoImplicit false

namespace JsonShelf.Zod

open Text (Complete Indented lined pieces)

variable {cs front back line : List Char} {s t name : String} {ls : List String}

/-! ### Reading declarations -/

/-- The words that begin a declaration. -/
def keywords : List (List Char) :=
  ["export const ".toList, "export function ".toList, "export type ".toList]

/-- The identifier that a line declares. -/
def declaration? (line : List Char) : Option String :=
  (keywords.find? fun keyword => keyword.isPrefixOf line).map fun keyword =>
    String.ofList ((line.drop keyword.length).takeWhile continuesIdentifier)

/-- The identifiers that the lines of a text declare, in order. -/
def declarations (text : String) : List String :=
  (Text.lines text).filterMap fun line => declaration? line.toList

/-- What the pieces of a text declare. -/
def declarationsIn (cs : List Char) : List String :=
  (pieces cs).filterMap declaration?

/-- What the pieces of a text after the first one declare. -/
def continued (cs : List Char) : List String :=
  (pieces cs).tail.filterMap declaration?

theorem takeWhile_concat {p : Char → Bool} {c : Char} (hc : p c = false) (cs : List Char) :
    (cs ++ [c]).takeWhile p = cs.takeWhile p := by
  induction cs with
  | nil => simp [hc]
  | cons d cs ih => simp only [List.cons_append, List.takeWhile_cons, ih]

/-- A carriage return at the end makes no difference. -/
theorem declaration?_withoutReturn (line : List Char) :
    declaration? (Text.withoutReturn line) = declaration? line := by
  unfold Text.withoutReturn
  split
  · next hlast =>
    obtain ⟨front, rfl⟩ := List.getLast?_eq_some_iff.1 hlast
    have hprefix : ∀ keyword ∈ keywords,
        keyword.isPrefixOf (front ++ ['\r']) = keyword.isPrefixOf front := by
      intro keyword hkeyword
      have hne : keyword ≠ front ++ ['\r'] := by
        have hall : ∀ keyword ∈ keywords, '\r' ∉ keyword := by decide
        rintro rfl
        exact hall _ hkeyword (by simp)
      rw [Bool.eq_iff_iff, List.isPrefixOf_iff_prefix, List.isPrefixOf_iff_prefix,
        List.prefix_concat_iff, or_iff_right hne]
    have hfind : keywords.find? (fun keyword => keyword.isPrefixOf (front ++ ['\r'])) =
        keywords.find? fun keyword => keyword.isPrefixOf front :=
      List.find?_congr hprefix
    rw [List.dropLast_concat, declaration?, declaration?, hfind]
    cases hkeyword : keywords.find? fun keyword => keyword.isPrefixOf front with
    | none => rfl
    | some keyword =>
        have hfound := List.find?_some hkeyword
        obtain ⟨rest, rfl⟩ := List.isPrefixOf_iff_prefix.1 hfound
        rw [Option.map_some, Option.map_some, List.append_assoc, List.drop_left, List.drop_left,
          takeWhile_concat rfl]
  · rfl

theorem declarations_empty : declarations "" = [] := by
  rw [declarations, Text.lines_empty]
  rfl

theorem declarations_lined_append (ls : List String) (t : String) :
    declarations (lined ls ++ t) = ls.flatMap (declarationsIn ·.toList) ++ declarations t := by
  rw [declarations, Text.lines_lined_append, List.filterMap_append, List.filterMap_map,
    List.filterMap_flatMap]
  have hpiece : (fun line : String => declaration? line.toList) ∘
      (String.ofList ∘ Text.withoutReturn) = declaration? := by
    funext piece
    simp only [Function.comp, String.toList_ofList, declaration?_withoutReturn]
  rw [hpiece]
  rfl

theorem declarations_lined (ls : List String) :
    declarations (lined ls) = ls.flatMap (declarationsIn ·.toList) := by
  have h := declarations_lined_append ls ""
  rwa [String.append_empty, declarations_empty, List.append_nil] at h

/-- Declarations are found part by part. -/
theorem declarations_append (hs : Complete s) (t : String) :
    declarations (s ++ t) = declarations s ++ declarations t := by
  obtain ⟨ls, rfl⟩ := hs
  rw [declarations_lined_append, declarations_lined]

theorem complete_join {parts : List String} (h : ∀ s ∈ parts, Complete s) :
    Complete (String.join parts) := by
  induction parts with
  | nil => exact Text.complete_empty
  | cons s parts ih =>
      obtain ⟨hs, hparts⟩ := List.forall_mem_cons.1 h
      rw [String.join_cons]
      exact hs.append (ih hparts)

theorem declarations_join {parts : List String} (h : ∀ s ∈ parts, Complete s) :
    declarations (String.join parts) = parts.flatMap declarations := by
  induction parts with
  | nil => exact declarations_empty
  | cons s parts ih =>
      obtain ⟨hs, hparts⟩ := List.forall_mem_cons.1 h
      rw [String.join_cons, declarations_append hs, ih hparts, List.flatMap_cons]

/-! ### Single lines -/

theorem declaration?_eq_none (h : line.head? ≠ some 'e') : declaration? line = none := by
  cases line with
  | nil => rfl
  | cons c rest =>
      have hc : 'e' ≠ c := by
        rintro rfl
        exact h rfl
      simp [declaration?, keywords, hc]

theorem continued_of_notMem (h : '\n' ∉ cs) : continued cs = [] := by
  rw [continued, Text.pieces_of_notMem h]
  rfl

/-- Indented lines declare nothing. -/
theorem continued_of_indented (h : Indented cs) : continued cs = [] := by
  rw [continued, List.filterMap_eq_nil_iff]
  intro piece hpiece
  refine declaration?_eq_none ?_
  rcases Text.head?_of_mem_pieces_tail h hpiece with hhead | hhead <;> rw [hhead] <;> decide

theorem declarationsIn_eq_continued (cs : List Char) :
    declarationsIn cs = continued ('\n' :: cs) := by
  have hpieces : pieces ('\n' :: cs) = [] :: pieces cs := Text.pieces_append_newline [] cs
  rw [continued, hpieces]
  rfl

/-- What stands in front goes to the first line. -/
theorem declarationsIn_append (h : '\n' ∉ front) (back : List Char) :
    ∃ first, declarationsIn (front ++ back) =
      (declaration? (front ++ first)).toList ++ continued back := by
  obtain ⟨first, rest, hpieces⟩ := List.exists_cons_of_ne_nil (Text.pieces_ne_nil back)
  refine ⟨first, ?_⟩
  rw [declarationsIn, Text.pieces_append h, continued, hpieces, List.modifyHead_cons,
    List.filterMap_cons]
  cases declaration? (front ++ first) <;> rfl

/-- A text that begins with another character than the words for an export declares what its further
lines do. -/
theorem declarationsIn_of_head {c : Char} (hc : c ≠ 'e') (h : '\n' ∉ c :: front)
    (back : List Char) : declarationsIn (c :: front ++ back) = continued back := by
  obtain ⟨first, hfirst⟩ := declarationsIn_append h back
  rw [hfirst, declaration?_eq_none (by simpa using hc)]
  rfl

theorem declaration?_of_keyword {keyword : List Char} {stop : Char} (hkeyword : keyword ∈ keywords)
    (hname : ∀ c ∈ name.toList, continuesIdentifier c = true)
    (hstop : continuesIdentifier stop = false) (rest : List Char) :
    declaration? (keyword ++ (name.toList ++ stop :: rest)) = some name := by
  have hfind : keywords.find? (fun other => other.isPrefixOf
      (keyword ++ (name.toList ++ stop :: rest))) = some keyword := by
    simp only [keywords, List.mem_cons, List.not_mem_nil, or_false] at hkeyword
    rcases hkeyword with rfl | rfl | rfl <;> rfl
  rw [declaration?, hfind, Option.map_some, List.drop_left, List.takeWhile_append_of_pos hname]
  simp [hstop]

/-- A declaration declares its identifier, and what its further lines do. -/
theorem declarationsIn_of_keyword {keyword : List Char} {stop : Char}
    (hkeyword : keyword ∈ keywords)
    (hname : ∀ c ∈ name.toList, continuesIdentifier c = true)
    (hstop : continuesIdentifier stop = false) (hline : stop ≠ '\n') (back : List Char) :
    declarationsIn (keyword ++ (name.toList ++ stop :: back)) = name :: continued back := by
  have hnewline : '\n' ∉ keyword ++ (name.toList ++ [stop]) := by
    have hall : ∀ keyword ∈ keywords, '\n' ∉ keyword := by decide
    have hmem : '\n' ∉ name.toList := fun h => absurd (hname _ h) (by decide)
    simp [hall keyword hkeyword, hmem, Ne.symm hline]
  obtain ⟨first, hfirst⟩ := declarationsIn_append hnewline back
  simp only [List.append_assoc, List.cons_append, List.nil_append] at hfirst
  rw [hfirst, declaration?_of_keyword hkeyword hname hstop]
  rfl

theorem IsName.continues (h : IsName cs) : ∀ c ∈ cs, continuesIdentifier c = true := by
  intro c hc
  rcases h.chars c hc with halnum | rfl
  · rw [continuesIdentifier, halnum]
    rfl
  · rfl

theorem IsName.newline_notMem (h : IsName cs) : '\n' ∉ cs :=
  fun hmem => absurd (h.continues _ hmem) (by decide)

/-! ### Silent lines -/

/-- The line has no line feed inside and does not begin like a word for an export. -/
def Silent (line : List Char) : Prop :=
  '\n' ∉ line ∧ line.head? ≠ some 'e'

instance : DecidablePred Silent := fun line =>
  inferInstanceAs (Decidable ('\n' ∉ line ∧ line.head? ≠ some 'e'))

-- A string literal is the string of its characters, so that no text has to be decoded.
theorem silent_ofList (h : Silent cs) : Silent (String.ofList cs).toList := by
  rwa [String.toList_ofList]

/-- Lines of fixed texts are silent if their characters are. -/
theorem silent_lines (css : List (List Char)) (h : ∀ cs ∈ css, Silent cs) :
    ∀ line ∈ css.map String.ofList, Silent line.toList := by
  rw [List.forall_mem_map]
  intro cs hcs
  exact silent_ofList (h cs hcs)

/-- What goes on without a line feed stays silent. -/
theorem silent_ofList_append {c : Char} (h : Silent (c :: cs)) (ht : '\n' ∉ t.toList) :
    Silent (String.ofList (c :: cs) ++ t).toList := by
  obtain ⟨hnewline, hhead⟩ := h
  rw [String.toList_append, String.toList_ofList]
  refine ⟨?_, hhead⟩
  rw [List.mem_append]
  exact not_or.2 ⟨hnewline, ht⟩

theorem silent_around {c : Char} (h : Silent (c :: cs)) (ht : '\n' ∉ t.toList)
    (hback : '\n' ∉ back) : Silent (String.ofList (c :: cs) ++ t ++ String.ofList back).toList := by
  rw [String.append_assoc]
  refine silent_ofList_append h ?_
  rw [String.toList_append, String.toList_ofList, List.mem_append]
  exact not_or.2 ⟨ht, hback⟩

theorem declarationsIn_of_silent (h : Silent line) : declarationsIn line = [] := by
  rw [declarationsIn, Text.pieces_of_notMem h.1, List.filterMap_cons, declaration?_eq_none h.2]
  rfl

/-- Silent lines declare nothing. -/
theorem flatMap_declarationsIn_eq_nil (h : ∀ line ∈ ls, Silent line.toList) :
    ls.flatMap (declarationsIn ·.toList) = [] := by
  rw [List.flatMap_eq_nil_iff]
  intro line hline
  exact declarationsIn_of_silent (h line hline)

theorem declarations_of_silent (h : ∀ line ∈ ls, Silent line.toList) :
    declarations (lined ls) = [] := by
  rw [declarations_lined, flatMap_declarationsIn_eq_nil h]

/-- Between silent lines, one line tells what is declared. -/
theorem declarations_between (front : List String) {line : String} (back : List String)
    (hfront : ∀ line ∈ front, Silent line.toList) (hback : ∀ line ∈ back, Silent line.toList) :
    declarations (lined (front ++ line :: back)) = declarationsIn line.toList := by
  rw [declarations_lined, List.flatMap_append, List.flatMap_cons,
    flatMap_declarationsIn_eq_nil hfront, flatMap_declarationsIn_eq_nil hback, List.nil_append,
    List.append_nil]

/-! ### Declaring lines -/

/-- The line declares its name when what follows declares nothing. -/
theorem declarationsIn_declaring {keyword : String} {stop : Char}
    (hkeyword : keyword.toList ∈ keywords) (hname : IsName name.toList)
    (hstop : continuesIdentifier stop = false) (hline : stop ≠ '\n')
    (h : continued (front ++ t.toList) = []) :
    declarationsIn (keyword ++ name ++ String.ofList (stop :: front) ++ t).toList = [name] := by
  have hchars : (keyword ++ name ++ String.ofList (stop :: front) ++ t).toList =
      keyword.toList ++ (name.toList ++ stop :: (front ++ t.toList)) := by
    simp only [String.toList_append, String.toList_ofList, List.append_assoc, List.cons_append]
  rw [hchars, declarationsIn_of_keyword hkeyword hname.continues hstop hline, h]

theorem declarationsIn_oneLine {keyword other : String} {stop : Char}
    (hkeyword : keyword.toList ∈ keywords) (hname : IsName name.toList)
    (hstop : continuesIdentifier stop = false) (hfront : '\n' ∉ stop :: front)
    (hother : '\n' ∉ other.toList) (hback : '\n' ∉ back) :
    declarationsIn (keyword ++ name ++ String.ofList (stop :: front) ++ other ++
      String.ofList back).toList = [name] := by
  rw [List.mem_cons, not_or] at hfront
  rw [String.append_assoc]
  refine declarationsIn_declaring hkeyword hname hstop (Ne.symm hfront.1) (continued_of_notMem ?_)
  rw [String.toList_append, String.toList_ofList, List.mem_append, List.mem_append]
  exact not_or.2 ⟨hfront.2, not_or.2 ⟨hother, hback⟩⟩

end JsonShelf.Zod
