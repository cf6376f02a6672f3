/-
**A written string reads back.**

Each character of a string is written by itself, escaped or not, and the reader takes it back in
one turn of its loop.

Main results:

* `Json.characters_quoteChar` — one written character is one turn of the reader;
* `Json.readString_quote` — **a written string reads back**.
-/

import JsonShelf.Json.Parser
import JsonShelf.Json.Printer
import Mathlib.Tactic.IntervalCases

set_option autoImplicit false

namespace JsonShelf.Json

/-! ### Escapes of control characters -/

theorem hexDigit?_hexChar {n : ℕ} (h : n < 16) : hexDigit? (hexChar n) = some n := by
  interval_cases n <;> decide

theorem hex4?_of_lt {n : ℕ} (h : n < 0x20) :
    hex4? '0' '0' (hexChar (n / 16)) (hexChar (n % 16)) = some n := by
  have hzero : hexDigit? '0' = some 0 := by decide
  have hhigh := hexDigit?_hexChar (n := n / 16) (by omega)
  have hlow := hexDigit?_hexChar (n := n % 16) (by omega)
  simp only [hex4?, hzero, hhigh, hlow, Option.bind_eq_bind, Option.bind_some]
  show some _ = some _
  congr 1
  omega

theorem unicodeEscape_of_lt {c : Char} (h : c.toNat < 0x20) (rest : List Char) :
    unicodeEscape ('0' :: '0' :: hexChar (c.toNat / 16) :: hexChar (c.toNat % 16) :: rest) =
      .ok (c, rest) := by
  have hunit : codeUnit ('0' :: '0' :: hexChar (c.toNat / 16) :: hexChar (c.toNat % 16) :: rest) =
      .ok (c.toNat, rest) := by
    simp only [codeUnit, hex4?_of_lt h]
  have hnotTrail : ¬0xDC00 ≤ c.toNat := by omega
  have hnoLead : c.toNat < 0xD800 := by omega
  simp [unicodeEscape, hunit, hnotTrail, hnoLead, bind, Except.bind, pure, Except.pure,
    Char.ofNat_toNat]

/-! ### Reading characters -/

/-- One written character is one turn of the reader. -/
theorem characters_quoteChar (c : Char) (bound : ℕ) (read rest : List Char) :
    characters (bound + 1) read (quoteChar c ++ rest) = characters bound (c :: read) rest := by
  unfold quoteChar
  by_cases hquote : c = '"'
  · subst hquote; rfl
  by_cases hbackslash : c = '\\'
  · subst hbackslash; rfl
  by_cases hb : c = '\x08'
  · subst hb; rfl
  by_cases ht : c = '\t'
  · subst ht; rfl
  by_cases hn : c = '\n'
  · subst hn; rfl
  by_cases hf : c = '\x0c'
  · subst hf; rfl
  by_cases hr : c = '\r'
  · subst hr; rfl
  rw [if_neg hquote, if_neg hbackslash, if_neg hb, if_neg ht, if_neg hn, if_neg hf, if_neg hr]
  by_cases hcontrol : c.toNat < 0x20
  · have hescape := unicodeEscape_of_lt hcontrol rest
    rw [if_pos hcontrol]
    show characters (bound + 1) read ('\\' :: 'u' :: '0' :: '0' :: _) = _
    simp [characters, escape, hescape]
  · rw [if_neg hcontrol, List.singleton_append, characters, if_neg hquote, if_neg hbackslash,
      if_neg hcontrol]

theorem characters_flatMap {bound : ℕ} (cs : List Char) (h : cs.length < bound)
    (read rest : List Char) :
    characters bound read (cs.flatMap quoteChar ++ '"' :: rest) =
      .ok (String.ofList (read.reverse ++ cs), rest) := by
  induction cs generalizing bound read with
  | nil =>
      obtain ⟨b, rfl⟩ : ∃ b, bound = b + 1 := ⟨bound - 1, by simp at h; omega⟩
      simp [characters]
  | cons c cs ih =>
      rw [List.length_cons] at h
      obtain ⟨b, rfl⟩ : ∃ b, bound = b + 1 := ⟨bound - 1, by omega⟩
      rw [List.flatMap_cons, List.append_assoc, characters_quoteChar, ih (by omega)]
      simp

theorem length_le_quote (s : String) : s.toList.length + 2 ≤ (quote s).length := by
  have hone : ∀ c : Char, 1 ≤ (quoteChar c).length := by
    intro c
    unfold quoteChar
    repeat' split
    all_goals simp
  have hall : ∀ cs : List Char, cs.length ≤ (cs.flatMap quoteChar).length := by
    intro cs
    induction cs with
    | nil => simp
    | cons c cs ih =>
        have := hone c
        rw [List.flatMap_cons, List.length_append, List.length_cons]
        omega
  have := hall s.toList
  rw [quote, List.cons_append, List.length_cons, List.length_append, List.length_singleton]
  omega

/-- **A written string reads back**, from after its opening quote. -/
theorem readString_quote {bound : ℕ} {s : String} (h : (quote s).length ≤ bound)
    (rest : List Char) :
    ∃ cs, quote s = '"' :: cs ∧ readString bound (cs ++ rest) = .ok (s, rest) := by
  have hlength := length_le_quote s
  refine ⟨s.toList.flatMap quoteChar ++ ['"'], rfl, ?_⟩
  rw [readString, List.append_assoc, List.singleton_append, characters_flatMap _ (by omega),
    List.reverse_nil, List.nil_append, String.ofList_toList]

end JsonShelf.Json
