/-
**The characters of literals and keys.**

The body of a literal is read from the left, one character or one escape at a time.  What an escape
stands for is the character that was written.  A key is a literal or an identifier, and there is no
control character in either.

Main definitions:

* `Zod.hexValue?` — the number that hexadecimal digits write;
* `Zod.unescape?` — the first character that the body of a literal stands for, and what follows.

Main results:

* `Zod.unescape?_escaped` — a written character reads back;
* `Zod.not_isControl_of_mem_literal` — there is no control character in a literal;
* `Zod.key_eq_or` — a key is an identifier or a literal.
-/

import JsonShelf.Json.Parser
import JsonShelf.Zod.Literal
import Mathlib.Data.List.Basic

set_option autoImplicit false

namespace JsonShelf.Zod

variable {c d : Char} {name : String} {cs : List Char}

/-! ### Reading a character -/

/-- The number that hexadecimal digits write. -/
def hexValue? (digits : List Char) : Option Nat :=
  digits.foldlM (fun value c => (Json.hexDigit? c).map (16 * value + ·)) 0

/-- The character that a letter after a backslash stands for. -/
def unescapeLetter? (c : Char) : Option Char :=
  if c = '\\' then some '\\'
  else if c = '\'' then some '\''
  else if c = 'n' then some '\n'
  else if c = 'r' then some '\r'
  else if c = 't' then some '\t'
  else none

/-- The first character that the body of a literal stands for, and what follows it.  A quote, a line
break and an escape that means nothing stand for no character. -/
def unescape? : List Char → Option (Char × List Char)
  | [] => none
  | '\\' :: 'u' :: '\x7b' :: rest =>
    match hexValue? (rest.takeWhile (· != '\x7d')), rest.dropWhile (· != '\x7d') with
    | some value, _ :: rest' => if value.isValidChar then some (Char.ofNat value, rest') else none
    | _, _ => none
  | ['\\'] => none
  | '\\' :: letter :: rest => (unescapeLetter? letter).map (·, rest)
  | c :: rest => if c = '\'' ∨ c = '\n' ∨ c = '\r' then none else some (c, rest)

theorem unescape?_plain (hbackslash : c ≠ '\\') (hquote : c ≠ '\'') (hcontrol : isControl c = false)
    (rest : List Char) : unescape? (c :: rest) = some (c, rest) := by
  have hn : c ≠ '\n' := by
    rintro rfl
    cases hcontrol
  have hr : c ≠ '\r' := by
    rintro rfl
    cases hcontrol
  rw [unescape?]
  · simp [hquote, hn, hr]
  all_goals
    intros
    contradiction

/-- The digits of a control character write it, and are letters and digits. -/
theorem hexValue?_toDigits {n : ℕ} (h : n < 0xa0) :
    hexValue? (Nat.toDigits 16 n) = some n ∧ (Nat.toDigits 16 n).all Char.isAlphanum := by
  have hall : ∀ n : Fin 0xa0, hexValue? (Nat.toDigits 16 n) = some n.val ∧
      (Nat.toDigits 16 n).all Char.isAlphanum := by
    decide +kernel
  exact hall ⟨n, h⟩

theorem toNat_lt_of_isControl (h : isControl c = true) : c.toNat < 0xa0 := by
  simp only [isControl, Bool.or_eq_true, Bool.and_eq_true, decide_eq_true_eq] at h
  omega

theorem isAlphanum_of_mem_toDigits (h : isControl c = true) (hd : d ∈ Nat.toDigits 16 c.toNat) :
    d.isAlphanum = true :=
  List.all_eq_true.1 (hexValue?_toDigits (toNat_lt_of_isControl h)).2 d hd

/-- The digits of a control character end at the brace that follows. -/
theorem span_toDigits (h : isControl c = true) (rest : List Char) :
    (Nat.toDigits 16 c.toNat ++ '\x7d' :: rest).takeWhile (· != '\x7d') =
        Nat.toDigits 16 c.toNat ∧
      (Nat.toDigits 16 c.toNat ++ '\x7d' :: rest).dropWhile (· != '\x7d') = '\x7d' :: rest := by
  have hdigits : ∀ d ∈ Nat.toDigits 16 c.toNat, (d != '\x7d') = true := by
    intro d hd
    rw [bne_iff_ne]
    rintro rfl
    exact absurd (isAlphanum_of_mem_toDigits h hd) (by decide)
  rw [List.takeWhile_append_of_pos hdigits, List.dropWhile_append_of_pos hdigits]
  simp

/-- An escape by number reads back. -/
theorem unescape?_digits (h : isControl c = true) (rest : List Char) :
    unescape? ('\\' :: 'u' :: '\x7b' :: (Nat.toDigits 16 c.toNat ++ '\x7d' :: rest)) =
      some (c, rest) := by
  have hvalue := (hexValue?_toDigits (toNat_lt_of_isControl h)).1
  obtain ⟨htake, hdrop⟩ := span_toDigits h rest
  have hvalid : c.toNat.isValidChar := c.valid
  simp only [unescape?, htake, hdrop, hvalue, if_pos hvalid, Char.ofNat_toNat]

/-- An escape by letter reads back. -/
theorem unescape?_letter {letter : Char} (h : unescapeLetter? letter = some c) (rest : List Char) :
    unescape? ('\\' :: letter :: rest) = some (c, rest) := by
  have hu : letter ≠ 'u' := by
    rintro rfl
    cases h
  rw [unescape?, h, Option.map_some]
  intro tail heq
  exact absurd heq hu

/-- A character is escaped by a letter or by its number, or it stands for itself. -/
theorem escaped_cases (c : Char) :
    (∃ letter, unescapeLetter? letter = some c ∧ isControl letter = false ∧
      escaped c = ['\\', letter]) ∨
    (isControl c = true ∧
      escaped c = '\\' :: 'u' :: '\x7b' :: (Nat.toDigits 16 c.toNat ++ ['\x7d'])) ∨
    (isControl c = false ∧ c ≠ '\\' ∧ c ≠ '\'' ∧ escaped c = [c]) := by
  by_cases hbackslash : c = '\\'
  · subst hbackslash
    exact .inl ⟨'\\', rfl, rfl, rfl⟩
  by_cases hquote : c = '\''
  · subst hquote
    exact .inl ⟨'\'', rfl, rfl, rfl⟩
  by_cases hn : c = '\n'
  · subst hn
    exact .inl ⟨'n', rfl, rfl, rfl⟩
  by_cases hr : c = '\r'
  · subst hr
    exact .inl ⟨'r', rfl, rfl, rfl⟩
  by_cases ht : c = '\t'
  · subst ht
    exact .inl ⟨'t', rfl, rfl, rfl⟩
  refine .inr ?_
  unfold escaped
  rw [if_neg hbackslash, if_neg hquote, if_neg hn, if_neg hr, if_neg ht]
  cases hcontrol : isControl c with
  | true => exact .inl ⟨rfl, if_pos rfl⟩
  | false => exact .inr ⟨rfl, hbackslash, hquote, if_neg (Bool.false_ne_true)⟩

/-- **A written character reads back.** -/
theorem unescape?_escaped (c : Char) (rest : List Char) :
    unescape? (escaped c ++ rest) = some (c, rest) := by
  rcases escaped_cases c with ⟨letter, hletter, -, h⟩ | ⟨hcontrol, h⟩ |
    ⟨hcontrol, hbackslash, hquote, h⟩
  · rw [h]
    exact unescape?_letter hletter rest
  · rw [h]
    simpa using unescape?_digits hcontrol rest
  · rw [h]
    exact unescape?_plain hbackslash hquote hcontrol rest

theorem unescape?_body_append (c : Char) (cs r : List Char) :
    unescape? (body (c :: cs) ++ r) = some (c, body cs ++ r) := by
  rw [body, List.flatMap_cons, List.append_assoc, unescape?_escaped]
  rfl

/-! ### Control characters -/

/-- Letters and digits are between `0` and `z`. -/
theorem toNat_of_isAlphanum (h : c.isAlphanum = true) : 0x30 ≤ c.toNat ∧ c.toNat < 0x7b := by
  have hval : c.val.toNat = c.toNat := rfl
  have hranges : (decide (c.val ≥ 'A'.val ∧ c.val ≤ 'Z'.val) ||
      (c.val ≥ 'a'.val && c.val ≤ 'z'.val) || c.isDigit) = true := h
  simp [Char.isDigit, UInt32.le_iff_toNat_le] at hranges
  omega

theorem not_isControl_of_isAlphanum (h : c.isAlphanum = true) : isControl c = false := by
  obtain ⟨hlow, hhigh⟩ := toNat_of_isAlphanum h
  simp [isControl]
  omega

theorem not_isControl_of_mem_escaped (h : d ∈ escaped c) : isControl d = false := by
  rcases escaped_cases c with ⟨letter, -, hletter, heq⟩ | ⟨hcontrol, heq⟩ |
    ⟨hcontrol, -, -, heq⟩ <;> rw [heq] at h
  · simp only [List.mem_cons, List.not_mem_nil, or_false] at h
    rcases h with rfl | rfl
    · rfl
    · exact hletter
  · simp only [List.mem_cons, List.mem_append, List.not_mem_nil, or_false] at h
    rcases h with rfl | rfl | rfl | hd | rfl
    · rfl
    · rfl
    · rfl
    · exact not_isControl_of_isAlphanum (isAlphanum_of_mem_toDigits hcontrol hd)
    · rfl
  · rwa [List.mem_singleton.1 h]

theorem not_isControl_of_mem_body (h : d ∈ body cs) : isControl d = false := by
  obtain ⟨c, -, hd⟩ := List.mem_flatMap.1 h
  exact not_isControl_of_mem_escaped hd

/-- There is no control character in a literal. -/
theorem not_isControl_of_mem_literal (h : d ∈ literal name) : isControl d = false := by
  simp only [literal, List.cons_append, List.mem_cons, List.mem_append, List.not_mem_nil,
    or_false] at h
  rcases h with rfl | h | rfl
  · rfl
  · exact not_isControl_of_mem_body h
  · rfl

theorem continues_of_begins (h : beginsIdentifier c = true) : continuesIdentifier c = true := by
  simp only [beginsIdentifier, continuesIdentifier, Char.isAlphanum, Bool.or_eq_true] at h ⊢
  tauto

theorem continues_of_isIdentifier (h : isIdentifier cs = true) :
    ∀ c ∈ cs, continuesIdentifier c = true := by
  cases cs with
  | nil => exact nofun
  | cons first rest =>
      rw [isIdentifier, Bool.and_eq_true] at h
      exact List.forall_mem_cons.2 ⟨continues_of_begins h.1, List.all_eq_true.1 h.2⟩

/-- A key is the name itself, if that is an identifier, or a literal. -/
theorem key_eq_or (name : String) :
    (isIdentifier name.toList = true ∧ key name = name.toList) ∨ key name = literal name := by
  unfold key
  split
  · next h =>
    rw [Bool.and_eq_true] at h
    exact .inl ⟨h.1, rfl⟩
  · exact .inr rfl

theorem newline_notMem_key (name : String) : '\n' ∉ key name := by
  intro hmem
  rcases key_eq_or name with ⟨hident, hkey⟩ | hkey
  · rw [hkey] at hmem
    exact absurd (continues_of_isIdentifier hident _ hmem) (by decide)
  · rw [hkey] at hmem
    exact absurd (not_isControl_of_mem_literal hmem) (by decide)

end JsonShelf.Zod
