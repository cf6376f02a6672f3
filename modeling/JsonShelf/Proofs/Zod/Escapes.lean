/-
**What literals mean.**

A literal is read by whoever reads the generated code, by the rules of that language for all escapes
and not only for those that are written here.  By these rules the body of a literal means one string
at most, and a reader that looks at nothing but backslashes and quotes finds where it ends.

Main definitions:

* `Zod.escapeValue?`, `Zod.Decodes` — what an escape, and what a body stands for;
* `Zod.isEscaping` — does an escape go on after a text?
* `Zod.IsEscape` — the escapes that are written;
* `Zod.Guarded` — quotes and backslashes stand in such escapes only;
* `Zod.afterLiteral?` — what follows a literal, by a scan from the left.

Main results:

* `Zod.Decodes.eq` — a body stands for one string at most;
* `Zod.decodes_body` — a written body stands for the string that it was written for;
* `Zod.guarded_body` — in a written body, quotes and backslashes stand in escapes only;
* `Zod.literal_decodes` — **a literal decodes to its source, and ends at its last character**.
-/

import JsonShelf.Proofs.Zod.Literals

set_option autoImplicit false

namespace JsonShelf.Zod

variable {c d : Char} {cs front back text rest digits value value' : List Char}

/-! ### What a body stands for -/

/-- Does the character end a line? -/
def endsLine (c : Char) : Bool :=
  c == '\n' || c == '\r' || c == '\u2028' || c == '\u2029'

/-- The character with the number that is written, and what follows; half of a surrogate pair is no
character. -/
def numbered? (digits rest : List Char) : Option (List Char × List Char) := do
  let value ← hexValue? digits
  if value.isValidChar then some ([Char.ofNat value], rest) else none

/-- The character that a letter stands for after a backslash: most stand for themselves. -/
def letterValue (c : Char) : Char :=
  if c = 'b' then '\x08'
  else if c = 'f' then '\x0c'
  else if c = 'n' then '\n'
  else if c = 'r' then '\r'
  else if c = 't' then '\t'
  else if c = 'v' then '\x0b'
  else c

/-- What the text after a backslash stands for, and what follows the escape.  A line break is left
out, and numbers have four digits, two after an `x`, or any in braces. -/
def escapeValue? : List Char → Option (List Char × List Char)
  | [] => none
  | c :: rest =>
    if c = 'u' then
      if rest.head? = some '\x7b' then
        let digits := rest.tail.takeWhile (· != '\x7d')
        match rest.tail.dropWhile (· != '\x7d') with
        | [] => none
        | _ :: rest => if digits = [] then none else numbered? digits rest
      else if rest.length < 4 then none
      else numbered? (rest.take 4) (rest.drop 4)
    else if c = 'x' then
      if rest.length < 2 then none else numbered? (rest.take 2) (rest.drop 2)
    else if c.isDigit then
      if c = '0' ∧ rest.head?.all (!·.isDigit) then some (['\x00'], rest) else none
    else if endsLine c then
      some ([], if c = '\r' ∧ rest.head? = some '\n' then rest.tail else rest)
    else some ([letterValue c], rest)

/-- The text is the body of a literal that stands for the characters. -/
inductive Decodes : List Char → List Char → Prop
  | nil : Decodes [] []
  /-- A character stands for itself, but for backslashes, quotes and line breaks. -/
  | plain {c : Char} {rest value : List Char} :
      c ∉ ['\\', '\'', '\n', '\r'] → Decodes rest value → Decodes (c :: rest) (c :: value)
  | escape {text rest first value : List Char} :
      escapeValue? text = some (first, rest) → Decodes rest value →
      Decodes ('\\' :: text) (first ++ value)

/-- A body stands for one string at most. -/
theorem Decodes.eq (h : Decodes text value) (h' : Decodes text value') : value = value' := by
  -- the first character tells the rules apart, and what an escape is is a function of the text
  induction h generalizing value' with
  | nil => cases h'; rfl
  | plain hc _ ih =>
      cases h' with
      | plain _ hrest => rw [ih hrest]
      | escape => simp at hc
  | escape hfirst _ ih =>
      cases h' with
      | plain hc => simp at hc
      | escape hfirst' hrest =>
          rw [hfirst, Option.some.injEq, Prod.mk.injEq] at hfirst'
          obtain ⟨rfl, rfl⟩ := hfirst'
          rw [ih hrest]

theorem mem_letters (h : unescapeLetter? d = some c) : d ∈ ['\\', '\'', 'n', 'r', 't'] := by
  revert h
  simp only [unescapeLetter?]
  split_ifs <;> simp_all

theorem escapeValue?_letter (h : unescapeLetter? d = some c) (rest : List Char) :
    escapeValue? (d :: rest) = some ([c], rest) := by
  have hd := mem_letters h
  simp only [List.mem_cons, List.not_mem_nil, or_false] at hd
  rcases hd with rfl | rfl | rfl | rfl | rfl <;> cases h <;> rfl

theorem escapeValue?_digits (h : isControl c = true) (rest : List Char) :
    escapeValue? ('u' :: '\x7b' :: (Nat.toDigits 16 c.toNat ++ '\x7d' :: rest)) =
      some ([c], rest) := by
  have hvalue := (hexValue?_toDigits (toNat_lt_of_isControl h)).1
  obtain ⟨htake, hdrop⟩ := span_toDigits h rest
  have hvalid : c.toNat.isValidChar := c.valid
  simp only [escapeValue?, if_true, List.head?_cons, List.tail_cons, htake, hdrop,
    if_neg Nat.toDigits_ne_nil, numbered?, hvalue, Option.bind_eq_bind, Option.bind_some,
    if_pos hvalid, Char.ofNat_toNat]

theorem notMem_of_not_isControl (hcontrol : isControl c = false) (hbackslash : c ≠ '\\')
    (hquote : c ≠ '\'') : c ∉ ['\\', '\'', '\n', '\r'] := by
  simp only [List.mem_cons, List.not_mem_nil, or_false]
  rintro (rfl | rfl | rfl | rfl)
  · exact hbackslash rfl
  · exact hquote rfl
  · cases hcontrol
  · cases hcontrol

/-- **A written body stands for the string that it was written for.** -/
theorem decodes_body (cs : List Char) : Decodes (body cs) cs := by
  induction cs with
  | nil => exact .nil
  | cons c cs ih =>
      change Decodes (escaped c ++ body cs) (c :: cs)
      rcases escaped_cases c with ⟨letter, hletter, -, h⟩ | ⟨hcontrol, h⟩ |
        ⟨hcontrol, hbackslash, hquote, h⟩
      · rw [h]
        exact .escape (escapeValue?_letter hletter (body cs)) ih
      · rw [h]
        simpa using Decodes.escape (escapeValue?_digits hcontrol (body cs)) ih
      · rw [h]
        exact .plain (notMem_of_not_isControl hcontrol hbackslash hquote) ih

/-! ### Where escapes stand -/

/-- Is the character after this text part of an escape that begins in it?  `escaping` says so of the
text before. -/
def isEscaping (escaping : Bool) (text : List Char) : Bool :=
  text.foldl (fun escaping c => !escaping && c == '\\') escaping

/-- The escapes that are written. -/
inductive IsEscape : List Char → Prop
  | letter {c : Char} : c ∈ ['\\', '\'', 'n', 'r', 't'] → IsEscape ['\\', c]
  | number {digits : List Char} : digits ≠ [] → (∀ d ∈ digits, (Json.hexDigit? d).isSome) →
      IsEscape ('\\' :: 'u' :: '\x7b' :: (digits ++ ['\x7d']))

/-- Outside escapes there is no quote, and every backslash begins one of the escapes that are
written. -/
def Guarded (text : List Char) : Prop :=
  ∀ front c back, text = front ++ c :: back → isEscaping false front = false →
    c ≠ '\'' ∧ (c = '\\' → ∃ escape rest, c :: back = escape ++ rest ∧ IsEscape escape)

theorem isEscaping_append (escaping : Bool) (front back : List Char) :
    isEscaping escaping (front ++ back) = isEscaping (isEscaping escaping front) back :=
  List.foldl_append

theorem isEscaping_of_notMem (h : '\\' ∉ text) : isEscaping false text = false := by
  induction text with
  | nil => rfl
  | cons c rest ih =>
      rw [List.mem_cons, not_or] at h
      have hc : (c == '\\') = false := beq_eq_false_iff_ne.2 (Ne.symm h.1)
      rw [isEscaping, List.foldl_cons, Bool.not_false, Bool.true_and, hc]
      exact ih h.2

theorem Guarded.append (htext : Guarded text) (hescaping : isEscaping false text = false)
    (hrest : Guarded rest) : Guarded (text ++ rest) := by
  intro front c back h hfront
  -- the character stands in the second text, which begins outside escapes, or in the first one
  rcases List.append_eq_append_iff.1 h with ⟨middle, rfl, hmiddle⟩ | ⟨middle, rfl, hmiddle⟩
  · rw [isEscaping_append, hescaping] at hfront
    exact hrest middle c back hmiddle hfront
  · cases middle with
    | nil => exact hrest [] c back hmiddle.symm rfl
    | cons first middle =>
        obtain ⟨rfl, rfl⟩ := List.cons.inj hmiddle
        obtain ⟨hquote, hbackslash⟩ := htext front c middle rfl hfront
        refine ⟨hquote, fun hc => ?_⟩
        obtain ⟨escape, tail, heq, hescape⟩ := hbackslash hc
        refine ⟨escape, tail ++ rest, ?_, hescape⟩
        rw [← List.append_assoc, ← heq]
        rfl

theorem guarded_of_forall (h : ∀ c ∈ text, c ≠ '\\' ∧ c ≠ '\'') : Guarded text := by
  rintro front c back rfl -
  have hc := h c (by simp)
  exact ⟨hc.2, fun e => absurd e hc.1⟩

theorem hexDigits_of_foldlM {start n : ℕ}
    (h : digits.foldlM (fun value c => (Json.hexDigit? c).map (16 * value + ·)) start = some n) :
    ∀ d ∈ digits, (Json.hexDigit? d).isSome := by
  induction digits generalizing start with
  | nil => exact List.forall_mem_nil _
  | cons first rest ih =>
      rw [List.foldlM_cons, Option.bind_eq_bind, Option.bind_eq_some_iff] at h
      obtain ⟨next, hfirst, hrest⟩ := h
      obtain ⟨digit, hdigit, -⟩ := Option.map_eq_some_iff.1 hfirst
      exact List.forall_mem_cons.2 ⟨Option.isSome_iff_exists.2 ⟨digit, hdigit⟩, ih hrest⟩

/-- What writes a number is digits only. -/
theorem hexDigits_of_hexValue? {n : ℕ} (h : hexValue? digits = some n) :
    ∀ d ∈ digits, (Json.hexDigit? d).isSome :=
  hexDigits_of_foldlM h

/-- A character is written as an escape, or stands for itself. -/
theorem isEscape_escaped (c : Char) :
    IsEscape (escaped c) ∨ (c ≠ '\\' ∧ c ≠ '\'' ∧ escaped c = [c]) := by
  rcases escaped_cases c with ⟨letter, hletter, -, h⟩ | ⟨hcontrol, h⟩ |
    ⟨-, hbackslash, hquote, h⟩
  · exact .inl (h ▸ .letter (mem_letters hletter))
  · have hvalue := (hexValue?_toDigits (toNat_lt_of_isControl hcontrol)).1
    exact .inl (h ▸ .number Nat.toDigits_ne_nil (hexDigits_of_hexValue? hvalue))
  · exact .inr ⟨hbackslash, hquote, h⟩

/-- After its second character there is no quote and no backslash in an escape. -/
theorem IsEscape.exists_eq (h : IsEscape text) :
    ∃ second tail, text = '\\' :: second :: tail ∧ ∀ c ∈ tail, c ≠ '\\' ∧ c ≠ '\'' := by
  cases h with
  | letter => exact ⟨_, [], rfl, List.forall_mem_nil _⟩
  | number _ hdigits =>
      refine ⟨_, _, rfl, fun c hc => ?_⟩
      rcases List.mem_cons.1 hc with rfl | hc
      · exact ⟨by decide, by decide⟩
      rcases List.mem_append.1 hc with hc | hc
      · exact ⟨fun e => absurd (hdigits c hc) (by rw [e]; decide),
          fun e => absurd (hdigits c hc) (by rw [e]; decide)⟩
      · rw [List.mem_singleton.1 hc]
        exact ⟨by decide, by decide⟩

/-- An escape is passed over as a whole. -/
theorem IsEscape.isEscaping_eq (h : IsEscape text) : isEscaping false text = false := by
  obtain ⟨second, tail, rfl, htail⟩ := h.exists_eq
  have hskip : isEscaping false ('\\' :: second :: tail) = isEscaping false tail := rfl
  rw [hskip]
  exact isEscaping_of_notMem fun hmem => (htail _ hmem).1 rfl

theorem IsEscape.guarded (h : IsEscape text) : Guarded text := by
  obtain ⟨second, tail, rfl, htail⟩ := h.exists_eq
  intro front c back heq hfront
  -- the backslash, the character after it, which is part of the escape, and the rest
  cases front with
  | nil =>
      obtain ⟨rfl, rfl⟩ := List.cons.inj heq
      exact ⟨by decide, fun _ => ⟨_, [], (List.append_nil _).symm, h⟩⟩
  | cons first front =>
      obtain ⟨rfl, hsecond⟩ := List.cons.inj heq
      cases front with
      | nil => cases hfront
      | cons next front =>
          have hsplit : tail = front ++ c :: back := (List.cons.inj hsecond).2
          have hmem : c ∈ tail := by simp [hsplit]
          exact ⟨(htail c hmem).2, fun e => absurd e (htail c hmem).1⟩

theorem guarded_escaped (c : Char) :
    Guarded (escaped c) ∧ isEscaping false (escaped c) = false := by
  rcases isEscape_escaped c with h | ⟨hbackslash, hquote, h⟩
  · exact ⟨h.guarded, h.isEscaping_eq⟩
  · rw [h]
    exact ⟨guarded_of_forall (List.forall_mem_singleton.2 ⟨hbackslash, hquote⟩),
      isEscaping_of_notMem (mt List.mem_singleton.1 (Ne.symm hbackslash))⟩

/-- Every quote and backslash of a written body is part of an escape, and no escape is cut off. -/
theorem guarded_body (cs : List Char) : Guarded (body cs) ∧ isEscaping false (body cs) = false := by
  induction cs with
  | nil => exact ⟨guarded_of_forall (List.forall_mem_nil _), rfl⟩
  | cons c cs ih =>
      obtain ⟨hguarded, hescaping⟩ := guarded_escaped c
      have hbody : body (c :: cs) = escaped c ++ body cs := rfl
      rw [hbody, isEscaping_append, hescaping]
      exact ⟨hguarded.append hescaping ih.1, ih.2⟩

/-! ### Where a literal ends -/

/-- What follows the quote that ends a literal, by a scan from the left that passes over every
character after a backslash.  There is no line break in a literal. -/
def afterQuote? : Bool → List Char → Option (List Char)
  | _, [] => none
  | true, _ :: rest => afterQuote? false rest
  | false, c :: rest =>
    if c = '\'' then some rest
    else if c = '\n' ∨ c = '\r' then none
    else afterQuote? (c == '\\') rest

/-- What follows the literal at the start of a text. -/
def afterLiteral? : List Char → Option (List Char)
  | '\'' :: rest => afterQuote? false rest
  | _ => none

/-- The scan passes over a text without line breaks in which every quote is escaped. -/
theorem afterQuote?_append {escaping : Bool}
    (hquote : ∀ front c back, text = front ++ c :: back → isEscaping escaping front = false →
      c ≠ '\'')
    (hline : '\n' ∉ text ∧ '\r' ∉ text) (rest : List Char) :
    afterQuote? escaping (text ++ rest) = afterQuote? (isEscaping escaping text) rest := by
  -- the scan goes through the states that `isEscaping` goes through
  induction text generalizing escaping with
  | nil => rfl
  | cons c text ih =>
      simp only [List.mem_cons, not_or] at hline
      have hrest := fun front d back h => hquote (c :: front) d back (congrArg (c :: ·) h)
      cases escaping with
      | true => exact ih hrest ⟨hline.1.2, hline.2.2⟩
      | false =>
          have hc : ¬(c = '\n' ∨ c = '\r') := not_or.2 ⟨Ne.symm hline.1.1, Ne.symm hline.2.1⟩
          rw [List.cons_append, afterQuote?, if_neg (hquote [] c text rfl rfl), if_neg hc]
          exact ih hrest ⟨hline.1.2, hline.2.2⟩

/-- A scan from the left ends at the last character of a literal, whatever follows it. -/
theorem afterLiteral?_literal (s : String) (rest : List Char) :
    afterLiteral? (literal s ++ rest) = some rest := by
  obtain ⟨hguarded, hescaping⟩ := guarded_body s.toList
  have hline : '\n' ∉ body s.toList ∧ '\r' ∉ body s.toList :=
    ⟨fun h => absurd (not_isControl_of_mem_body h) (by decide),
      fun h => absurd (not_isControl_of_mem_body h) (by decide)⟩
  have htext : literal s ++ rest = '\'' :: (body s.toList ++ '\'' :: rest) := by simp [literal]
  rw [htext, afterLiteral?, afterQuote?_append (fun front c back h hfront =>
    (hguarded front c back h hfront).1) hline, hescaping, afterQuote?, if_pos rfl]

/-- **A literal decodes to its source, and ends at its last character.**  In its body there are no
control characters, and no quotes and backslashes but those of escapes, which stand for the source
by the rules of the language. -/
theorem literal_decodes (s : String) :
    ∃ text, literal s = '\'' :: text ++ ['\''] ∧
      (∀ c ∈ text, isControl c = false) ∧
      Guarded text ∧
      (∀ value, Decodes text value ↔ value = s.toList) ∧
      (∀ rest, afterLiteral? (literal s ++ rest) = some rest) ∧
      ∀ t, literal t = literal s → t = s := by
  refine ⟨body s.toList, rfl, fun c => not_isControl_of_mem_body, (guarded_body s.toList).1,
    fun value => ⟨fun h => h.eq (decodes_body s.toList), fun h => h ▸ decodes_body s.toList⟩,
    afterLiteral?_literal s, fun t ht => ?_⟩
  have hbody : body t.toList = body s.toList :=
    (List.append_inj' (List.cons.inj ht).2 rfl).1
  exact String.toList_injective ((hbody ▸ decodes_body t.toList).eq (decodes_body s.toList))

/-- What looks like an escape is written so that it stands for itself. -/
theorem literal_decodes_lookalike :
    let source := "\\n'\x7f"
    let text := "\\\\n\\'\\u\x7b7f\x7d".toList
    literal source = '\'' :: text ++ ['\''] ∧ Decodes text source.toList ∧
      afterLiteral? (literal source ++ [';']) = some [';'] ∧
        literal source ≠ literal "\n'\x7f" := by
  intro source text
  obtain ⟨text', htext, -, -, hdecodes, hend, hinj⟩ := literal_decodes source
  have hliteral : literal source = '\'' :: text ++ ['\''] := by decide
  have heq : text' = text :=
    (List.append_inj' (List.cons.inj (htext.symm.trans hliteral)).2 rfl).1
  refine ⟨hliteral, heq ▸ (hdecodes _).2 rfl, hend _, fun h => ?_⟩
  exact absurd (hinj _ h.symm) (by decide)

end JsonShelf.Zod
