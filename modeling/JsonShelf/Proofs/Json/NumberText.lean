/-
**A written number reads back.**

The characters of a number are split into the parts that its reader looks for: digits, a point with
digits, an exponent.  The reader takes exactly these parts, however the text goes on after them, and
each layout of `Number.text` is made of parts that stand for the number written.

Main definitions:

* `Number.Literal.chars` — the characters of the parts of a number, without its sign;
* `Number.Literal.WellFormed` — the parts that the reader takes back as they are;
* `Json.Ends` — the texts that cannot continue a number.

Main results:

* `Json.readNumber_chars` — **the reader takes back well-formed parts**;
* `Number.exists_literal` — **the text of a number has parts that stand for it**;
* `Json.readScalar_number` — the text of a number is read as that number.
-/

import JsonShelf.Json.Parser
import JsonShelf.Json.Printer
import JsonShelf.Proofs.Decimal.ReadsBack

set_option autoImplicit false

namespace JsonShelf

/-! ### The parts of a number -/

namespace Number

/-- Digits before a point: a zero alone, or digits of which the first is not zero. -/
def IsWhole (digits : List Char) : Prop :=
  digits = ['0'] ∨
    ∃ c rest, digits = c :: rest ∧ c ≠ '0' ∧ ∀ d ∈ digits, Char.isDigit d = true

/-- At least one character, and digits only. -/
def IsDigits (digits : List Char) : Prop :=
  digits ≠ [] ∧ ∀ d ∈ digits, Char.isDigit d = true

namespace Literal

/-- A point and the digits after it. -/
def fractionChars : Option (List Char) → List Char
  | none => []
  | some digits => '.' :: digits

/-- An exponent with its sign. -/
def exponentChars : Option ℤ → List Char
  | none => []
  | some power => 'e' :: (if power < 0 then '-' else '+') :: Nat.toDigits 10 power.natAbs

/-- The characters of the parts, without the sign. -/
def chars (literal : Literal) : List Char :=
  literal.whole ++ (fractionChars literal.fraction ++ exponentChars literal.power)

/-- The characters of the sign. -/
def sign (literal : Literal) : List Char :=
  if literal.negative then ['-'] else []

/-- The parts that the reader takes back as they are. -/
structure WellFormed (literal : Literal) : Prop where
  whole : IsWhole literal.whole
  fraction : ∀ digits, literal.fraction = some digits → IsDigits digits
  power : ∀ power, literal.power = some power → power.natAbs ≤ Json.largestPower

end Literal

end Number

namespace Json

open Number (IsWhole IsDigits Literal)

/-! ### What ends a number -/

/-- The text does not begin with a digit. -/
def NoDigit (rest : List Char) : Prop :=
  ∀ c cs, rest = c :: cs → Char.isDigit c = false

/-- The text cannot continue a number: it begins with no digit, point or exponent. -/
def Ends (rest : List Char) : Prop :=
  ∀ c cs, rest = c :: cs → Char.isDigit c = false ∧ c ≠ '.' ∧ c ≠ 'e' ∧ c ≠ 'E'

variable {rest : List Char}

theorem Ends.noDigit (h : Ends rest) : NoDigit rest :=
  fun c cs hc => (h c cs hc).1

theorem noDigit_cons {c : Char} (h : Char.isDigit c = false) : NoDigit (c :: rest) := by
  intro d cs hd
  cases hd
  exact h

theorem takeWhile_isDigit {digits : List Char} (hd : ∀ d ∈ digits, Char.isDigit d = true)
    (hr : NoDigit rest) : (digits ++ rest).takeWhile Char.isDigit = digits := by
  rw [List.takeWhile_append_of_pos hd]
  cases rest with
  | nil => simp
  | cons c cs => simp [hr c cs rfl]

theorem dropWhile_isDigit {digits : List Char} (hd : ∀ d ∈ digits, Char.isDigit d = true)
    (hr : NoDigit rest) : (digits ++ rest).dropWhile Char.isDigit = rest := by
  rw [List.dropWhile_append_of_pos hd]
  cases rest with
  | nil => simp
  | cons c cs => simp [hr c cs rfl]

/-! ### Reading each part -/

theorem wholeDigits_append {digits : List Char} (hd : IsWhole digits) (hr : NoDigit rest) :
    wholeDigits (digits ++ rest) = .ok (digits, rest) := by
  rcases hd with rfl | ⟨c, cs, rfl, hc, hd⟩
  · cases rest with
    | nil => simp [wholeDigits]
    | cons d ds => simp [wholeDigits, hr d ds rfl]
  · have hfirst := hd c List.mem_cons_self
    have hothers : ∀ d ∈ cs, Char.isDigit d = true := fun d h => hd d (List.mem_cons_of_mem c h)
    rw [List.cons_append]
    simp only [wholeDigits]
    rw [if_neg hc, if_pos hfirst, takeWhile_isDigit hothers hr, dropWhile_isDigit hothers hr]

theorem someDigits_append {digits : List Char} (hd : IsDigits digits) (hr : NoDigit rest) :
    someDigits (digits ++ rest) = .ok (digits, rest) := by
  obtain ⟨hne, hall⟩ := hd
  cases digits with
  | nil => exact absurd rfl hne
  | cons c cs =>
      have hfirst := hall c List.mem_cons_self
      have htake := takeWhile_isDigit hall hr
      have hdrop := dropWhile_isDigit hall hr
      rw [List.cons_append] at htake hdrop ⊢
      rw [someDigits, if_pos hfirst, htake, hdrop]

theorem fractionDigits_append {fraction : Option (List Char)}
    (hf : ∀ digits, fraction = some digits → IsDigits digits) (hr : NoDigit rest)
    (hpoint : ∀ cs, rest ≠ '.' :: cs) :
    fractionDigits (Literal.fractionChars fraction ++ rest) = .ok (fraction, rest) := by
  cases fraction with
  | none =>
      rw [Literal.fractionChars, List.nil_append, fractionDigits]
      exact hpoint
  | some digits =>
      rw [Literal.fractionChars, List.cons_append, fractionDigits,
        someDigits_append (hf digits rfl) hr]
      rfl

theorem le_ofDigitChars (digits : List Char) (n : ℕ) : n ≤ Nat.ofDigitChars 10 digits n := by
  rw [Nat.ofDigitChars_eq_ofDigitChars_zero]
  have := Nat.le_mul_of_pos_left n (Nat.pow_pos (n := digits.length) (by decide : 0 < 10))
  omega

/-- No digit takes the exponent past the largest one if all of them together do not. -/
theorem excessDigits_eq_none {digits : List Char} {n : ℕ}
    (h : Nat.ofDigitChars 10 digits n ≤ largestPower) : excessDigits n digits = none := by
  induction digits generalizing n with
  | nil => rfl
  | cons c cs ih =>
      have hstep : Nat.ofDigitChars 10 cs (10 * n + Decimal.digitValue c) ≤ largestPower := h
      have hle := le_ofDigitChars cs (10 * n + Decimal.digitValue c)
      simp only [excessDigits]
      rw [if_neg (by omega)]
      exact ih hstep

theorem exponentPart_append {power : Option ℤ} (isZero : Bool)
    (hp : ∀ p, power = some p → p.natAbs ≤ largestPower) (hr : Ends rest) :
    exponentPart isZero (Literal.exponentChars power ++ rest) = .ok (power, rest) := by
  cases power with
  | none =>
      rw [Literal.exponentChars, List.nil_append]
      cases rest with
      | nil => rfl
      | cons c cs =>
          obtain ⟨_, _, he, hE⟩ := hr c cs rfl
          simp [exponentPart, he, hE]
  | some p =>
      have hdigits : IsDigits (Nat.toDigits 10 p.natAbs) :=
        ⟨Nat.toDigits_ne_nil, fun d h => Decimal.isDigit_of_mem_toDigits h⟩
      have hread := someDigits_append hdigits hr.noDigit
      have hexcess : excessDigits 0 (Nat.toDigits 10 p.natAbs) = none := by
        refine excessDigits_eq_none ?_
        rw [← Decimal.ofDigits_eq_ofDigitChars, Decimal.ofDigits_toDigits]
        exact hp p rfl
      rcases lt_or_ge p 0 with hneg | hpos
      · simp [Literal.exponentChars, exponentPart, hneg, hread, hexcess, bind, Except.bind,
          pure, Except.pure, abs_of_neg hneg]
      · simp [Literal.exponentChars, exponentPart, not_lt.2 hpos, hread, hexcess, bind, Except.bind,
          pure, Except.pure, abs_of_nonneg hpos]

/-! ### Reading the parts together -/

theorem noDigit_exponentChars (power : Option ℤ) (hr : Ends rest) :
    NoDigit (Literal.exponentChars power ++ rest) := by
  cases power with
  | none => exact hr.noDigit
  | some p => exact noDigit_cons (by decide)

theorem exponentChars_ne_point (power : Option ℤ) (hr : Ends rest) (cs : List Char) :
    Literal.exponentChars power ++ rest ≠ '.' :: cs := by
  intro h
  cases power with
  | none => exact (hr '.' cs h).2.1 rfl
  | some p => exact absurd (List.cons.inj h).1 (by decide)

theorem noDigit_fractionChars (fraction : Option (List Char)) (hr : NoDigit rest) :
    NoDigit (Literal.fractionChars fraction ++ rest) := by
  cases fraction with
  | none => exact hr
  | some digits => exact noDigit_cons (by decide)

/-- **The reader takes back well-formed parts**, and leaves what follows them. -/
theorem readNumber_chars {literal : Literal} {n : Number} (hl : literal.WellFormed)
    (hn : Number.ofLiteral? literal = some n) (hr : Ends rest) :
    readNumber literal.negative (literal.chars ++ rest) = .ok (n, rest) := by
  have hexp := noDigit_exponentChars literal.power hr
  have hwhole := wholeDigits_append hl.whole (noDigit_fractionChars literal.fraction hexp)
  have hfraction := fractionDigits_append hl.fraction hexp (exponentChars_ne_point literal.power hr)
  have hpower := fun isZero => exponentPart_append isZero hl.power hr
  rw [Literal.chars, List.append_assoc, List.append_assoc]
  simp [readNumber, hwhole, hfraction, hpower, hn, bind, Except.bind, pure, Except.pure]

end Json

/-! ### The layouts of a number -/

namespace Number

open Decimal (ofDigits)

theorem isDigits_zero : IsDigits ['0'] :=
  ⟨List.cons_ne_nil _ _, List.forall_mem_singleton.2 rfl⟩

theorem isDigits_of_isWhole {digits : List Char} (h : IsWhole digits) : IsDigits digits := by
  rcases h with rfl | ⟨c, rest, rfl, _, hall⟩
  · exact isDigits_zero
  · exact ⟨List.cons_ne_nil c rest, hall⟩

theorem isDigits_append {front back : List Char} (hf : IsDigits front)
    (hb : ∀ d ∈ back, Char.isDigit d = true) : IsDigits (front ++ back) := by
  refine ⟨fun h => hf.1 (List.append_eq_nil_iff.1 h).1, ?_⟩
  intro d hd
  rcases List.mem_append.1 hd with h | h
  · exact hf.2 d h
  · exact hb d h

theorem isDigit_of_mem_zeros {n : ℕ} {d : Char} (h : d ∈ List.replicate n '0') :
    Char.isDigit d = true := by
  rw [List.eq_of_mem_replicate h]
  decide

theorem isWhole_toDigits (n : ℕ) : IsWhole (Nat.toDigits 10 n) := by
  rcases Nat.eq_zero_or_pos n with rfl | hpos
  · exact .inl rfl
  · obtain ⟨c, rest, hc, hne⟩ := Decimal.toDigits_eq_cons hpos
    exact .inr ⟨c, rest, hc, hne, fun d hd => Decimal.isDigit_of_mem_toDigits hd⟩

/-- Digits that begin with no zero still do when others follow. -/
theorem isWhole_append {front back : List Char} (hf : IsWhole front) (hzero : front ≠ ['0'])
    (hb : ∀ d ∈ back, Char.isDigit d = true) : IsWhole (front ++ back) := by
  have hall := (isDigits_append (isDigits_of_isWhole hf) hb).2
  rcases hf with h | ⟨c, rest, rfl, hc, _⟩
  · exact absurd h hzero
  · exact .inr ⟨c, rest ++ back, rfl, hc, hall⟩

theorem isWhole_take {digits : List Char} {n : ℕ} (hd : IsWhole digits) (hzero : digits ≠ ['0'])
    (hn : 0 < n) : IsWhole (digits.take n) := by
  rcases hd with h | ⟨c, rest, rfl, hc, hall⟩
  · exact absurd h hzero
  · obtain ⟨m, rfl⟩ : ∃ m, n = m + 1 := ⟨n - 1, by omega⟩
    exact .inr ⟨c, rest.take m, rfl, hc, fun d h => hall d (List.mem_of_mem_take h)⟩

theorem isDigits_drop {digits : List Char} {n : ℕ} (hd : IsDigits digits)
    (hn : n < digits.length) : IsDigits (digits.drop n) :=
  ⟨fun h => by simp at h; omega, fun d h => hd.2 d (List.mem_of_mem_drop h)⟩

/-- Parts with a point or an exponent stand for the nearest binary64 number. -/
theorem ofLiteral?_float {literal : Literal}
    (h : literal.fraction.isSome = true ∨ literal.power.isSome = true) :
    ofLiteral? literal =
      (Binary64.ofDecimal? literal.negative
        (ofDigits (literal.whole ++ literal.fraction.getD []))
        (literal.power.getD 0 - (literal.fraction.getD []).length)).map Number.float := by
  have hnone : (literal.fraction.isNone && literal.power.isNone) = false := by
    cases hf : literal.fraction <;> cases hp : literal.power <;> simp_all
  simp [ofLiteral?, hnone]

section Float

variable {x : Binary64} {digits : List Char} {power : ℤ}

/-- The digits and the power of ten write the number, also with zeros after the digits. -/
structure Writes (x : Binary64) (digits : List Char) (power : ℤ) : Prop where
  isWhole : IsWhole digits
  ne_zero : digits ≠ ['0']
  ofDecimal? : ∀ k : ℕ,
    Binary64.ofDecimal? x.negative (ofDigits digits * 10 ^ k) (power - k) = some x
  least : -1000 ≤ power + digits.length
  greatest : power + digits.length ≤ 1000

/-- The shortest decimal of a number writes it. -/
theorem writes_shortest (hx : x.mantissa ≠ 0) :
    Writes x (Nat.toDigits 10 (Decimal.shortest x).1) (Decimal.shortest x).2 where
  isWhole := isWhole_toDigits (Decimal.shortest x).1
  ne_zero := by
    obtain ⟨c, rest, hc, hne⟩ :=
      Decimal.toDigits_eq_cons (Decimal.digits_pos_of_holds hx (Decimal.holds_shortest x))
    intro h
    rw [hc] at h
    exact hne (List.cons.inj h).1
  ofDecimal? := by
    intro k
    rw [Decimal.ofDigits_toDigits]
    exact Decimal.ofDecimal?_shortest hx k
  least := by
    have := Decimal.le_width_of_holds hx (Decimal.holds_shortest x)
    omega
  greatest := by
    have := Decimal.width_le_of_holds hx (Decimal.holds_shortest x)
    omega

/-- The characters are those of some parts, the sign apart, that stand for the number. -/
def IsTextOf (x : Binary64) (cs : List Char) : Prop :=
  ∃ literal : Literal, literal.WellFormed ∧ ofLiteral? literal = some (.float x) ∧
    literal.negative = x.negative ∧ cs = literal.chars

namespace Writes

theorem isDigits (h : Writes x digits power) : IsDigits digits :=
  isDigits_of_isWhole h.isWhole

/-- Parts with the digits of a number, perhaps with zeros after them, stand for it. -/
theorem ofLiteral?_eq (h : Writes x digits power) {literal : Literal}
    (hsign : literal.negative = x.negative)
    (hparts : literal.fraction.isSome = true ∨ literal.power.isSome = true) (k : ℕ)
    (hdigits : ofDigits (literal.whole ++ literal.fraction.getD []) = ofDigits digits * 10 ^ k)
    (hpower : literal.power.getD 0 - (literal.fraction.getD []).length = power - k) :
    ofLiteral? literal = some (.float x) := by
  rw [ofLiteral?_float hparts, hsign, hdigits, hpower, h.ofDecimal? k]
  rfl

/-- The point before the digits, perhaps with zeros in between. -/
theorem isTextOf_zero (h : Writes x digits power) (hn : power + digits.length ≤ 0) :
    IsTextOf x (['0', '.'] ++
      (List.replicate (-(power + digits.length)).toNat '0' ++ digits)) := by
  obtain ⟨n, hpower⟩ : ∃ n : ℕ, n = (-(power + digits.length)).toNat := ⟨_, rfl⟩
  rw [← hpower]
  refine ⟨⟨x.negative, ['0'], some (List.replicate n '0' ++ digits), none⟩,
    ⟨.inl rfl, ?_, nofun⟩, h.ofLiteral?_eq rfl (.inl rfl) 0 ?_ ?_, rfl, ?_⟩
  · rintro _ ⟨⟩
    refine ⟨fun hnil => h.isDigits.1 (List.append_eq_nil_iff.1 hnil).2, ?_⟩
    intro d hd
    rcases List.mem_append.1 hd with hd | hd
    · exact isDigit_of_mem_zeros hd
    · exact h.isDigits.2 d hd
  · have hzeros : ofDigits (['0'] ++ (List.replicate n '0' ++ digits)) =
        ofDigits (List.replicate n '0' ++ digits) := Decimal.ofDigits_zeros_append 1 _
    rw [Option.getD_some, hzeros, Decimal.ofDigits_zeros_append, Nat.pow_zero, Nat.mul_one]
  · simp only [Option.getD_none, Option.getD_some, List.length_append, List.length_replicate]
    omega
  · simp [Literal.chars, Literal.fractionChars, Literal.exponentChars]

/-- The point after the digits and the zeros that follow them. -/
theorem isTextOf_whole (h : Writes x digits power) (hn : 0 ≤ power) :
    IsTextOf x (digits ++ List.replicate power.toNat '0' ++ ['.', '0']) := by
  refine ⟨⟨x.negative, digits ++ List.replicate power.toNat '0', some ['0'], none⟩,
    ⟨isWhole_append h.isWhole h.ne_zero fun d hd => isDigit_of_mem_zeros hd, ?_, nofun⟩,
    h.ofLiteral?_eq rfl (.inl rfl) (power.toNat + 1) ?_ ?_, rfl, ?_⟩
  · rintro _ ⟨⟩
    exact isDigits_zero
  · have hzeros : digits ++ List.replicate power.toNat '0' ++ ['0'] =
        digits ++ List.replicate (power.toNat + 1) '0' := by
      rw [List.append_assoc, List.replicate_succ']
    rw [Option.getD_some, hzeros, Decimal.ofDigits_append_zeros]
  · simp only [Option.getD_none, Option.getD_some, List.length_singleton]
    omega
  · simp [Literal.chars, Literal.fractionChars, Literal.exponentChars]

/-- The point between the digits. -/
theorem isTextOf_split (h : Writes x digits power) {n : ℕ} (hn : n = power + digits.length)
    (hpos : 0 < n) (hlt : n < digits.length) :
    IsTextOf x (digits.take n ++ ['.'] ++ digits.drop n) := by
  refine ⟨⟨x.negative, digits.take n, some (digits.drop n), none⟩,
    ⟨isWhole_take h.isWhole h.ne_zero hpos, ?_, nofun⟩,
    h.ofLiteral?_eq rfl (.inl rfl) 0 ?_ ?_, rfl, ?_⟩
  · rintro _ ⟨⟩
    exact isDigits_drop h.isDigits hlt
  · rw [Option.getD_some, List.take_append_drop, Nat.pow_zero, Nat.mul_one]
  · simp only [Option.getD_none, Option.getD_some, List.length_drop]
    omega
  · simp [Literal.chars, Literal.fractionChars, Literal.exponentChars]

/-- A positional number has the point before, after or between the digits. -/
theorem isTextOf_positional (h : Writes x digits power) :
    IsTextOf x (format.positional digits (power + digits.length)).toList := by
  rw [Decimal.FloatFormat.positional]
  split
  · next hle =>
    have htext := h.isTextOf_zero hle
    rwa [String.toList_append, String.toList_ofList, String.toList_ofList]
  · next hpos =>
    split
    · next hlen =>
      have htext := h.isTextOf_whole (by omega)
      have hcount : (power + digits.length).toNat - digits.length = power.toNat := by omega
      rwa [String.toList_append, String.toList_ofList, hcount]
    · next hlen =>
      have htext := h.isTextOf_split (n := (power + digits.length).toNat) (by omega) (by omega)
        (by omega)
      rwa [String.toList_append, String.toList_append, String.toList_ofList, String.toList_ofList,
        String.toList_ofList]

/-- A number with an exponent has the point after the first digit, if there are more. -/
theorem isTextOf_scientific (h : Writes x digits power) :
    IsTextOf x (format.scientific digits (power + digits.length - 1)).toList := by
  have hlength : 0 < digits.length := List.length_pos_iff.2 h.isDigits.1
  have hleast := h.least
  have hgreatest := h.greatest
  obtain ⟨e, he⟩ : ∃ e : ℤ, e = power + digits.length - 1 := ⟨_, rfl⟩
  rw [← he, Decimal.FloatFormat.scientific]
  refine ⟨⟨x.negative, digits.take 1, if digits.length ≤ 1 then none else some (digits.drop 1),
    some e⟩, ⟨isWhole_take h.isWhole h.ne_zero Nat.one_pos, ?_, ?_⟩,
    h.ofLiteral?_eq rfl (.inr rfl) 0 ?_ ?_, rfl, ?_⟩
  · intro fraction hf
    simp only at hf
    split at hf
    · cases hf
    · cases hf
      exact isDigits_drop h.isDigits (by omega)
  · rintro _ ⟨⟩
    unfold Json.largestPower
    omega
  · have hall : digits.take 1 ++
        (if digits.length ≤ 1 then none else some (digits.drop 1)).getD [] = digits := by
      split
      · next hle => rw [Option.getD_none, List.append_nil, List.take_of_length_le hle]
      · rw [Option.getD_some, List.take_append_drop]
    rw [hall, Nat.pow_zero, Nat.mul_one]
  · simp only [Option.getD_some]
    split
    · simp only [Option.getD_none, List.length_nil]
      omega
    · simp only [Option.getD_some, List.length_drop]
      omega
  · have hformat : format.exponentPlus = "+" := rfl
    have hexponent : (if e < 0 then "-" else "+" : String).toList ++ (toString e.natAbs).toList =
        (if e < 0 then '-' else '+') :: Nat.toDigits 10 e.natAbs := by
      rw [Nat.toString_eq_repr, Nat.toList_repr]
      split <;> rfl
    simp only [Literal.chars, Literal.exponentChars, hformat, String.toList_append,
      String.toList_ofList, List.append_assoc, hexponent]
    split
    · rfl
    · simp [Literal.fractionChars]

end Writes

theorem eq_zero_of_mantissa (hx : x.mantissa = 0) : x = Binary64.zero x.negative := by
  obtain ⟨negative, mantissa, exponent, _, _, hnormal⟩ := x
  subst hx
  obtain rfl : exponent = 0 := by omega
  rfl

/-- Zero is written with its sign, a point and a decimal. -/
theorem isTextOf_of_mantissa_eq_zero (hx : x.mantissa = 0) : IsTextOf x ['0', '.', '0'] := by
  refine ⟨⟨x.negative, ['0'], some ['0'], none⟩, ⟨.inl rfl, ?_, nofun⟩, ?_, rfl, rfl⟩
  · rintro _ ⟨⟩
    exact isDigits_zero
  · rw [ofLiteral?_float (.inl rfl)]
    conv_rhs => rw [eq_zero_of_mantissa hx]
    rfl

/-- The parts of a binary64 number. -/
theorem exists_literal_float (x : Binary64) :
    ∃ literal : Literal, literal.WellFormed ∧ ofLiteral? literal = some (.float x) ∧
      (text (.float x)).toList = literal.sign ++ literal.chars := by
  suffices h : ∃ cs, IsTextOf x cs ∧
      (text (.float x)).toList = (if x.negative then ['-'] else []) ++ cs by
    obtain ⟨_, ⟨literal, hwf, hread, hnegative, rfl⟩, htext⟩ := h
    exact ⟨literal, hwf, hread, by rw [htext, Literal.sign, hnegative]⟩
  have hsign : (if x.negative then "-" else "" : String).toList =
      if x.negative then ['-'] else [] := by split <;> rfl
  rw [text, Decimal.FloatFormat.write, String.toList_append, hsign]
  by_cases hx : x.mantissa = 0
  · rw [if_pos hx]
    exact ⟨_, isTextOf_of_mantissa_eq_zero hx, rfl⟩
  · rw [if_neg hx]
    simp only [Int.sub_add_cancel]
    refine ⟨_, ?_, rfl⟩
    -- which layout is taken depends on the exponent alone
    split
    · exact (writes_shortest hx).isTextOf_positional
    · exact (writes_shortest hx).isTextOf_scientific

end Float

/-- The parts of a whole number: its digits. -/
theorem exists_literal_whole (value : ℤ) (lower : -2 ^ 63 ≤ value) (upper : value < 2 ^ 64) :
    ∃ literal : Literal, literal.WellFormed ∧ ofLiteral? literal = some (.whole value lower upper) ∧
      (text (.whole value lower upper)).toList = literal.sign ++ literal.chars := by
  refine ⟨⟨decide (value < 0), Nat.toDigits 10 value.natAbs, none, none⟩,
    ⟨isWhole_toDigits _, nofun, nofun⟩, ?_, ?_⟩
  · have hof : ofInt? value = some (.whole value lower upper) := by
      rw [ofInt?, dif_pos ⟨lower, upper⟩]
    rcases lt_or_ge value 0 with hneg | hpos
    · have hne : value.natAbs ≠ 0 := by omega
      have hvalue : -(value.natAbs : ℤ) = value := by omega
      simp [ofLiteral?, hneg, hneg.ne, abs_of_neg hneg, hof]
    · have hvalue : (value.natAbs : ℤ) = value := by omega
      simp [ofLiteral?, not_lt.2 hpos, abs_of_nonneg hpos, hof]
  · rw [text, Int.toString_eq_repr, Int.repr_eq_if]
    rcases lt_or_ge value 0 with hneg | hpos
    · have habs : (-value).toNat = value.natAbs := by omega
      simp [Literal.sign, Literal.chars, Literal.fractionChars, Literal.exponentChars, hneg,
        not_le.2 hneg, habs]
    · have habs : value.toNat = value.natAbs := by omega
      simp [Literal.sign, Literal.chars, Literal.fractionChars, Literal.exponentChars, hpos,
        not_lt.2 hpos, habs]

/-- **The text of a number has parts that stand for it.** -/
theorem exists_literal (n : Number) :
    ∃ literal : Literal, literal.WellFormed ∧ ofLiteral? literal = some n ∧
      n.text.toList = literal.sign ++ literal.chars := by
  cases n with
  | whole value lower upper => exact exists_literal_whole value lower upper
  | float x => exact exists_literal_float x

end Number

/-! ### Numbers as values -/

namespace Json

theorem readScalar_of_isDigit (bound : ℕ) {c : Char} (hc : Char.isDigit c = true)
    (rest : List Char) :
    readScalar bound c rest =
      (readNumber false (c :: rest)).map fun read => (.number read.1, read.2) := by
  unfold readScalar
  split
  all_goals first
    | exact absurd hc (by decide)
    | skip
  rw [if_pos hc]
  cases readNumber false (c :: rest) <;> rfl

/-- The first character of the text of a number. -/
theorem exists_cons_text (n : Number) :
    ∃ c cs, n.text.toList = c :: cs ∧ (c = '-' ∨ Char.isDigit c = true) := by
  obtain ⟨literal, hwf, _, htext⟩ := Number.exists_literal n
  obtain ⟨hne, hall⟩ := Number.isDigits_of_isWhole hwf.whole
  cases hsign : literal.negative with
  | true => exact ⟨'-', literal.chars, by rw [htext, Number.Literal.sign, hsign]; rfl, .inl rfl⟩
  | false =>
      cases hw : literal.whole with
      | nil => exact absurd hw hne
      | cons c cs =>
          have hdigit := hall c (by rw [hw]; exact List.mem_cons_self)
          rw [Number.Literal.sign, hsign, Number.Literal.chars, hw] at htext
          exact ⟨c, _, htext, .inr hdigit⟩

/-- The text of a number is read as that number, if what follows cannot continue it. -/
theorem readScalar_number (bound : ℕ) (n : Number) {c : Char} {cs rest : List Char}
    (htext : n.text.toList = c :: cs) (hr : Ends rest) :
    readScalar bound c (cs ++ rest) = .ok (.number n, rest) := by
  obtain ⟨literal, hwf, hn, hparts⟩ := Number.exists_literal n
  have hread := readNumber_chars hwf hn hr
  rw [htext] at hparts
  cases hsign : literal.negative with
  | true =>
      rw [Number.Literal.sign, hsign, if_pos rfl, List.singleton_append] at hparts
      obtain ⟨rfl, rfl⟩ := List.cons.inj hparts
      rw [hsign] at hread
      simp only [readScalar]
      rw [hread]
      rfl
  | false =>
      rw [Number.Literal.sign, hsign] at hparts
      rw [if_neg (by decide), List.nil_append] at hparts
      have hdigit : Char.isDigit c = true := by
        obtain ⟨hne, hall⟩ := Number.isDigits_of_isWhole hwf.whole
        cases hw : literal.whole with
        | nil => exact absurd hw hne
        | cons d ds =>
            rw [Number.Literal.chars, hw] at hparts
            rw [(List.cons.inj hparts).1]
            exact hall d (by rw [hw]; exact List.mem_cons_self)
      rw [readScalar_of_isDigit bound hdigit, ← List.cons_append, hparts, ← hsign, hread]
      rfl

end Json

end JsonShelf
