/-
**Rounding keeps the order.**

Rounding never passes a number of binary64, with either sign, and leaves the numbers of binary64
where they are.  So a sum with one is rounded to a number that is no smaller, and a whole number
that binary64 has is found again.

Main results:

* `Binary64.exists_nearest?` — what is not too large has a nearest number;
* `Binary64.le_of_ofUnits?`, `Binary64.of_ofUnits?_le` — **rounding does not pass a number**;
* `Binary64.ofUnits?_of_near` — what is near to a number is rounded to it;
* `Binary64.exists_ofUnits?_signedUnits` — numbers are rounded to themselves;
* `Binary64.signedUnits_ofInt` — a whole number that binary64 has keeps its value;
* `Binary64.exists_signedUnits_eq` — binary64 has all whole numbers up to `2 ^ 53`;
* `Binary64.exists_addOne?` — **the sum of a number with one is in range**;
* `Binary64.lt_of_addOne?` — a number below `2 ^ 53` is less than its rounded sum with one.
-/

import JsonShelf.Proofs.Binary64.Rounding

set_option autoImplicit false

namespace JsonShelf.Binary64

open Decimal (intervalOf)

variable {x y : Binary64} {value : ℤ}

/-! ### The scale -/

/-- The scale as a power of two; the exponent is named so that nobody computes the power. -/
theorem scale_eq : ∃ k, k = 1074 ∧ scale = 2 ^ k :=
  ⟨1074, rfl, by decide +kernel⟩

theorem one_le_scale : 1 ≤ scale := by
  obtain ⟨k, -, hscale⟩ := scale_eq
  rw [hscale]
  exact Nat.one_le_two_pow

/-! ### Signs -/

theorem negative_of_nearest? {negative : Bool} {num den : ℕ}
    (h : nearest? negative num den = some x) : x.negative = negative := by
  simp only [nearest?] at h
  split at h
  · exact (parts_of_ofParts? h).1
  · exact (parts_of_ofParts? h).1

theorem signedUnits_of_negative (h : x.negative = true) : x.signedUnits = -(x.units : ℤ) := by
  rw [signedUnits, h, if_pos rfl]

theorem signedUnits_of_not_negative (h : x.negative = false) : x.signedUnits = x.units := by
  rw [signedUnits, h, if_neg Bool.false_ne_true]

theorem natAbs_signedUnits (x : Binary64) : x.signedUnits.natAbs = x.units := by
  unfold signedUnits
  split <;> omega

/-! ### The range of rounding -/

/-- A quotient that is not too large has a nearest number. -/
theorem exists_nearest? (negative : Bool) {num den k : ℕ} (hk : k ≤ 2097)
    (h : num / den < 2 ^ k) : ∃ x, nearest? negative num den = some x := by
  have hfine : (num / den).log2 - 52 ≤ 2044 := by
    rcases Nat.eq_zero_or_pos (num / den) with h0 | hpos
    · rw [h0]
      exact Nat.zero_le _
    · have := (Nat.log2_lt hpos.ne').2 h
      omega
  have hself := Nat.lt_log2_self (n := num / den)
  have hlow := Decimal.le_roundDiv num (den * 2 ^ ((num / den).log2 - 52))
  have hhigh := Decimal.roundDiv_le num (den * 2 ^ ((num / den).log2 - 52))
  have hquotient := Nat.div_div_eq_div_mul num den (2 ^ ((num / den).log2 - 52))
  rw [← hquotient] at hlow hhigh
  -- on the grid of the quotient there are at most 53 bits, and all of them unless it is the finest
  have hmax : num / den / 2 ^ ((num / den).log2 - 52) < 2 ^ 53 := by
    rw [Nat.div_lt_iff_lt_mul (Nat.two_pow_pos _), ← pow_add]
    exact hself.trans_le (Nat.pow_le_pow_right (by decide) (by omega))
  have hmin : (num / den).log2 - 52 = 0 ∨ 2 ^ 52 ≤ num / den / 2 ^ ((num / den).log2 - 52) := by
    rcases Nat.eq_zero_or_pos ((num / den).log2 - 52) with h0 | hpos
    · exact .inl h0
    · right
      have hne : num / den ≠ 0 := by
        intro h0
        rw [h0] at hpos
        exact absurd hpos (by decide)
      rw [Nat.le_div_iff_mul_le (Nat.two_pow_pos _), ← pow_add]
      exact (Nat.pow_le_pow_right (by decide) (by omega)).trans (Nat.log2_self_le hne)
  simp only [nearest?]
  generalize Decimal.roundDiv num (den * 2 ^ ((num / den).log2 - 52)) = mantissa at *
  generalize num / den / 2 ^ ((num / den).log2 - 52) = quotient at *
  generalize (num / den).log2 - 52 = exponent at *
  split
  · exact ⟨_, dif_pos ⟨by decide, by omega, .inr le_rfl⟩⟩
  · exact ⟨_, dif_pos ⟨by omega, by omega, by omega⟩⟩

/-! ### Rounding and order -/

/-- The sign and the magnitude of a rounded value. -/
theorem of_ofUnits? (h : ofUnits? value = some x) :
    x.negative = decide (value < 0) ∧ (intervalOf x).contains 1 4 value.natAbs = true :=
  ⟨negative_of_nearest? h, contains_of_nearest? Nat.one_pos h⟩

/-- **What lies above a number is not rounded below it.** -/
theorem le_of_ofUnits? (h : ofUnits? value = some x) (hy : y.signedUnits ≤ value) :
    y.signedUnits ≤ x.signedUnits := by
  obtain ⟨hsign, hcontains⟩ := of_ofUnits? h
  have hmagnitude := natAbs_signedUnits y
  rcases lt_or_ge value 0 with hneg | hpos
  · rw [signedUnits_of_negative (hsign.trans (decide_eq_true hneg))]
    have hle := units_le_of_contains (y := y) Nat.one_pos hcontains (by omega)
    omega
  · rw [signedUnits_of_not_negative (hsign.trans (decide_eq_false (by omega)))]
    rcases lt_or_ge y.signedUnits 0 with hy' | hy'
    · omega
    · have hle := le_units_of_contains (y := y) Nat.one_pos hcontains (by omega)
      omega

/-- **What lies below a number is not rounded above it.** -/
theorem of_ofUnits?_le (h : ofUnits? value = some x) (hy : value ≤ y.signedUnits) :
    x.signedUnits ≤ y.signedUnits := by
  obtain ⟨hsign, hcontains⟩ := of_ofUnits? h
  have hmagnitude := natAbs_signedUnits y
  rcases lt_or_ge value 0 with hneg | hpos
  · rw [signedUnits_of_negative (hsign.trans (decide_eq_true hneg))]
    rcases lt_or_ge y.signedUnits 0 with hy' | hy'
    · have hle := le_units_of_contains (y := y) Nat.one_pos hcontains (by omega)
      omega
    · omega
  · rw [signedUnits_of_not_negative (hsign.trans (decide_eq_false (by omega)))]
    have hle := units_le_of_contains (y := y) Nat.one_pos hcontains (by omega)
    omega

/-- What differs from a number by less than a quarter of its last place lies in its interval. -/
theorem contains_of_near {num : ℕ} (hx : x.mantissa ≠ 0)
    (hlow : 4 * x.units < 4 * num + 2 ^ x.exponent)
    (hhigh : 4 * num < 4 * x.units + 2 ^ x.exponent) :
    (intervalOf x).contains 1 4 num = true := by
  have hpos : 0 < 2 ^ x.exponent := Nat.two_pow_pos _
  rw [units] at hlow hhigh
  rw [Decimal.Interval.contains_iff, high_intervalOf]
  by_cases hbottom : x.mantissa = 2 ^ 52 ∧ 0 < x.exponent
  · have hbottomLow := low_intervalOf_bottom hbottom.1 hbottom.2
    rw [hbottom.1] at hlow hhigh ⊢
    generalize 2 ^ x.exponent = p at *
    refine ⟨by omega, by omega, fun _ => ⟨by omega, by omega⟩⟩
  · rw [low_intervalOf hbottom]
    obtain ⟨m, hm⟩ : ∃ m, x.mantissa = m + 1 := ⟨x.mantissa - 1, by omega⟩
    have hsub : 4 * x.mantissa - 2 = 4 * m + 2 := by omega
    rw [hsub]
    rw [hm] at hlow hhigh ⊢
    generalize 2 ^ x.exponent = p at *
    refine ⟨by nlinarith, by nlinarith, fun _ => ⟨by nlinarith, by nlinarith⟩⟩

/-- **What differs from a number by less than a quarter of its last place is rounded to it.** -/
theorem ofUnits?_of_near (hx : x.mantissa ≠ 0)
    (h : 4 * (value - x.signedUnits).natAbs < 2 ^ x.exponent) : ofUnits? value = some x := by
  have hunits : 2 ^ x.exponent ≤ x.units :=
    Nat.le_mul_of_pos_left _ (Nat.pos_of_ne_zero hx)
  -- the last place is no greater than the number, so the sign is the same
  have hnear : decide (value < 0) = x.negative ∧
      4 * x.units < 4 * value.natAbs + 2 ^ x.exponent ∧
      4 * value.natAbs < 4 * x.units + 2 ^ x.exponent := by
    cases hneg : x.negative with
    | true =>
        rw [signedUnits_of_negative hneg] at h
        exact ⟨decide_eq_true (by omega), by omega, by omega⟩
    | false =>
        rw [signedUnits_of_not_negative hneg] at h
        exact ⟨decide_eq_false (by omega), by omega, by omega⟩
  obtain ⟨hsign, hlow, hhigh⟩ := hnear
  rw [ofUnits?, hsign]
  exact nearest?_of_contains hx Nat.one_pos (contains_of_near hx hlow hhigh)

/-- Numbers are rounded to themselves; only the sign of zero may change. -/
theorem exists_ofUnits?_signedUnits (x : Binary64) :
    ∃ y, ofUnits? x.signedUnits = some y ∧ y.signedUnits = x.signedUnits := by
  have hexists : ∃ y, ofUnits? x.signedUnits = some y := by
    by_cases hx : x.mantissa = 0
    · have hzero : x.signedUnits = 0 := by
        rw [← Int.natAbs_eq_zero, natAbs_signedUnits, units, hx, Nat.zero_mul]
      rw [hzero]
      exact ⟨zero false, rfl⟩
    · refine ⟨x, ofUnits?_of_near hx ?_⟩
      rw [Int.sub_self]
      exact Nat.two_pow_pos _
  obtain ⟨y, hy⟩ := hexists
  exact ⟨y, hy, le_antisymm (of_ofUnits?_le hy le_rfl) (le_of_ofUnits? hy le_rfl)⟩

/-! ### Whole numbers -/

theorem ofInt?_eq_ofUnits? (value : ℤ) : ofInt? value = ofUnits? (value * scale) := by
  have hscale := one_le_scale
  have habs : (value * scale).natAbs = value.natAbs * scale := by
    rw [Int.natAbs_mul, Int.natAbs_natCast]
  have hsign : (value * scale < 0) ↔ value < 0 := by
    constructor <;> intro h <;> nlinarith
  rw [ofInt?, ofUnits?, habs, decide_eq_decide.2 hsign]

/-- A whole number that binary64 has keeps its value. -/
theorem signedUnits_ofInt (h : x.signedUnits = value * scale) :
    (ofInt value).signedUnits = value * scale := by
  obtain ⟨y, hy, hvalue⟩ := exists_ofUnits?_signedUnits x
  rw [ofInt, ofInt?_eq_ofUnits?, ← h, hy]
  exact hvalue

/-- A magnitude with its sign. -/
theorem exists_signedUnits_of_units {n : ℕ} (h : ∃ x : Binary64, x.units = n) (value : ℤ)
    (hn : value.natAbs = n) : ∃ x : Binary64, x.signedUnits = value := by
  obtain ⟨x, hx⟩ := h
  have hmagnitude : ({ x with negative := decide (value < 0) } : Binary64).units = x.units := rfl
  refine ⟨{ x with negative := decide (value < 0) }, ?_⟩
  rcases lt_or_ge value 0 with hneg | hpos
  · rw [signedUnits_of_negative (decide_eq_true hneg), hmagnitude]
    omega
  · rw [signedUnits_of_not_negative (decide_eq_false (by omega)), hmagnitude]
    omega

theorem exists_units_of_parts {mantissa exponent : ℕ} (hm : mantissa < 2 ^ 53)
    (he : exponent ≤ 2045) (hn : exponent = 0 ∨ 2 ^ 52 ≤ mantissa) :
    ∃ x : Binary64, x.units = mantissa * 2 ^ exponent :=
  ⟨⟨false, mantissa, exponent, hm, he, hn⟩, rfl⟩

/-- A number that is not zero, shifted up until it has 53 bits. -/
theorem exists_full_mantissa {n : ℕ} (hpos : 0 < n) (h : n < 2 ^ 53) :
    ∃ d ≤ 52, n * 2 ^ d < 2 ^ 53 ∧ 2 ^ 52 ≤ n * 2 ^ d := by
  have hbits : n.log2 < 53 := (Nat.log2_lt hpos.ne').2 h
  have hlow := Nat.log2_self_le hpos.ne'
  have hhigh := Nat.lt_log2_self (n := n)
  obtain ⟨d, hd⟩ : ∃ d, n.log2 + d = 52 := ⟨52 - n.log2, by omega⟩
  refine ⟨d, by omega, ?_, ?_⟩
  · have hsum : 2 ^ 53 = 2 ^ (n.log2 + 1) * 2 ^ d := by
      rw [← pow_add]
      congr 1
      omega
    rw [hsum]
    exact Nat.mul_lt_mul_of_pos_right hhigh (Nat.two_pow_pos d)
  · rw [← hd, pow_add]
    exact Nat.mul_le_mul_right _ hlow

/-- Binary64 has all whole numbers of at most 53 bits, and the next power of two. -/
theorem exists_units_eq {n : ℕ} (h : n ≤ 2 ^ 53) : ∃ x : Binary64, x.units = n * scale := by
  rcases Nat.eq_zero_or_pos n with rfl | hpos
  · exact ⟨zero false, by rw [units_zero, Nat.zero_mul]⟩
  rcases Nat.eq_or_lt_of_le h with rfl | hlt
  · obtain ⟨k, hk, hscale⟩ := scale_eq
    obtain ⟨x, hx⟩ := @exists_units_of_parts (2 ^ 52) (k + 1) (by decide) (by omega) (.inr le_rfl)
    refine ⟨x, ?_⟩
    rw [hx, hscale, pow_succ 2 k]
    ring
  · obtain ⟨d, hd, hmax, hmin⟩ := exists_full_mantissa hpos hlt
    obtain ⟨k, hk, hscale⟩ := scale_eq
    obtain ⟨x, hx⟩ := @exists_units_of_parts (n * 2 ^ d) (k - d) hmax (by omega) (.inr hmin)
    have hsum : d + (k - d) = k := by omega
    exact ⟨x, by rw [hx, Nat.mul_assoc, ← pow_add, hsum, hscale]⟩

theorem exists_signedUnits_eq {value : ℤ} (h : value.natAbs ≤ 2 ^ 53) :
    ∃ x : Binary64, x.signedUnits = value * scale := by
  refine exists_signedUnits_of_units (exists_units_eq h) (value * scale) ?_
  rw [Int.natAbs_mul, Int.natAbs_natCast]

/-- Binary64 has the least whole number that no signed word of 64 bits holds. -/
theorem exists_signedUnits_eq_twoPow63 : ∃ x : Binary64, x.signedUnits = 2 ^ 63 * scale := by
  have hunits : ∃ x : Binary64, x.units = 2 ^ 63 * scale := by
    obtain ⟨k, hk, hscale⟩ := scale_eq
    obtain ⟨x, hx⟩ := @exists_units_of_parts (2 ^ 52) (k + 11) (by decide) (by omega) (.inr le_rfl)
    refine ⟨x, ?_⟩
    rw [hx, hscale, pow_add 2 k]
    ring
  have habs : (2 ^ 63 : ℤ).natAbs = 2 ^ 63 := by decide
  refine exists_signedUnits_of_units hunits _ ?_
  rw [Int.natAbs_mul, Int.natAbs_natCast, habs]

/-- Whole numbers of 64 bits are in range. -/
theorem exists_ofInt? (value : ℤ) (h : value.natAbs ≤ 2 ^ 64) : ∃ x, ofInt? value = some x := by
  refine exists_nearest? _ (k := 1139) (by omega) ?_
  obtain ⟨k, hk, hscale⟩ := scale_eq
  obtain ⟨l, hl⟩ : ∃ l, l = 65 := ⟨65, rfl⟩
  have hsum : 1139 = l + k := by omega
  have hlt : value.natAbs < 2 ^ l := by
    rw [hl]
    exact h.trans_lt (by decide)
  rw [Nat.div_one, hscale, hsum, pow_add]
  exact Nat.mul_lt_mul_of_pos_right hlt (Nat.two_pow_pos k)

/-- Whole numbers of 64 bits that no signed word holds are not rounded to ones that it holds. -/
theorem le_signedUnits_ofInt (hlow : 2 ^ 63 ≤ value) (hhigh : value < 2 ^ 64) :
    2 ^ 63 * scale ≤ (ofInt value).signedUnits := by
  obtain ⟨x, hx⟩ := exists_ofInt? value (by omega)
  obtain ⟨y, hy⟩ := exists_signedUnits_eq_twoPow63
  have hround : ofUnits? (value * scale) = some x := by rw [← ofInt?_eq_ofUnits?, hx]
  have hscale := one_le_scale
  rw [ofInt, hx, Option.getD_some, ← hy]
  refine le_of_ofUnits? hround ?_
  rw [hy]
  exact mul_le_mul_of_nonneg_right hlow (by omega)

theorem signedUnits_of_toInt? (h : x.toInt? = some value) : x.signedUnits = value * scale := by
  unfold toInt? at h
  split at h
  · next hdvd =>
    cases h
    exact (Int.ediv_mul_cancel (Int.dvd_of_emod_eq_zero hdvd)).symm
  · cases h

theorem toInt?_of_signedUnits (h : x.signedUnits = value * scale) : x.toInt? = some value := by
  have hscale : (scale : ℤ) ≠ 0 := Int.natCast_ne_zero.2 (Nat.one_le_iff_ne_zero.1 one_le_scale)
  rw [toInt?, h, if_pos (Int.mul_emod_left _ _), Int.mul_ediv_cancel _ hscale]

/-! ### One more -/

theorem addOne?_eq_ofUnits? (x : Binary64) : x.addOne? = ofUnits? (x.signedUnits + scale) := rfl

/-- **The sum of a number with one is in range.**  Among the small numbers there is room; among the
large ones one is less than a quarter of the last place, and the sum is rounded back. -/
theorem exists_addOne? (x : Binary64) : ∃ y, x.addOne? = some y := by
  obtain ⟨k, hk, hscale⟩ := scale_eq
  have hmagnitude := natAbs_signedUnits x
  rw [addOne?_eq_ofUnits?]
  rcases Nat.lt_or_ge x.exponent (k + 3) with hsmall | hlarge
  · refine exists_nearest? _ (k := k + 57) (by omega) ?_
    have hunits : x.units < 2 ^ (k + 56) := by
      have hmantissa := Nat.mul_lt_mul_of_pos_right x.mantissa_lt (Nat.two_pow_pos x.exponent)
      rw [← pow_add] at hmantissa
      exact hmantissa.trans_le (Nat.pow_le_pow_right (by decide) (by omega))
    have hone : scale ≤ 2 ^ (k + 56) := by
      rw [hscale]
      exact Nat.pow_le_pow_right (by decide) (by omega)
    rw [Nat.div_one, pow_succ 2 (k + 56)]
    omega
  · have hfull := le_mantissa (x := x) (by omega)
    have hone : 2 ^ (k + 3) ≤ 2 ^ x.exponent := Nat.pow_le_pow_right (by decide) hlarge
    have hscalePos := one_le_scale
    rw [pow_add, ← hscale] at hone
    exact ⟨x, ofUnits?_of_near (by omega) (by omega)⟩

/-- The rounded sum with one is no smaller. -/
theorem le_of_addOne? (h : x.addOne? = some y) : x.signedUnits ≤ y.signedUnits :=
  le_of_ofUnits? h (by omega)

/-- Up to `2 ^ 53` the rounded sum with one is greater: there is a whole number in between. -/
theorem lt_of_addOne? (hx : x.signedUnits.natAbs < 2 ^ 53 * scale) (h : x.addOne? = some y) :
    x.signedUnits < y.signedUnits := by
  have hscale : (0 : ℤ) < scale := by exact_mod_cast one_le_scale
  have hdiv := Int.mul_ediv_add_emod x.signedUnits scale
  have hmod := Int.emod_nonneg x.signedUnits hscale.ne'
  have hlt := Int.emod_lt_of_pos x.signedUnits hscale
  have hsize : (x.signedUnits / scale + 1).natAbs ≤ 2 ^ 53 := by
    have hbig : (x.signedUnits.natAbs : ℤ) < 2 ^ 53 * scale := by omega
    have hupper : x.signedUnits / scale < 2 ^ 53 := by
      refine Int.ediv_lt_of_lt_mul hscale ?_
      exact lt_of_le_of_lt Int.le_natAbs hbig
    have hlower : -(2 ^ 53) ≤ x.signedUnits / scale := by
      refine Int.le_ediv_of_mul_le hscale ?_
      omega
    omega
  obtain ⟨z, hz⟩ := exists_signedUnits_eq hsize
  have hbetween : z.signedUnits ≤ x.signedUnits + scale := by rw [hz]; nlinarith
  have := le_of_ofUnits? h hbetween
  rw [hz] at this
  nlinarith

end JsonShelf.Binary64
