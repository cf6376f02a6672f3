/-
**Rounding to binary64 is the interval of the number.**

The nearest number to a quotient is described by `Decimal.intervalOf`: a quotient is rounded to a
number exactly when it lies in the interval of that number.  Everything else about rounding is read
off the intervals, which leave no representable number inside them but their own.

Main results:

* `Decimal.roundDiv_eq`, `Decimal.roundDiv_spec` — the nearest whole number to a quotient;
* `Binary64.nearest?_of_contains` — **a quotient in the interval of a number is rounded to it**;
* `Binary64.contains_of_nearest?` — and to no other;
* `Binary64.units_le_of_contains`, `Binary64.le_units_of_contains` — rounding does not pass a
  representable number.
-/

import JsonShelf.Binary64.Nearest
import JsonShelf.Decimal.Shortest
import Mathlib.Tactic.Linarith
import Mathlib.Tactic.Ring

set_option autoImplicit false

namespace JsonShelf.Decimal

/-! ### The nearest whole number -/

/-- The rounded quotient is at most half away, and an even number if it is exactly half away. -/
theorem roundDiv_spec (num : ℕ) {den : ℕ} (h : 0 < den) :
    2 * roundDiv num den * den ≤ 2 * num + den ∧
      2 * num ≤ (2 * roundDiv num den + 1) * den ∧
      (roundDiv num den % 2 = 1 → 2 * roundDiv num den * den < 2 * num + den ∧
        2 * num < (2 * roundDiv num den + 1) * den) := by
  have hdiv := Nat.div_add_mod num den
  have hmod := Nat.mod_lt num h
  simp only [roundDiv]
  generalize num / den = q at *
  generalize num % den = r at *
  subst hdiv
  split
  · refine ⟨?_, ?_, fun _ => ⟨?_, ?_⟩⟩ <;> nlinarith
  · split
    · refine ⟨?_, ?_, fun _ => ⟨?_, ?_⟩⟩ <;> nlinarith
    · have hr : 2 * r = den := by omega
      rcases Nat.mod_two_eq_zero_or_one q with hq | hq
      · rw [hq]
        refine ⟨?_, ?_, fun hodd => by omega⟩ <;> nlinarith
      · rw [hq]
        refine ⟨?_, ?_, fun hodd => by omega⟩ <;> nlinarith

/-- A whole number that is less than half away, or half away and even, is the rounded quotient. -/
theorem roundDiv_eq {num den n : ℕ} (h : 0 < den) (hlow : 2 * n * den ≤ 2 * num + den)
    (hhigh : 2 * num ≤ (2 * n + 1) * den)
    (hodd : n % 2 = 1 → 2 * n * den < 2 * num + den ∧ 2 * num < (2 * n + 1) * den) :
    roundDiv num den = n := by
  have hspec := roundDiv_spec num h
  generalize roundDiv num den = k at *
  obtain ⟨hlow', hhigh', hodd'⟩ := hspec
  -- two neighbours can only share a midpoint, and one of them is odd
  rcases Nat.lt_trichotomy k n with hlt | heq | hgt
  · have hnext : k + 1 = n := by
      by_contra hne
      have : (k + 2) * den ≤ n * den := Nat.mul_le_mul_right den (by omega)
      nlinarith
    subst hnext
    rcases Nat.mod_two_eq_zero_or_one k with hk | hk
    · have := (hodd (by omega)).1
      nlinarith
    · have := (hodd' hk).2
      nlinarith
  · exact heq
  · have hnext : n + 1 = k := by
      by_contra hne
      have : (n + 2) * den ≤ k * den := Nat.mul_le_mul_right den (by omega)
      nlinarith
    subst hnext
    rcases Nat.mod_two_eq_zero_or_one n with hn | hn
    · have := (hodd' (by omega)).1
      nlinarith
    · have := (hodd hn).2
      nlinarith

/-! ### Intervals -/

theorem Interval.contains_iff {i : Interval} {factor step n : ℕ} :
    i.contains factor step n = true ↔
      i.low * factor ≤ n * step ∧ n * step ≤ i.high * factor ∧
        (i.closed = false → i.low * factor < n * step ∧ n * step < i.high * factor) := by
  unfold Interval.contains
  cases i.closed with
  | true => simp
  | false =>
      simp only [Bool.false_eq_true, if_false, Bool.and_eq_true, decide_eq_true_eq,
        forall_const]
      constructor
      · rintro ⟨hlow, hhigh⟩
        exact ⟨hlow.le, hhigh.le, hlow, hhigh⟩
      · rintro ⟨-, -, h⟩
        exact h

end JsonShelf.Decimal

namespace JsonShelf.Binary64

open Decimal (intervalOf roundDiv)

/-! ### Parts in normal form -/

theorem ofParts?_self (x : Binary64) : ofParts? x.negative x.mantissa x.exponent = some x :=
  dif_pos ⟨x.mantissa_lt, x.exponent_le, x.normal⟩

theorem parts_of_ofParts? {negative : Bool} {mantissa exponent : ℕ} {x : Binary64}
    (h : ofParts? negative mantissa exponent = some x) :
    x.negative = negative ∧ x.mantissa = mantissa ∧ x.exponent = exponent := by
  unfold ofParts? at h
  split at h
  · cases h
    exact ⟨rfl, rfl, rfl⟩
  · cases h

/-- Above the smallest exponent the mantissa has all its bits. -/
theorem le_mantissa {x : Binary64} (h : 0 < x.exponent) : 2 ^ 52 ≤ x.mantissa :=
  x.normal.resolve_left h.ne'

/-! ### The ends of an interval -/

theorem high_intervalOf (x : Binary64) :
    (intervalOf x).high = (4 * x.mantissa + 2) * 2 ^ x.exponent := rfl

theorem closed_intervalOf (x : Binary64) :
    (intervalOf x).closed = decide (x.mantissa % 2 = 0) := rfl

/-- Below the bottom of a binade the interval is half as wide. -/
theorem low_intervalOf_bottom {x : Binary64} (hm : x.mantissa = 2 ^ 52) (he : 0 < x.exponent) :
    (intervalOf x).low + 2 ^ x.exponent = 2 ^ 54 * 2 ^ x.exponent := by
  simp only [intervalOf, hm, he, and_self, if_true]
  generalize 2 ^ x.exponent = p
  omega

theorem low_intervalOf {x : Binary64} (h : ¬(x.mantissa = 2 ^ 52 ∧ 0 < x.exponent)) :
    (intervalOf x).low = (4 * x.mantissa - 2) * 2 ^ x.exponent := by
  simp only [intervalOf, h, if_false]

theorem le_low_intervalOf (x : Binary64) :
    (4 * x.mantissa - 2) * 2 ^ x.exponent ≤ (intervalOf x).low := by
  by_cases h : x.mantissa = 2 ^ 52 ∧ 0 < x.exponent
  · have hlow := low_intervalOf_bottom h.1 h.2
    rw [h.1]
    generalize 2 ^ x.exponent = p at *
    omega
  · rw [low_intervalOf h]

/-! ### Quotients in an interval -/

variable {x y : Binary64} {num den : ℕ}

/-- On the grid of its own exponent, a quotient in the interval is rounded to the mantissa. -/
theorem roundDiv_of_contains (hx : x.mantissa ≠ 0) (hd : 0 < den)
    (h : (intervalOf x).contains den 4 num = true) :
    roundDiv num (den * 2 ^ x.exponent) = x.mantissa := by
  obtain ⟨hlow, hhigh, hodd⟩ := Decimal.Interval.contains_iff.1 h
  have hle := Nat.mul_le_mul_right den (le_low_intervalOf x)
  have hpos : 0 < 2 ^ x.exponent := Nat.two_pow_pos _
  rw [high_intervalOf] at hhigh hodd
  rw [closed_intervalOf] at hodd
  obtain ⟨k, hk⟩ : ∃ k, x.mantissa = k + 1 := ⟨x.mantissa - 1, by omega⟩
  have hfour : 4 * (k + 1) - 2 = 4 * k + 2 := by omega
  rw [hk, hfour] at hle
  rw [hk] at hhigh hodd ⊢
  generalize 2 ^ x.exponent = p at *
  refine Decimal.roundDiv_eq (Nat.mul_pos hd hpos) ?_ ?_ ?_
  · nlinarith
  · nlinarith
  · intro hmod
    have hstrict := hodd (by simpa using hmod)
    constructor <;> nlinarith [hstrict.1, hstrict.2]

theorem log2_div_eq {k : ℕ} (hd : 0 < den) (hlow : 2 ^ k * den ≤ num)
    (hhigh : num < 2 ^ (k + 1) * den) : (num / den).log2 = k := by
  have hle : 2 ^ k ≤ num / den := (Nat.le_div_iff_mul_le hd).2 hlow
  have hne : num / den ≠ 0 := by
    have := Nat.two_pow_pos k
    omega
  exact (Nat.log2_eq_iff hne).2 ⟨hle, (Nat.div_lt_iff_lt_mul hd).2 hhigh⟩

/-- A quotient in the interval lies below the top of the binade. -/
theorem lt_of_contains (hd : 0 < den) (h : (intervalOf x).contains den 4 num = true) :
    num < 2 ^ (53 + x.exponent) * den := by
  obtain ⟨-, hhigh, -⟩ := Decimal.Interval.contains_iff.1 h
  rw [high_intervalOf] at hhigh
  have hmant := x.mantissa_lt
  have hprod : 0 < 2 ^ x.exponent * den := Nat.mul_pos (Nat.two_pow_pos _) hd
  have hle : (4 * x.mantissa + 2) * (2 ^ x.exponent * den) ≤
      (4 * 2 ^ 53 - 2) * (2 ^ x.exponent * den) := Nat.mul_le_mul_right _ (by omega)
  rw [Nat.pow_add]
  generalize 2 ^ x.exponent = p at *
  nlinarith

/-- In the binade of the number the grid is that of its exponent. -/
theorem nearest?_of_log2 (hx : x.mantissa ≠ 0) (hd : 0 < den)
    (h : (intervalOf x).contains den 4 num = true)
    (hexp : (num / den).log2 - 52 = x.exponent) : nearest? x.negative num den = some x := by
  have hmant := x.mantissa_lt
  simp only [nearest?, hexp, roundDiv_of_contains hx hd h]
  rw [if_neg (by omega), ofParts?_self]

/-- Only at the bottom of a binade does the interval reach below the binade. -/
theorem mantissa_eq_of_lt (hexp : 0 < x.exponent) (h : (intervalOf x).contains den 4 num = true)
    (hdown : num < 2 ^ (52 + x.exponent) * den) : x.mantissa = 2 ^ 52 := by
  obtain ⟨hlow, -, -⟩ := Decimal.Interval.contains_iff.1 h
  have hfull := le_mantissa hexp
  by_contra hne
  have hle := Nat.mul_le_mul_right den (le_low_intervalOf x)
  have hmore : (4 * 2 ^ 52 + 2) * (2 ^ x.exponent * den) ≤
      (4 * x.mantissa - 2) * (2 ^ x.exponent * den) := Nat.mul_le_mul_right _ (by omega)
  rw [Nat.pow_add] at hdown
  generalize 2 ^ x.exponent = p at *
  nlinarith

/-- Just below a binade the finer grid reaches its end, and the mantissa carries over. -/
theorem nearest?_of_lt (hd : 0 < den) (hexp : 0 < x.exponent)
    (h : (intervalOf x).contains den 4 num = true)
    (hdown : num < 2 ^ (52 + x.exponent) * den) : nearest? x.negative num den = some x := by
  have hbottom := mantissa_eq_of_lt hexp h hdown
  obtain ⟨hlow, -, -⟩ := Decimal.Interval.contains_iff.1 h
  obtain ⟨e, he⟩ : ∃ e, x.exponent = e + 1 := ⟨x.exponent - 1, by omega⟩
  have hbottomLow := congrArg (· * den) (low_intervalOf_bottom hbottom hexp)
  have hhalf : 2 ^ x.exponent * den = 2 * (2 ^ e * den) := by rw [he, Nat.pow_succ]; ring
  simp only [Nat.add_mul, Nat.mul_assoc, hhalf] at hbottomLow
  have hprod : 0 < 2 ^ e * den := Nat.mul_pos (Nat.two_pow_pos _) hd
  rw [he] at hdown
  have hlog : (num / den).log2 = 52 + e := by
    refine log2_div_eq hd ?_ hdown
    rw [Nat.pow_add, Nat.mul_assoc]
    omega
  have hcarry : roundDiv num (den * 2 ^ e) = 2 ^ 53 := by
    rw [show 52 + (e + 1) = 53 + e by omega, Nat.pow_add, Nat.mul_assoc] at hdown
    rw [Nat.mul_comm den]
    exact Decimal.roundDiv_eq hprod (by omega) (by omega) (by omega)
  simp only [nearest?, hlog, show 52 + e - 52 = e by omega, hcarry, if_true]
  rw [← hbottom, ← he, ofParts?_self]

/-- **A quotient in the interval of a number is rounded to that number.** -/
theorem nearest?_of_contains (hx : x.mantissa ≠ 0) (hd : 0 < den)
    (h : (intervalOf x).contains den 4 num = true) :
    nearest? x.negative num den = some x := by
  have hbelow := lt_of_contains hd h
  rcases Nat.eq_zero_or_pos x.exponent with hzero | hexp
  · -- among the smallest numbers no grid is finer, so being below the binade does not matter
    refine nearest?_of_log2 hx hd h ?_
    rw [hzero] at hbelow ⊢
    have hlt : num / den < 2 ^ 53 := (Nat.div_lt_iff_lt_mul hd).2 hbelow
    rcases Nat.eq_zero_or_pos (num / den) with h0 | h0
    · rw [h0]
      decide
    · have := (Nat.log2_lt (n := num / den) (k := 53) (by omega)).2 hlt
      omega
  · rcases Nat.lt_or_ge num (2 ^ (52 + x.exponent) * den) with hdown | hup
    · exact nearest?_of_lt hd hexp h hdown
    · refine nearest?_of_log2 hx hd h ?_
      rw [show 53 + x.exponent = 52 + x.exponent + 1 by omega] at hbelow
      rw [log2_div_eq hd hup hbelow]
      omega

/-! ### Numbers that are rounded to -/

/-- Above the smallest exponent the quotient fills the binade of its grid. -/
theorem le_of_lt_log2 (hd : 0 < den) (hpos : 0 < (num / den).log2 - 52) :
    2 ^ 52 * (den * 2 ^ ((num / den).log2 - 52)) ≤ num := by
  have hne : num / den ≠ 0 := by
    intro h0
    rw [h0] at hpos
    exact absurd hpos (by decide)
  have hle := Nat.log2_self_le hne
  rw [show (num / den).log2 = 52 + ((num / den).log2 - 52) by omega, Nat.pow_add] at hle
  have := (Nat.le_div_iff_mul_le hd).1 hle
  nlinarith

/-- At the bottom of a binade the interval reaches a quarter of a step down and half a step up. -/
theorem contains_of_bottom (hbottom : x.mantissa = 2 ^ 52) (hexp : 0 < x.exponent)
    (hlow : (2 ^ 54 - 1) * (2 ^ x.exponent * den) ≤ 4 * num)
    (hhigh : 4 * num ≤ (2 ^ 54 + 2) * (2 ^ x.exponent * den)) :
    (intervalOf x).contains den 4 num = true := by
  have hbottomLow := congrArg (· * den) (low_intervalOf_bottom hbottom hexp)
  simp only [Nat.add_mul, Nat.mul_assoc] at hbottomLow
  rw [Decimal.Interval.contains_iff, high_intervalOf, closed_intervalOf, hbottom, Nat.mul_assoc]
  generalize 2 ^ x.exponent * den = step at *
  exact ⟨by omega, by omega, fun hopen => absurd hopen (by decide)⟩

/-- The nearest point of the grid, anywhere else in a binade. -/
theorem contains_of_roundDiv (hd : 0 < den) (hbottom : ¬(x.mantissa = 2 ^ 52 ∧ 0 < x.exponent))
    (hm : roundDiv num (den * 2 ^ x.exponent) = x.mantissa) :
    (intervalOf x).contains den 4 num = true := by
  have hspec := Decimal.roundDiv_spec num (Nat.mul_pos hd (Nat.two_pow_pos x.exponent))
  rw [Decimal.Interval.contains_iff, high_intervalOf, closed_intervalOf, low_intervalOf hbottom]
  rw [hm, Nat.mul_comm den] at hspec
  obtain ⟨hlow, hhigh, hodd⟩ := hspec
  simp only [Nat.mul_assoc (_ - _), Nat.mul_assoc (_ + _)]
  generalize 2 ^ x.exponent * den = step at *
  generalize x.mantissa = m at *
  have hsub : (4 * m - 2) * step ≤ 4 * num ∧ (m % 2 = 1 → (4 * m - 2) * step < 4 * num) := by
    rcases Nat.eq_zero_or_pos m with rfl | h0
    · exact ⟨by simp, fun hm1 => absurd hm1 (by decide)⟩
    · obtain ⟨k, rfl⟩ : ∃ k, m = k + 1 := ⟨m - 1, by omega⟩
      rw [show 4 * (k + 1) - 2 = 4 * k + 2 by omega]
      refine ⟨by nlinarith, ?_⟩
      intro hm1
      have := (hodd hm1).1
      nlinarith
  refine ⟨by omega, by nlinarith, ?_⟩
  intro hopen
  have hm1 : m % 2 = 1 := by simpa using hopen
  have := hsub.2 hm1
  have := (hodd hm1).2
  exact ⟨by omega, by nlinarith⟩

/-- **A quotient lies in the interval of the number that it is rounded to.** -/
theorem contains_of_nearest? {negative : Bool} (hd : 0 < den)
    (h : nearest? negative num den = some x) : (intervalOf x).contains den 4 num = true := by
  simp only [nearest?] at h
  have hfine := @le_of_lt_log2 num den hd
  generalize (num / den).log2 - 52 = e at *
  have hspec := Decimal.roundDiv_spec num (Nat.mul_pos hd (Nat.two_pow_pos e))
  split at h
  · next hcarry =>
    -- the mantissa has carried over: the number is the bottom of the next binade
    obtain ⟨-, hm, he⟩ := parts_of_ofParts? h
    obtain ⟨hlow, hhigh, -⟩ := hspec
    have hhalf : 2 ^ x.exponent * den = 2 * (den * 2 ^ e) := by rw [he, Nat.pow_succ]; ring
    rw [hcarry] at hlow hhigh
    refine contains_of_bottom hm (by omega) ?_ ?_
    · omega
    · omega
  · obtain ⟨-, hm, rfl⟩ := parts_of_ofParts? h
    by_cases hbottom : x.mantissa = 2 ^ 52 ∧ 0 < x.exponent
    · have hnum := hfine hbottom.2
      obtain ⟨-, hhigh, -⟩ := hspec
      rw [← hm, hbottom.1, Nat.mul_comm den] at hhigh
      rw [Nat.mul_comm den] at hnum
      refine contains_of_bottom hbottom.1 hbottom.2 ?_ ?_
      · omega
      · omega
    · exact contains_of_roundDiv hd hbottom hm.symm

/-! ### Representable numbers are not passed -/

/-- A greater number is at least a whole step of the mantissa greater. -/
theorem succ_mantissa_le (h : x.units < y.units) :
    (x.mantissa + 1) * 2 ^ x.exponent ≤ y.units := by
  unfold units at *
  rcases Nat.lt_or_ge y.exponent x.exponent with hlt | hge
  · have hfull := le_mantissa (x := x) (by omega)
    have hmant := y.mantissa_lt
    obtain ⟨d, hd⟩ : ∃ d, x.exponent = y.exponent + 1 + d :=
      ⟨x.exponent - y.exponent - 1, by omega⟩
    have hpow : 2 ^ x.exponent = 2 ^ y.exponent * 2 * 2 ^ d := by
      rw [hd, pow_add, pow_succ]
    have hd1 : 1 ≤ 2 ^ d := Nat.one_le_two_pow
    have hmul : 2 ^ 52 * (2 ^ y.exponent * 2 * 1) ≤ x.mantissa * (2 ^ y.exponent * 2 * 2 ^ d) :=
      Nat.mul_le_mul hfull (Nat.mul_le_mul_left _ hd1)
    have hlty : y.mantissa * 2 ^ y.exponent < 2 ^ 53 * 2 ^ y.exponent :=
      Nat.mul_lt_mul_of_pos_right hmant (Nat.two_pow_pos _)
    rw [hpow] at h
    omega
  · obtain ⟨d, hd⟩ : ∃ d, y.exponent = d + x.exponent := ⟨y.exponent - x.exponent, by omega⟩
    rw [hd, pow_add, ← Nat.mul_assoc] at h ⊢
    exact Nat.mul_le_mul_right _ (Nat.lt_of_mul_lt_mul_right h)

theorem high_lt_of_units_lt (h : x.units < y.units) : (intervalOf x).high < 4 * y.units := by
  have hstep := succ_mantissa_le h
  have hpos : 0 < 2 ^ x.exponent := Nat.two_pow_pos _
  rw [high_intervalOf]
  generalize 2 ^ x.exponent = p at *
  nlinarith

theorem lt_low_of_units_lt (h : y.units < x.units) : 4 * y.units < (intervalOf x).low := by
  have hpos : 0 < 2 ^ x.exponent := Nat.two_pow_pos _
  rcases Nat.lt_or_ge y.exponent x.exponent with hlt | hge
  · have hfull := le_mantissa (x := x) (by omega)
    have hmant := y.mantissa_lt
    obtain ⟨d, hd⟩ : ∃ d, x.exponent = y.exponent + d + 1 :=
      ⟨x.exponent - y.exponent - 1, by omega⟩
    have hunits : y.units ≤ (2 ^ 53 - 1) * 2 ^ (y.exponent + d) := by
      unfold units
      exact Nat.mul_le_mul (by omega) (Nat.pow_le_pow_right (by decide) (by omega))
    have hlow : (2 ^ 54 - 1) * 2 ^ x.exponent ≤ (intervalOf x).low := by
      by_cases hbottom : x.mantissa = 2 ^ 52 ∧ 0 < x.exponent
      · have := low_intervalOf_bottom hbottom.1 hbottom.2
        generalize 2 ^ x.exponent = p at *
        omega
      · rw [low_intervalOf hbottom]
        exact Nat.mul_le_mul_right _ (by omega)
    have hhalf : 2 ^ x.exponent = 2 ^ (y.exponent + d) * 2 := by rw [hd, pow_succ]
    rw [hhalf] at hlow hpos
    generalize 2 ^ (y.exponent + d) = p at *
    omega
  · obtain ⟨d, hd⟩ : ∃ d, y.exponent = d + x.exponent := ⟨y.exponent - x.exponent, by omega⟩
    have hle := le_low_intervalOf x
    have hunits : y.units = y.mantissa * 2 ^ d * 2 ^ x.exponent := by
      rw [units, hd, pow_add, Nat.mul_assoc]
    rw [hunits] at h ⊢
    have hk := Nat.lt_of_mul_lt_mul_right h
    generalize y.mantissa * 2 ^ d = k at *
    have hmul : (4 * k + 2) * 2 ^ x.exponent ≤ (4 * x.mantissa - 2) * 2 ^ x.exponent :=
      Nat.mul_le_mul_right _ (by omega)
    generalize 2 ^ x.exponent = p at *
    nlinarith

/-- What lies above a representable number is not rounded below it. -/
theorem le_units_of_contains (hd : 0 < den) (h : (intervalOf x).contains den 4 num = true)
    (hy : y.units * den ≤ num) : y.units ≤ x.units := by
  by_contra hlt
  have hhigh := high_lt_of_units_lt (Nat.lt_of_not_le hlt)
  have hnum := (Decimal.Interval.contains_iff.1 h).2.1
  have := Nat.mul_lt_mul_of_pos_right hhigh hd
  nlinarith

/-- What lies below a representable number is not rounded above it. -/
theorem units_le_of_contains (hd : 0 < den) (h : (intervalOf x).contains den 4 num = true)
    (hy : num ≤ y.units * den) : x.units ≤ y.units := by
  by_contra hlt
  have hlow := lt_low_of_units_lt (Nat.lt_of_not_le hlt)
  have hnum := (Decimal.Interval.contains_iff.1 h).1
  have := Nat.mul_lt_mul_of_pos_right hlow hd
  nlinarith

end JsonShelf.Binary64
