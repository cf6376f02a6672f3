/-
**The shortest decimal reads back.**

The search for the shortest decimal goes from coarse grids to fine ones.  It starts close enough to
the finest grid needed to reach a grid whose step is less than half the interval of the number, and
on such a grid there is always a point.  Whatever point it stops at lies in the interval, and what
lies in the interval is rounded to the number.

Main definitions:

* `Decimal.Interval.Holds` — the interval holds `digits * 10 ^ power`.

Main results:

* `Decimal.gridPoint?_isSome` — a fine grid has a point in the interval;
* `Decimal.holds_shortest` — the search ends inside the interval;
* `Decimal.width_le_of_holds`, `Decimal.le_width_of_holds` — a decimal in the interval of a number
  is neither very large nor very small;
* `Decimal.ofDecimal?_of_holds`, `Decimal.ofDecimal?_shortest` — **a decimal in the interval of a
  number, and so its shortest decimal, is read as that number**.
-/

import JsonShelf.Proofs.Binary64.Rounding
import JsonShelf.Proofs.Decimal.Digits
import Mathlib.Tactic.NormNum

set_option autoImplicit false

namespace JsonShelf

theorem Binary64.scale_pos : 0 < Binary64.scale := by decide +kernel

/-- The scale as a power of two; the exponent is named so that nobody computes the power. -/
theorem Binary64.four_mul_scale : ∃ k, k = 1076 ∧ 4 * Binary64.scale = 2 ^ k :=
  ⟨1076, rfl, by decide +kernel⟩

namespace Decimal

/-! ### Decimals in an interval -/

/-- Does the interval hold `digits * 10 ^ power`? -/
def Interval.Holds (i : Interval) (digits : ℕ) (power : ℤ) : Prop :=
  i.contains (10 ^ (-power).toNat) (4 * Binary64.scale * 10 ^ power.toNat) digits = true

theorem Interval.contains_congr {i : Interval} {factor step n step' n' : ℕ}
    (h : n * step = n' * step') : i.contains factor step n = i.contains factor step' n' := by
  simp only [Interval.contains, h]

theorem Interval.contains_mul_factor (i : Interval) (factor step n : ℕ) {k : ℕ} (hk : 0 < k) :
    i.contains (factor * k) step (n * k) = i.contains factor step n := by
  have hswap : n * k * step = n * step * k := by ring
  simp only [Interval.contains, hswap, ← Nat.mul_assoc, Nat.mul_le_mul_right_iff hk,
    Nat.mul_lt_mul_right hk]

/-- The value of a decimal does not depend on how many zeros end its digits. -/
theorem Interval.holds_mul_ten (i : Interval) (digits : ℕ) (power : ℤ) :
    i.Holds (digits * 10) (power - 1) ↔ i.Holds digits power := by
  unfold Interval.Holds
  rcases lt_or_ge 0 power with hpos | hneg
  · have h1 : (-(power - 1)).toNat = (-power).toNat := by omega
    have h2 : power.toNat = (power - 1).toNat + 1 := by omega
    rw [h1, h2, pow_succ]
    refine iff_of_eq (congrArg (· = true) (Interval.contains_congr ?_))
    generalize Binary64.scale = s
    ring
  · have h1 : (-(power - 1)).toNat = (-power).toNat + 1 := by omega
    have h2 : (power - 1).toNat = power.toNat := by omega
    rw [h1, h2, pow_succ, Interval.contains_mul_factor _ _ _ _ (by decide)]

theorem Interval.holds_mul_pow (i : Interval) (digits : ℕ) (power : ℤ) (k : ℕ) :
    i.Holds (digits * 10 ^ k) (power - k) ↔ i.Holds digits power := by
  induction k with
  | zero => simp
  | succ k ih =>
      have hpow : digits * 10 ^ (k + 1) = digits * 10 ^ k * 10 := by rw [pow_succ, Nat.mul_assoc]
      have hsub : power - ((k + 1 : ℕ) : ℤ) = power - k - 1 := by push_cast; ring
      rw [hpow, hsub, Interval.holds_mul_ten, ih]

/-! ### The search -/

theorem holds_of_gridPoint? {i : Interval} {power : ℤ} {n : ℕ} (h : gridPoint? i power = some n) :
    i.Holds n power := by
  simp only [gridPoint?] at h
  unfold Interval.Holds
  generalize i.centre * 10 ^ (-power).toNat / (4 * Binary64.scale * 10 ^ power.toNat) = g at *
  split at h
  · cases h
  · next hdown _ =>
    cases h
    exact hdown
  · next _ hup =>
    cases h
    exact hup
  · next hdown hup =>
    split at h
    · cases h
      exact hdown
    · split at h
      · cases h
        exact hup
      · cases h
        rcases Nat.mod_two_eq_zero_or_one g with hg | hg
        · rw [hg]
          exact hdown
        · rw [hg]
          exact hup

/-- A grid whose step is less than half the interval has a point in it. -/
theorem gridPoint?_isSome {x : Binary64} {power : ℤ}
    (hfine : 4 * Binary64.scale * 10 ^ power.toNat < 2 * 2 ^ x.exponent * 10 ^ (-power).toNat) :
    (gridPoint? (intervalOf x) power).isSome = true := by
  have hstep : 0 < 4 * Binary64.scale * 10 ^ power.toNat :=
    Nat.mul_pos (Nat.mul_pos (by decide) Binary64.scale_pos) (Nat.pow_pos (by decide))
  have hup : (intervalOf x).contains (10 ^ (-power).toNat) (4 * Binary64.scale * 10 ^ power.toNat)
      ((intervalOf x).centre * 10 ^ (-power).toNat / (4 * Binary64.scale * 10 ^ power.toNat) + 1) =
        true := by
    have hdiv := Nat.div_add_mod ((intervalOf x).centre * 10 ^ (-power).toNat)
      (4 * Binary64.scale * 10 ^ power.toNat)
    have hmod := Nat.mod_lt ((intervalOf x).centre * 10 ^ (-power).toNat) hstep
    have hlow : (intervalOf x).low ≤ (intervalOf x).centre := Nat.mul_le_mul_right _ (by
      split <;> omega)
    have hhigh : (intervalOf x).high = (intervalOf x).centre + 2 * 2 ^ x.exponent :=
      Nat.add_mul _ _ _
    have hlow' := Nat.mul_le_mul_right (10 ^ (-power).toNat) hlow
    have hhigh' : (intervalOf x).high * 10 ^ (-power).toNat =
        (intervalOf x).centre * 10 ^ (-power).toNat +
          2 * 2 ^ x.exponent * 10 ^ (-power).toNat := by
      rw [hhigh, Nat.add_mul]
    rw [Interval.contains_iff, hhigh', Nat.add_mul, Nat.one_mul]
    generalize (intervalOf x).centre * 10 ^ (-power).toNat = c at *
    generalize 4 * Binary64.scale * 10 ^ power.toNat = step at *
    rw [Nat.mul_comm step] at hdiv
    exact ⟨by omega, by omega, fun _ => ⟨by omega, by omega⟩⟩
  simp only [gridPoint?]
  split
  · next h => rw [hup] at h; cases h
  · rfl
  · rfl
  · split
    · rfl
    · split <;> rfl

/-- The search ends inside the interval if one of its grids has a point there. -/
theorem holds_coarsest {i : Interval} {steps : ℕ} {power : ℤ} {k : ℕ} (hk : k < steps)
    (h : (gridPoint? i (power - k)).isSome = true) :
    i.Holds (coarsest i steps power).1 (coarsest i steps power).2 := by
  induction steps generalizing power k with
  | zero => omega
  | succ steps ih =>
      simp only [coarsest]
      split
      · next n hn => exact holds_of_gridPoint? hn
      · next hn =>
        cases k with
        | zero =>
            rw [Nat.cast_zero, Int.sub_zero, hn] at h
            cases h
        | succ k =>
            refine ih (k := k) (by omega) ?_
            rwa [show power - 1 - (k : ℤ) = power - ((k + 1 : ℕ) : ℤ) by push_cast; ring]

/-! ### The last grid is fine enough -/

theorem high_lt (x : Binary64) : (intervalOf x).high < 2 ^ (55 + x.exponent) := by
  have hmant := x.mantissa_lt
  rw [Binary64.high_intervalOf, pow_add]
  exact Nat.mul_lt_mul_of_pos_right (by omega) (Nat.two_pow_pos _)

theorem log2_high_le (x : Binary64) : (intervalOf x).high.log2 ≤ 54 + x.exponent := by
  have hne : (intervalOf x).high ≠ 0 :=
    (Nat.mul_pos (by omega : 0 < 4 * x.mantissa + 2) (Nat.two_pow_pos _)).ne'
  have := (Nat.log2_lt hne).2 (high_lt x)
  omega

/-- Ten digits are more than 33 bits. -/
theorem two_pow_le_ten_pow (n : ℕ) : 2 ^ (33 * n) ≤ 10 ^ (10 * n) := by
  rw [pow_mul, pow_mul]
  exact Nat.pow_le_pow_left (by norm_num) n

/-- The estimates behind the count of steps: `10 ^ 3 < 2 ^ 10` and `2 ^ 33 < 10 ^ 10`. -/
theorem step_lt_of_le {e : ℕ} {power : ℤ} (he : e ≤ 2045)
    (h : 100000 * power ≤ 30103 * ((e : ℤ) - 1021) - 2300000) :
    4 * Binary64.scale * 10 ^ power.toNat < 2 * 2 ^ e * 10 ^ (-power).toNat := by
  obtain ⟨k, hk, hscale⟩ := Binary64.four_mul_scale
  have hdouble : 2 * 2 ^ e = 2 ^ (e + 1) := by rw [pow_succ, Nat.mul_comm]
  rw [hscale, hdouble]
  rcases lt_or_ge power 0 with hneg | hpos
  · obtain ⟨n, rfl⟩ : ∃ n : ℕ, power = -n := ⟨power.natAbs, by omega⟩
    rw [Int.neg_neg, Int.toNat_natCast, Int.toNat_eq_zero.2 (by omega), pow_zero, Nat.mul_one]
    refine lt_of_pow_lt_pow_left₀ 10 (Nat.zero_le _) ?_
    calc (2 ^ k) ^ 10 = 2 ^ (k * 10) := by rw [← pow_mul]
      _ < 2 ^ ((e + 1) * 10 + 33 * n) := Nat.pow_lt_pow_right (by decide) (by omega)
      _ = (2 ^ (e + 1)) ^ 10 * (2 ^ 33) ^ n := by rw [pow_add, pow_mul, pow_mul]
      _ ≤ (2 ^ (e + 1)) ^ 10 * (10 ^ 10) ^ n :=
          Nat.mul_le_mul_left _ (Nat.pow_le_pow_left (by norm_num) n)
      _ = (2 ^ (e + 1) * 10 ^ n) ^ 10 := by rw [mul_pow, pow_right_comm 10 n 10]
  · obtain ⟨n, rfl⟩ : ∃ n : ℕ, power = n := ⟨power.toNat, by omega⟩
    rw [Int.toNat_natCast, Int.toNat_eq_zero.2 (by omega), pow_zero, Nat.mul_one]
    refine lt_of_pow_lt_pow_left₀ 3 (Nat.zero_le _) ?_
    calc (2 ^ k * 10 ^ n) ^ 3 = (2 ^ k) ^ 3 * (10 ^ 3) ^ n := by
          rw [mul_pow, pow_right_comm 10 n 3]
      _ ≤ (2 ^ k) ^ 3 * (2 ^ 10) ^ n :=
          Nat.mul_le_mul_left _ (Nat.pow_le_pow_left (by norm_num) n)
      _ = 2 ^ (k * 3 + 10 * n) := by rw [pow_add, pow_mul, pow_mul]
      _ < 2 ^ ((e + 1) * 3) := Nat.pow_lt_pow_right (by decide) (by omega)
      _ = (2 ^ (e + 1)) ^ 3 := by rw [pow_mul]

/-- **The search for the shortest decimal ends inside the interval.** -/
theorem holds_shortest (x : Binary64) :
    (intervalOf x).Holds (shortest x).1 (shortest x).2 := by
  have hfine : (24 : ℕ) < 25 := by decide
  refine holds_coarsest hfine (gridPoint?_isSome (step_lt_of_le x.exponent_le ?_))
  have hlog := log2_high_le x
  unfold powerAbove
  omega

/-! ### Decimals in the interval of a number -/

section Reading

variable {x : Binary64} {digits : ℕ} {power : ℤ}

theorem low_pos (hx : x.mantissa ≠ 0) : 0 < (intervalOf x).low :=
  lt_of_lt_of_le (Nat.mul_pos (by omega) (Nat.two_pow_pos _)) (Binary64.le_low_intervalOf x)

theorem digits_pos_of_holds (hx : x.mantissa ≠ 0) (h : (intervalOf x).Holds digits power) :
    0 < digits := by
  have hlow := (Interval.contains_iff.1 h).1
  have hpos : 0 < (intervalOf x).low * 10 ^ (-power).toNat :=
    Nat.mul_pos (low_pos hx) (Nat.pow_pos (by decide))
  rcases Nat.eq_zero_or_pos digits with h0 | h0
  · rw [h0, Nat.zero_mul] at hlow
    omega
  · exact h0

/-- A decimal in the interval of a number is below `10 ^ 400`. -/
theorem width_le_of_holds (hx : x.mantissa ≠ 0) (h : (intervalOf x).Holds digits power) :
    ((Nat.toDigits 10 digits).length : ℤ) + power ≤ 400 := by
  by_contra hlarge
  obtain ⟨k, hk, hscale⟩ := Binary64.four_mul_scale
  obtain ⟨n, hn⟩ : ∃ n, n = 40 := ⟨40, rfl⟩
  have hexp := x.exponent_le
  have hdigits := pow_le_of_toDigits (digits_pos_of_holds hx h)
  have hhigh := (Interval.contains_iff.1 h).2.1
  rw [hscale] at hhigh
  have hten : 0 < 10 ^ (-power).toNat := Nat.pow_pos (by decide)
  have hlower : 10 ^ (10 * n) * 10 ^ (-power).toNat ≤
      10 ^ ((Nat.toDigits 10 digits).length - 1) * 10 ^ power.toNat := by
    rw [← pow_add, ← pow_add]
    exact Nat.pow_le_pow_right (by decide) (by omega)
  have hchain : 2 ^ k * 10 ^ (10 * n) * 10 ^ (-power).toNat <
      2 ^ (55 + x.exponent) * 10 ^ (-power).toNat :=
    calc 2 ^ k * 10 ^ (10 * n) * 10 ^ (-power).toNat
        = 2 ^ k * (10 ^ (10 * n) * 10 ^ (-power).toNat) := Nat.mul_assoc _ _ _
      _ ≤ 2 ^ k * (10 ^ ((Nat.toDigits 10 digits).length - 1) * 10 ^ power.toNat) :=
          Nat.mul_le_mul_left _ hlower
      _ ≤ 2 ^ k * (digits * 10 ^ power.toNat) :=
          Nat.mul_le_mul_left _ (Nat.mul_le_mul_right _ hdigits)
      _ = digits * (2 ^ k * 10 ^ power.toNat) := by ring
      _ ≤ (intervalOf x).high * 10 ^ (-power).toNat := hhigh
      _ < 2 ^ (55 + x.exponent) * 10 ^ (-power).toNat :=
          Nat.mul_lt_mul_of_pos_right (high_lt x) hten
  have hcontra := Nat.lt_of_mul_lt_mul_right hchain
  have hlarge' : 2 ^ (55 + x.exponent) ≤ 2 ^ k * 10 ^ (10 * n) :=
    calc 2 ^ (55 + x.exponent) ≤ 2 ^ (k + 33 * n) := Nat.pow_le_pow_right (by decide) (by omega)
      _ = 2 ^ k * 2 ^ (33 * n) := pow_add _ _ _
      _ ≤ 2 ^ k * 10 ^ (10 * n) := Nat.mul_le_mul_left _ (two_pow_le_ten_pow n)
  omega

/-- A decimal in the interval of a number other than zero is not below `10 ^ -400`. -/
theorem le_width_of_holds (hx : x.mantissa ≠ 0) (h : (intervalOf x).Holds digits power) :
    -400 ≤ ((Nat.toDigits 10 digits).length : ℤ) + power := by
  by_contra hsmall
  obtain ⟨k, hk, hscale⟩ := Binary64.four_mul_scale
  obtain ⟨n, hn⟩ : ∃ n, n = 40 := ⟨40, rfl⟩
  have hlow := (Interval.contains_iff.1 h).1
  have hzero : power.toNat = 0 := by omega
  rw [hscale, hzero, pow_zero, Nat.mul_one] at hlow
  have hupper : digits < 10 ^ (Nat.toDigits 10 digits).length := lt_pow_length_toDigits digits
  have hchain : 10 ^ (10 * n) * 10 ^ (Nat.toDigits 10 digits).length <
      2 ^ k * 10 ^ (Nat.toDigits 10 digits).length :=
    calc 10 ^ (10 * n) * 10 ^ (Nat.toDigits 10 digits).length
        = 10 ^ (10 * n + (Nat.toDigits 10 digits).length) := (pow_add _ _ _).symm
      _ ≤ 10 ^ (-power).toNat := Nat.pow_le_pow_right (by decide) (by omega)
      _ ≤ (intervalOf x).low * 10 ^ (-power).toNat := Nat.le_mul_of_pos_left _ (low_pos hx)
      _ ≤ digits * 2 ^ k := hlow
      _ < 10 ^ (Nat.toDigits 10 digits).length * 2 ^ k :=
          Nat.mul_lt_mul_of_pos_right hupper (Nat.two_pow_pos _)
      _ = 2 ^ k * 10 ^ (Nat.toDigits 10 digits).length := Nat.mul_comm _ _
  have hcontra := Nat.lt_of_mul_lt_mul_right hchain
  have hlarge : 2 ^ k ≤ 10 ^ (10 * n) :=
    le_trans (Nat.pow_le_pow_right (by decide) (by omega)) (two_pow_le_ten_pow n)
  omega

/-- **A decimal in the interval of a number is read as that number.** -/
theorem ofDecimal?_of_holds (hx : x.mantissa ≠ 0) (h : (intervalOf x).Holds digits power) :
    Binary64.ofDecimal? x.negative digits power = some x := by
  have hpos := digits_pos_of_holds hx h
  have hle := width_le_of_holds hx h
  have hge := le_width_of_holds hx h
  simp only [Binary64.ofDecimal?]
  rw [if_neg (by omega), if_neg (by omega), if_neg (by omega)]
  unfold Interval.Holds at h
  split
  · next hpower =>
    refine Binary64.nearest?_of_contains hx (by decide) ?_
    rw [show (-power).toNat = 0 by omega, Nat.pow_zero] at h
    rw [← h]
    refine Interval.contains_congr ?_
    generalize Binary64.scale = s
    ring
  · next hpower =>
    refine Binary64.nearest?_of_contains hx (Nat.pow_pos (by decide)) ?_
    rw [show power.toNat = 0 by omega, Nat.pow_zero] at h
    rw [← h]
    refine Interval.contains_congr ?_
    generalize Binary64.scale = s
    ring

/-- The shortest decimal of a number is read as it, with any number of zeros after its digits. -/
theorem ofDecimal?_shortest (hx : x.mantissa ≠ 0) (k : ℕ) :
    Binary64.ofDecimal? x.negative ((shortest x).1 * 10 ^ k) ((shortest x).2 - k) = some x :=
  ofDecimal?_of_holds hx ((Interval.holds_mul_pow _ _ _ k).2 (holds_shortest x))

end Reading

end Decimal

end JsonShelf
