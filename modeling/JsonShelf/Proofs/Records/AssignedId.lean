/-
**What an assigned id is.**

The id of a new record is a number, whatever ids there are.  It is the exact successor of the
greatest id as long as words of 64 signed bits suffice.  Otherwise the sum is rounded to binary64,
which cannot lead past the greatest number, and a sum that passes a test of being a word is cast to
one; the cast takes a sum that is no word to some word as well, and the test lets none of these
through.

Main definitions:

* `Binary64.toInt64` — the word that a number is cast to;
* `Binary64.FitsWord` — the test before the cast;
* `Records.RoundedSum` — the sum that the id of a new record is computed from, if words do not
  suffice;
* `Records.Assigned` — how an assigned id comes about.

Main results:

* `Binary64.toInt64_exact_iff` — the cast keeps the value exactly of the numbers that are words;
* `Records.nextId_assigned` — the next id is a number, assigned in one of four ways;
* `Records.append_assigned` — **a record without an id is given a number, and whenever that is cast
  from binary64 the cast is exact**.
-/

import JsonShelf.Proofs.Records.FreshId

set_option autoImplicit false

namespace JsonShelf

namespace Binary64

variable {x : Binary64}

/-! ### Casts to words -/

theorem exists_toInt_eq {value : ℤ} (hlow : -2 ^ 63 ≤ value) (hhigh : value < 2 ^ 63) :
    ∃ k : Int64, k.toInt = value := by
  have hleast : Int64.minValue.toInt ≤ value := by
    rw [Int64.toInt_minValue]
    exact hlow
  have hgreatest : value ≤ Int64.maxValue.toInt := by
    rw [Int64.toInt_maxValue]
    omega
  exact ⟨.ofIntLE value hleast hgreatest, Int64.toInt_ofIntLE⟩

/-- The word of 64 signed bits that a number is cast to: its fraction is cut off, and what lies
beyond the words becomes the last one on its side. -/
def toInt64 (x : Binary64) : Int64 :=
  .ofIntClamp (x.signedUnits.tdiv scale)

/-- The test before the cast: the number has no fraction and is less than `2 ^ 63` in size. -/
def FitsWord (x : Binary64) : Prop :=
  x.signedUnits.tmod scale = 0 ∧ x.signedUnits.natAbs < 2 ^ 63 * scale

instance (x : Binary64) : Decidable x.FitsWord :=
  inferInstanceAs (Decidable (_ ∧ _))

/-- The cast keeps the value exactly of the numbers that are words. -/
theorem toInt64_exact_iff :
    x.toInt64.toInt * scale = x.signedUnits ↔ ∃ k : Int64, x.signedUnits = k.toInt * scale := by
  constructor
  · exact fun h => ⟨x.toInt64, h.symm⟩
  · rintro ⟨k, hk⟩
    have hscale : (scale : ℤ) ≠ 0 := Int.natCast_ne_zero.2 (Nat.one_le_iff_ne_zero.1 one_le_scale)
    rw [toInt64, hk, Int.mul_tdiv_cancel _ hscale, Int64.ofIntClamp_toInt]

/-- The numbers that pass the test are the whole ones of less than 63 bits. -/
theorem fitsWord_iff :
    x.FitsWord ↔ ∃ value : ℤ, x.signedUnits = value * scale ∧ value.natAbs < 2 ^ 63 := by
  have hscale : 0 < scale := one_le_scale
  have hsize : ∀ value : ℤ, x.signedUnits = value * scale →
      (x.signedUnits.natAbs < 2 ^ 63 * scale ↔ value.natAbs < 2 ^ 63) := by
    intro value hvalue
    rw [hvalue, Int.natAbs_mul, Int.natAbs_natCast]
    exact Nat.mul_lt_mul_right hscale
  constructor
  · rintro ⟨hwhole, hlt⟩
    obtain ⟨value, hvalue⟩ := Int.dvd_of_tmod_eq_zero hwhole
    rw [Int.mul_comm] at hvalue
    exact ⟨value, hvalue, (hsize value hvalue).1 hlt⟩
  · rintro ⟨value, hvalue, hlt⟩
    refine ⟨?_, (hsize value hvalue).2 hlt⟩
    rw [hvalue]
    exact Int.mul_tmod_left _ _

/-- The cast of a number that passes the test is exact. -/
theorem FitsWord.toInt64_exact (h : x.FitsWord) : x.toInt64.toInt * scale = x.signedUnits := by
  obtain ⟨value, hvalue, hsize⟩ := fitsWord_iff.1 h
  obtain ⟨k, hk⟩ : ∃ k : Int64, k.toInt = value := exists_toInt_eq (by omega) (by omega)
  exact toInt64_exact_iff.2 ⟨k, by rw [hk, hvalue]⟩

end Binary64

namespace Records

open Binary64 (scale)

variable {records : List Json} {x sum : Binary64} {value : ℤ} {k : Int64} {n : Number}

/-! ### Ids in binary64 -/

theorem ofInt_of_toInt (h : k.toInt = value) : Json.ofInt value = .number (.ofInt64 k) := by
  subst h
  have hlow := Int64.le_toInt k
  have hhigh := Int64.toInt_lt k
  rw [Json.ofInt, Number.ofInt?, dif_pos ⟨hlow, by omega⟩]
  rfl

/-- A number that passes the test is cast. -/
theorem idOfFloat_of_fitsWord (h : x.FitsWord) : idOfFloat x = .number (.ofInt64 x.toInt64) := by
  obtain ⟨value, hvalue, hsize⟩ := Binary64.fitsWord_iff.1 h
  have hexact := h.toInt64_exact
  rw [hvalue] at hexact
  rw [idOfFloat, Binary64.toInt?_of_signedUnits hvalue]
  exact (if_pos hsize).trans (ofInt_of_toInt (mul_right_cancel₀ scale_pos.ne' hexact))

/-- Any other number stays as it is. -/
theorem idOfFloat_of_not_fitsWord (h : ¬x.FitsWord) : idOfFloat x = .number (.float x) := by
  unfold idOfFloat
  split
  · next value hvalue =>
    refine if_neg fun hsize => h ?_
    exact Binary64.fitsWord_iff.2 ⟨value, Binary64.signedUnits_of_toInt? hvalue, hsize⟩
  · rfl

/-! ### How an assigned id comes about -/

/-- Words do not suffice for the next id, since some id is none or the last one is among them, and
the sum of the greatest id with one is rounded to binary64. -/
structure RoundedSum (records : List Json) (sum : Binary64) : Prop where
  beyond : WholeIds records → ∃ record ∈ records, wholeId record = 2 ^ 63 - 1
  sum_eq : ∃ top, IsTop top records ∧ top.addOne? = some sum

/-- How the number that is assigned to a new record comes about. -/
inductive Assigned (records : List Json) : Number → Prop
  /-- The first record is number one. -/
  | first : records = [] → Assigned records (.ofInt64 1)
  /-- The greatest of the ids, all of them words, is followed by the next word. -/
  | successor {top k : Int64} : WholeIds records →
      (∃ record ∈ records, wholeId record = top.toInt) →
      (∀ record ∈ records, wholeId record ≤ top.toInt) →
      k.toInt = top.toInt + 1 → Assigned records (.ofInt64 k)
  /-- The rounded sum is cast to a word. -/
  | cast {sum : Binary64} : RoundedSum records sum → sum.FitsWord →
      Assigned records (.ofInt64 sum.toInt64)
  /-- The rounded sum is kept. -/
  | float {sum : Binary64} : RoundedSum records sum → ¬sum.FitsWord →
      Assigned records (.float sum)

/-- There is one rounded sum at most. -/
theorem RoundedSum.eq {other : Binary64} (h : RoundedSum records sum)
    (hother : RoundedSum records other) : sum = other := by
  obtain ⟨top, htop, hsum⟩ := h.sum_eq
  obtain ⟨top', htop', hsum'⟩ := hother.sum_eq
  rw [Binary64.addOne?_eq_ofUnits?, htop.signedUnits_eq htop', ← Binary64.addOne?_eq_ofUnits?,
    hsum'] at hsum
  exact (Option.some.inj hsum).symm

/-- Whole ids are words. -/
theorem exists_word_of_wholeIds (h : WholeIds records) {record : Json}
    (hrecord : record ∈ records) : ∃ k : Int64, k.toInt = wholeId record := by
  have hwhole := toInt64?_idOrZero (h record hrecord)
  obtain ⟨hlow, -, -, hhigh⟩ := Number.toInt64?_eq_some hwhole
  exact Binary64.exists_toInt_eq hlow hhigh

/-- A rounded sum is cast or kept. -/
theorem RoundedSum.exists_assigned (h : RoundedSum records sum) :
    ∃ n, idOfFloat sum = .number n ∧ Assigned records n := by
  by_cases hfits : sum.FitsWord
  · exact ⟨_, idOfFloat_of_fitsWord hfits, .cast h hfits⟩
  · exact ⟨_, idOfFloat_of_not_fitsWord hfits, .float h hfits⟩

/-- The id after a greatest one is a number: its sum with one is in range. -/
theorem exists_assigned_afterTop {top : Binary64} (htop : IsTop top records)
    (hbeyond : WholeIds records → ∃ record ∈ records, wholeId record = 2 ^ 63 - 1) :
    ∃ n, afterTop top = .number n ∧ Assigned records n := by
  obtain ⟨sum, hsum⟩ := Binary64.exists_addOne? top
  rw [afterTop, hsum]
  exact RoundedSum.exists_assigned ⟨hbeyond, top, htop, hsum⟩

/-- **The next id is a number**, assigned in one of four ways. -/
theorem nextId_assigned (records : List Json) :
    ∃ n, nextId records = .number n ∧ Assigned records n := by
  by_cases hne : records = []
  · subst hne
    exact ⟨_, ofInt_of_toInt (k := 1) rfl, .first rfl⟩
  by_cases hwhole : WholeIds records
  · obtain ⟨top, hmem, hle, hexact, hrounded⟩ := nextId_of_wholeIds hwhole hne
    obtain ⟨record, hrecord, rfl⟩ := List.mem_map.1 hmem
    obtain ⟨word, hword⟩ := exists_word_of_wholeIds hwhole hrecord
    rw [← hword] at hle hexact hrounded
    rcases lt_or_ge (word.toInt + 1) (2 ^ 63) with hlt | hge
    · have hlow := Int64.le_toInt word
      obtain ⟨k, hk⟩ := Binary64.exists_toInt_eq (by omega) hlt
      rw [hexact hlt]
      exact ⟨_, ofInt_of_toInt hk, .successor hwhole ⟨record, hrecord, hword.symm⟩ hle hk⟩
    · have hhigh := Int64.toInt_lt word
      obtain ⟨x, hx, hnext⟩ := hrounded hge
      rw [hnext]
      exact exists_assigned_afterTop hx fun _ => ⟨record, hrecord, by omega⟩
  · obtain ⟨x, hx, hnext⟩ := nextId_of_not_wholeIds hwhole
    rw [hnext]
    exact exists_assigned_afterTop hx fun h => absurd h hwhole

/-- A rounded sum decides the id: words do not suffice, and there is no other sum. -/
theorem Assigned.eq_cast (h : Assigned records n) (hsum : RoundedSum records sum)
    (hfits : sum.FitsWord) : n = .ofInt64 sum.toInt64 := by
  cases h with
  | first hempty =>
      obtain ⟨top, htop, -⟩ := hsum.sum_eq
      obtain ⟨record, hrecord, -⟩ := htop.mem
      rw [hempty] at hrecord
      cases hrecord
  | @successor top k hwhole _ hle hk =>
      -- the last word has no successor among the words
      obtain ⟨record, hrecord, hlast⟩ := hsum.beyond hwhole
      have htop := hle record hrecord
      have hlt := Int64.toInt_lt k
      omega
  | cast hother _ => rw [hsum.eq hother]
  | float hother hnot => exact absurd (hsum.eq hother ▸ hfits) hnot

/-- **A record that comes without an id is given a number.**  It is never null: it is number one,
the next word after the greatest, or the sum of the greatest with one in binary64; and whenever that
sum is cast to a word, the word has exactly the value of the sum. -/
theorem append_assigned (records : List Json) (members : Members Json)
    (hid : Members.get? idField members = none ∨ Members.get? idField members = some .null) :
    ∃ m n, append (.array records) (.object members) = .ok m ∧
      m.root = .array (records ++ [m.record]) ∧ m.record.get? idField = some (.number n) ∧
      Assigned records n ∧
      ∀ sum, RoundedSum records sum → sum.FitsWord →
        n = .ofInt64 sum.toInt64 ∧ sum.toInt64.toInt * scale = sum.signedUnits := by
  obtain ⟨n, hn, hassigned⟩ := nextId_assigned records
  refine ⟨_, n, append_eq_ok.2 ⟨records, rfl, rfl⟩, rfl, ?_, hassigned, ?_⟩
  · rw [get?_idField_withId hid, hn]
  · exact fun sum hsum hfits => ⟨hassigned.eq_cast hsum hfits, hfits.toInt64_exact⟩

/-- After the id `2 ^ 53`, written with a point, the sum is rounded back and cast without a loss. -/
theorem append_assigned_twoPow53 :
    ∃ m, append (.array [.object [("id", .number (.float twoPow53))]]) (.object [("id", .null)]) =
        .ok m ∧
      m.record.get? idField = some (.number (.ofInt64 twoPow53.toInt64)) ∧
      twoPow53.toInt64.toInt * scale = twoPow53.signedUnits := by
  have htop : IsTop twoPow53 [.object [("id", .number (.float twoPow53))]] := by
    refine ⟨⟨_, List.mem_singleton_self _, rfl⟩, ?_⟩
    intro record hrecord
    rw [List.mem_singleton.1 hrecord]
    exact le_rfl
  have hnot : ¬WholeIds [.object [("id", .number (.float twoPow53))]] := by
    intro h
    obtain ⟨value, hvalue⟩ := h _ (List.mem_singleton_self _) (.float twoPow53) rfl
    cases hvalue
  have hsum : RoundedSum [.object [("id", .number (.float twoPow53))]] twoPow53 :=
    ⟨fun h => absurd h hnot, twoPow53, htop, by decide +kernel⟩
  obtain ⟨m, n, hm, -, hn, -, hcast⟩ := append_assigned
    [.object [("id", .number (.float twoPow53))]] [("id", .null)] (.inr rfl)
  obtain ⟨rfl, hexact⟩ := hcast twoPow53 hsum (by decide +kernel)
  exact ⟨m, hm, hn, hexact⟩

end Records

end JsonShelf
