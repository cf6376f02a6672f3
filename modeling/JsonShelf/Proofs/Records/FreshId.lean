/-
**Whether an assigned id is a new one.**

A record that is added without an id gets one more than the greatest id there is.  As long as the
ids are whole numbers of 64 signed bits no record carries the new id.  When they are not, the sum is
rounded, and among large numbers it is rounded back to the greatest id itself: then an old record
carries the assigned id, and it is the old record that is found by it.

Main definitions:

* `Number.signedUnits` — the exact value of a number in units of `2 ^ -1074`;
* `Records.Collides` — the greatest id is not changed by adding one, and is carried exactly.

Main results:

* `Records.matchesId_iff` — ids are found by their exact value where binary64 has it;
* `Records.exists_hasId_iff` — **an old record carries the assigned id exactly when the ids
  collide**;
* `Records.not_collides_of_lt` — ids below `2 ^ 53` do not collide;
* `Records.addressed_iff_not_collides` — **the assigned id leads to the new record, and to no other,
  exactly when the ids do not collide**.
-/

import JsonShelf.Proofs.Records.NextId
import JsonShelf.Proofs.Records.OnePlace

set_option autoImplicit false

namespace JsonShelf

/-- The exact value in units of `2 ^ -1074`. -/
def Number.signedUnits : Number → ℤ
  | .whole value _ _ => value * Binary64.scale
  | .float x => x.signedUnits

namespace Records

open Binary64 (scale)

variable {records : List Json} {record old new : Json} {k : Int64} {m : Mutation} {n : Number}
  {x : Binary64} {value : ℤ}

theorem scale_pos : (0 : ℤ) < scale := by
  exact_mod_cast Binary64.one_le_scale

/-! ### Finding ids by their value -/

theorem toBinary64_of_signedUnits (hx : x.signedUnits = value * scale)
    (h : n.signedUnits = value * scale) : n.toBinary64.signedUnits = value * scale := by
  cases n with
  | whole v lower upper =>
      obtain rfl : v = value := mul_right_cancel₀ scale_pos.ne' h
      exact Binary64.signedUnits_ofInt hx
  | float y => exact h

/-- Ids are found by their exact value where binary64 has it. -/
theorem matchesId_iff (hx : x.signedUnits = k.toInt * scale) :
    matchesId n k = true ↔ n.signedUnits = k.toInt * scale := by
  have hk := Binary64.signedUnits_ofInt hx
  cases n with
  | whole v lower upper =>
      simp only [matchesId, Number.toInt64?, Number.signedUnits]
      by_cases hv : v < 2 ^ 63
      · rw [if_pos hv]
        simp only [beq_iff_eq]
        exact ⟨fun h => by rw [h], fun h => mul_right_cancel₀ scale_pos.ne' h⟩
      · -- a larger word is rounded to no signed one, and has no value of one either
        have hlt := Int64.toInt_lt k
        have hle := Binary64.le_signedUnits_ofInt (not_lt.1 hv) upper
        have hscale := scale_pos
        rw [if_neg hv]
        simp only [Number.toBinary64, Binary64.sameValue, beq_iff_eq, hk]
        constructor
        · intro h
          rw [h] at hle
          nlinarith
        · intro h
          have := mul_right_cancel₀ scale_pos.ne' h
          omega
  | float y =>
      simp only [matchesId, Number.toInt64?, Number.toBinary64, Binary64.sameValue,
        Number.signedUnits, beq_iff_eq, hk]

/-! ### Assigned ids -/

theorem ofInt_eq (h : Json.ofInt value = .number (.ofInt64 k)) : value = k.toInt := by
  unfold Json.ofInt Number.ofInt? at h
  split at h
  · simp only [Option.map_some, Option.getD_some, Json.number.injEq, Number.ofInt64,
      Number.whole.injEq] at h
    exact h
  · cases h

theorem idOfFloat_eq (h : idOfFloat x = .number (.ofInt64 k)) :
    x.signedUnits = k.toInt * scale := by
  unfold idOfFloat at h
  split at h
  · next v hv =>
    split at h
    · rw [← ofInt_eq h]
      exact Binary64.signedUnits_of_toInt? hv
    · cases h
  · cases h

theorem afterTop_eq (h : afterTop x = .number (.ofInt64 k)) :
    ∃ next, x.addOne? = some next ∧ next.signedUnits = k.toInt * scale := by
  unfold afterTop at h
  cases hnext : x.addOne? with
  | none => rw [hnext] at h; cases h
  | some next =>
      rw [hnext] at h
      exact ⟨next, rfl, idOfFloat_eq h⟩

theorem idOrZero_of_id? (h : id? record = some n) : idOrZero record = n := by
  rw [idOrZero, h, Option.getD_some]

/-- With whole ids, the assigned id is none of them. -/
theorem hasId_eq_false_of_wholeIds (h : WholeIds records)
    (hk : nextId records = .number (.ofInt64 k)) (hold : old ∈ records) : hasId k old = false := by
  obtain ⟨top, hmem, hle, hexact, hrounded⟩ := nextId_of_wholeIds h (List.ne_nil_of_mem hold)
  rcases lt_or_ge (top + 1) (2 ^ 63) with hlt | hge
  · rw [hexact hlt] at hk
    have htop := ofInt_eq hk
    by_contra hhas
    obtain ⟨n, hn, hmatch⟩ := exists_id?_of_hasId (Bool.not_eq_false _ ▸ hhas)
    obtain ⟨v, hv⟩ := h old hold n hn
    have hvle := hle old hold
    rw [wholeId_of_id? hn hv] at hvle
    simp only [matchesId, hv, beq_iff_eq] at hmatch
    omega
  · -- the greatest signed word is rounded up to a number that is none
    obtain ⟨r, hr, rfl⟩ := List.mem_map.1 hmem
    obtain ⟨x, hx, hnext⟩ := hrounded hge
    obtain ⟨next, hadd, hvalue⟩ := afterTop_eq (hnext.symm.trans hk)
    have hlast : (Binary64.ofInt (2 ^ 63 - 1)).signedUnits = 2 ^ 63 * scale := by decide +kernel
    have hwhole := toInt64?_idOrZero (h r hr)
    obtain ⟨_, _, _, hlt⟩ := Number.toInt64?_eq_some hwhole
    have hgreatest : wholeId r = 2 ^ 63 - 1 := by omega
    rw [hgreatest] at hwhole
    have hbinary := Number.toBinary64_of_toInt64? hwhole
    have htop := hx.le r hr
    have hsum := Binary64.le_of_addOne? hadd
    have hlt := Int64.toInt_lt k
    have hscale := scale_pos
    rw [hbinary, hlast] at htop
    rw [hvalue] at hsum
    nlinarith

/-- Not all ids are whole numbers of 64 signed bits, the greatest one is not changed by adding one
in binary64, and a record carries exactly its value. -/
structure Collides (records : List Json) : Prop where
  notWhole : ¬WholeIds records
  stuck : ∃ top next, IsTop top records ∧ top.addOne? = some next ∧
    next.signedUnits = top.signedUnits ∧
    ∃ record ∈ records, ∃ n, id? record = some n ∧ n.signedUnits = top.signedUnits

/-- **An old record carries the assigned id exactly when the ids collide.** -/
theorem exists_hasId_iff (hk : nextId records = .number (.ofInt64 k)) :
    (∃ old ∈ records, hasId k old = true) ↔ Collides records := by
  constructor
  · rintro ⟨old, hold, hhas⟩
    have hnot : ¬WholeIds records := by
      intro h
      rw [hasId_eq_false_of_wholeIds h hk hold] at hhas
      cases hhas
    obtain ⟨top, htop, hnext⟩ := nextId_of_not_wholeIds hnot
    obtain ⟨next, hadd, hvalue⟩ := afterTop_eq (hnext.symm.trans hk)
    obtain ⟨n, hn, hmatch⟩ := exists_id?_of_hasId hhas
    have hexact := (matchesId_iff hvalue).1 hmatch
    have hle := htop.le old hold
    have hsum := Binary64.le_of_addOne? hadd
    rw [idOrZero_of_id? hn, toBinary64_of_signedUnits hvalue hexact] at hle
    -- the id that is carried is at most the greatest, and the new one at least
    have hsame : next.signedUnits = top.signedUnits := le_antisymm (hvalue ▸ hle) hsum
    exact ⟨hnot, top, next, htop, hadd, hsame, old, hold, n, hn,
      hexact.trans (hvalue.symm.trans hsame)⟩
  · rintro ⟨hnot, top, next, htop, hadd, hsame, old, hold, n, hn, hexact⟩
    obtain ⟨top', htop', hnext⟩ := nextId_of_not_wholeIds hnot
    obtain ⟨next', hadd', hvalue⟩ := afterTop_eq (hnext.symm.trans hk)
    have hadd₂ : top'.addOne? = some next := by
      rw [Binary64.addOne?_eq_ofUnits?, htop'.signedUnits_eq htop, ← Binary64.addOne?_eq_ofUnits?,
        hadd]
    obtain rfl : next = next' := Option.some.inj (hadd₂.symm.trans hadd')
    refine ⟨old, hold, ?_⟩
    rw [hasId_of_id? hn, matchesId_iff hvalue, hexact, ← hsame, hvalue]

/-- Ids below `2 ^ 53` do not collide. -/
theorem not_collides_of_lt
    (h : ∀ record ∈ records, ∀ n, id? record = some n → n.signedUnits.natAbs < 2 ^ 53 * scale) :
    ¬Collides records := by
  rintro ⟨-, top, next, -, hadd, hsame, record, hrecord, n, hn, hexact⟩
  have hsize := h record hrecord n hn
  rw [hexact] at hsize
  have := Binary64.lt_of_addOne? hsize hadd
  omega

/-! ### What the assigned id leads to -/

theorem deleteById_append (hold : ∀ old ∈ records, hasId k old = false)
    (hnew : hasId k new = true) :
    deleteById (.array (records ++ [new])) k = .ok ⟨.array records, new⟩ := by
  have hdelete : deleteById (.array (records ++ [new])) k = .ok ⟨.array (records ++ []), new⟩ :=
    deleteById_split ⟨hnew, hold⟩
  rwa [List.append_nil] at hdelete

theorem updateById_append (hold : ∀ old ∈ records, hasId k old = false)
    (hnew : hasId k new = true) (patch : Members Json) :
    updateById (.array (records ++ [new])) k patch =
      .ok ⟨.array (records ++ [patchedById k new patch]), patchedById k new patch⟩ :=
  updateById_split ⟨hnew, hold⟩

theorem hasId_ofInt64 (h : record.get? idField = some (.number (.ofInt64 k))) :
    hasId k record = true := by
  rw [hasId_of_id? (id?_of_get? h), matchesId, Number.toInt64?_ofInt64]
  exact beq_self_eq_true _

/-- The id of a record that came without one is the next id. -/
theorem get?_idField_withId {members : Members Json}
    (hid : Members.get? idField members = none ∨ Members.get? idField members = some .null) :
    (withId records (.object members)).get? idField = some (nextId records) := by
  rw [withId_object hid]
  exact Members.get?_put_self idField (nextId records) members

/-- **The assigned id leads to the new record, and to no other, exactly when the ids do not
collide.**  Deleting by it gives the old collection back, and a patch changes only the last
record. -/
theorem addressed_iff_not_collides (records : List Json) (members : Members Json) (k : Int64)
    (m : Mutation)
    (hid : Members.get? idField members = none ∨ Members.get? idField members = some .null)
    (happend : append (.array records) (.object members) = .ok m)
    (hk : m.record.get? idField = some (.number (.ofInt64 k))) :
    ((∀ old ∈ records, hasId k old = false) ∧
        deleteById m.root k = .ok ⟨.array records, m.record⟩ ∧
        ∀ patch, ∃ last, updateById m.root k patch = .ok ⟨.array (records ++ [last]), last⟩) ↔
      ¬Collides records := by
  obtain ⟨records', hrecords, rfl⟩ := append_eq_ok.1 happend
  obtain rfl := Json.array.inj hrecords
  have hnext : nextId records = .number (.ofInt64 k) := by
    rw [get?_idField_withId hid] at hk
    exact Option.some.inj hk
  have hnew := hasId_ofInt64 hk
  rw [← exists_hasId_iff hnext]
  constructor
  · rintro ⟨hfresh, -, -⟩ ⟨old, hold, hhas⟩
    rw [hfresh old hold] at hhas
    cases hhas
  · intro hnone
    have hfresh : ∀ old ∈ records, hasId k old = false := by
      intro old hold
      by_contra hhas
      exact hnone ⟨old, hold, Bool.not_eq_false _ ▸ hhas⟩
    exact ⟨hfresh, deleteById_append hfresh hnew,
      fun patch => ⟨_, updateById_append hfresh hnew patch⟩⟩

/-- Records with a whole id, an id with a point, an id that is a text, and without an id. -/
def mixedIds : List Json :=
  [.object [("id", Json.ofInt 3)], .object [("id", .number (.float (Binary64.ofInt 7)))],
    .object [("id", .string "x")], .object []]

/-- The id 8 comes after the id 7, which is written with a point, and it leads to the new record. -/
theorem addressed_iff_not_collides_mixedIds :
    ∃ m, append (.array mixedIds) (.object [("name", .string "new")]) = .ok m ∧
      m.record.get? idField = some (.number (.ofInt64 8)) ∧ ¬WholeIds mixedIds ∧
      (∀ old ∈ mixedIds, hasId 8 old = false) ∧
      deleteById m.root 8 = .ok ⟨.array mixedIds, m.record⟩ ∧
      ∀ patch, ∃ last, updateById m.root 8 patch = .ok ⟨.array (mixedIds ++ [last]), last⟩ := by
  have hnext : nextId mixedIds = .number (.ofInt64 8) := by decide +kernel
  have hwhole : ¬WholeIds mixedIds := by
    intro h
    obtain ⟨value, hvalue⟩ := h (.object [("id", .number (.float (Binary64.ofInt 7)))])
      (by simp [mixedIds]) (.float (Binary64.ofInt 7)) rfl
    cases hvalue
  have hapart : ¬Collides mixedIds := by
    refine not_collides_of_lt fun record hrecord n hn => ?_
    simp only [mixedIds, List.mem_cons, List.not_mem_nil, or_false] at hrecord
    rcases hrecord with rfl | rfl | rfl | rfl <;> cases hn <;> decide +kernel
  have happend : append (.array mixedIds) (.object [("name", .string "new")]) = _ :=
    append_eq_ok.2 ⟨mixedIds, rfl, rfl⟩
  have hid : (withId mixedIds (.object [("name", .string "new")])).get? idField =
      some (nextId mixedIds) := get?_idField_withId (.inl rfl)
  rw [hnext] at hid
  exact ⟨_, happend, hid, hwhole,
    (addressed_iff_not_collides mixedIds _ 8 _ (.inl rfl) happend hid).2 hapart⟩

/-- The number `2 ^ 53` as a binary64 number. -/
def twoPow53 : Binary64 where
  negative := false
  mantissa := 2 ^ 52
  exponent := 1075
  mantissa_lt := by decide
  exponent_le := by decide
  normal := .inr le_rfl

/-- After the id `2 ^ 53`, written with a point, the same number is assigned again, and it leads to
the old record. -/
theorem collides_at_twoPow53 :
    ∃ m, append (.array [.object [("id", .number (.float twoPow53))]]) (.object []) = .ok m ∧
      m.record.get? idField = some (.number (.ofInt64 9007199254740992)) ∧
      deleteById m.root 9007199254740992 =
        .ok ⟨.array [m.record], .object [("id", .number (.float twoPow53))]⟩ := by
  have hnext : nextId [.object [("id", .number (.float twoPow53))]] =
      .number (.ofInt64 9007199254740992) := by decide +kernel
  have hold : hasId 9007199254740992 (.object [("id", .number (.float twoPow53))]) = true := by
    decide +kernel
  refine ⟨_, append_eq_ok.2 ⟨_, rfl, rfl⟩, ?_, ?_⟩
  · rw [get?_idField_withId (.inl rfl), hnext]
  · refine deleteById_eq_ok.2 ⟨_, 0, _, rfl, position?_eq_some.2 ⟨_, rfl, hold, ?_⟩, rfl, rfl⟩
    intro j hj
    exact absurd hj (Nat.not_lt_zero j)

end Records

end JsonShelf
