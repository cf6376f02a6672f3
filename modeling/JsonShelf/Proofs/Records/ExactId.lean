/-
**Whether an id leads to the record that carries it.**

An id is a signed word of 64 bits, and the ids in a collection may be any JSON numbers.  A whole
number of 64 signed bits is compared with the id exactly, and every other number as a binary64
number.  A record that carries exactly the id is always found.  But the id itself is rounded for the
comparison, and beyond `2 ^ 53` other numbers are rounded to the same one: a record that carries
such a number is taken for the one that is meant.

Main definitions:

* `Records.carries` — is the id of a record exactly the one in question?
* `Records.Mistaken` — numbers of another value that are rounded like the id;
* `Records.FirstToCarry` — the first record that carries the id, and its place;
* `Records.FindsExactly` — a deletion and a patch act on the first record that carries the id, and
  are refused if there is none;
* `Records.Misled` — a record with a mistaken id stands before all that carry the id.

Main results:

* `Records.matchesId_eq_true_iff` — which numbers stand for an id;
* `Records.findsExactly_iff_not_misled` — **ids lead to the records that carry them exactly when no
  mistaken id stands before**;
* `Records.forall_findsExactly_iff` — the ids that are never mistaken are the numbers of binary64;
* `Records.findsExactly_of_le`, `Records.findsExactly_of_wholeIds` — ids up to `2 ^ 53` are, and
  among whole ids of 64 signed bits none is mistaken.
-/

import JsonShelf.Proofs.Records.FreshId

set_option autoImplicit false

namespace JsonShelf.Records

open Binary64 (scale)

variable {records : List Json} {record old : Json} {id : Int64} {n : Number} {x : Binary64}

/-! ### Numbers that stand for an id -/

/-- The number has another value than the id but is rounded like it.  It is no whole number of 64
signed bits, as those are not rounded. -/
structure Mistaken (id : Int64) (n : Number) : Prop where
  inexact : n.toInt64? = none
  rounded : n.toBinary64.signedUnits = (Binary64.ofInt id.toInt).signedUnits
  differs : n.signedUnits ≠ id.toInt * scale

/-- Numbers of the value of the id are rounded like it. -/
theorem rounded_of_exact (h : n.signedUnits = id.toInt * scale) :
    n.toBinary64.signedUnits = (Binary64.ofInt id.toInt).signedUnits := by
  cases n with
  | whole v lower upper =>
      obtain rfl : v = id.toInt := mul_right_cancel₀ scale_pos.ne' h
      rfl
  | float y => exact h.trans (Binary64.signedUnits_ofInt h).symm

/-- The numbers that stand for an id: those of its value, and mistaken ones. -/
theorem matchesId_eq_true_iff :
    matchesId n id = true ↔ n.signedUnits = id.toInt * scale ∨ Mistaken id n := by
  cases hn : n.toInt64? with
  | some v =>
      have hexact : ¬Mistaken id n := fun h => nomatch h.inexact.symm.trans hn
      obtain ⟨lower, upper, rfl, -⟩ := Number.toInt64?_eq_some hn
      rw [matchesId, hn, or_iff_left hexact, Number.signedUnits,
        mul_left_inj' scale_pos.ne']
      exact beq_iff_eq
  | none =>
      have hmatch : matchesId n id = true ↔
          n.toBinary64.signedUnits = (Binary64.ofInt id.toInt).signedUnits := by
        rw [matchesId, hn]
        exact beq_iff_eq
      rw [hmatch]
      constructor
      · intro h
        by_cases hexact : n.signedUnits = id.toInt * scale
        · exact .inl hexact
        · exact .inr ⟨hn, h, hexact⟩
      · rintro (h | h)
        · exact rounded_of_exact h
        · exact h.rounded

/-- No number is mistaken for an id that binary64 has. -/
theorem not_mistaken_of_signedUnits (hx : x.signedUnits = id.toInt * scale) : ¬Mistaken id n :=
  fun h => h.differs ((matchesId_iff hx).1 (matchesId_eq_true_iff.2 (.inr h)))

/-! ### Records that are found -/

/-- Is the id of the record a number of exactly the value of the id? -/
def carries (id : Int64) (record : Json) : Bool :=
  match id? record with
  | some n => n.signedUnits == id.toInt * scale
  | none => false

theorem carries_iff :
    carries id record = true ↔ ∃ n, id? record = some n ∧ n.signedUnits = id.toInt * scale := by
  rw [carries]
  cases id? record with
  | none => exact ⟨nofun, fun ⟨_, hn, _⟩ => nomatch hn⟩
  | some n =>
      constructor
      · intro h
        exact ⟨n, rfl, beq_iff_eq.1 h⟩
      · rintro ⟨_, ⟨⟩, h⟩
        exact beq_iff_eq.2 h

/-- The records that are found by an id: those that carry it, and those with a mistaken one. -/
theorem hasId_iff :
    hasId id record = true ↔
      carries id record = true ∨ ∃ n, id? record = some n ∧ Mistaken id n := by
  rw [carries_iff, ← exists_or]
  simp only [← and_or_left, ← matchesId_eq_true_iff]
  constructor
  · exact exists_id?_of_hasId
  · rintro ⟨n, hn, h⟩
    rw [hasId_of_id? hn, h]

/-- The record stands at the place, and is the first that carries the id. -/
structure FirstToCarry (id : Int64) (records : List Json) (i : ℕ) (old : Json) : Prop where
  here : records[i]? = some old
  carries : carries id old = true
  before : ∀ j < i, ∀ other, records[j]? = some other → Records.carries id other = false

theorem findIdx?_carries_eq_some {i : ℕ} :
    records.findIdx? (carries id) = some i ↔ ∃ old, FirstToCarry id records i old := by
  rw [findIdx?_eq_some]
  exact exists_congr fun old => ⟨fun h => ⟨h.1, h.2.1, h.2.2⟩,
    fun h => ⟨h.here, h.carries, h.before⟩⟩

/-- A deletion and a patch by the id act on the first record that carries it, and are refused just
when no record does. -/
structure FindsExactly (id : Int64) (records : List Json) : Prop where
  delete : ∀ i old, FirstToCarry id records i old →
    deleteById (.array records) id = .ok ⟨.array (records.eraseIdx i), old⟩
  update : ∀ i old patch, FirstToCarry id records i old →
    updateById (.array records) id patch =
      .ok ⟨.array (records.set i (patchedById id old patch)), patchedById id old patch⟩
  delete_missing : deleteById (.array records) id = .error (.recordNotFound id) ↔
    ∀ old ∈ records, carries id old = false
  update_missing : ∀ patch, updateById (.array records) id patch = .error (.recordNotFound id) ↔
    ∀ old ∈ records, carries id old = false

/-- A record with a mistaken id stands before all that carry the id. -/
def Misled (id : Int64) (records : List Json) : Prop :=
  ∃ (i : ℕ) (record : Json) (n : Number), records[i]? = some record ∧ id? record = some n ∧
    Mistaken id n ∧ ∀ j < i, ∀ other, records[j]? = some other → carries id other = false

theorem carries_eq_false_of_hasId (h : hasId id record = false) : carries id record = false :=
  Bool.eq_false_iff.2 fun hcarries => Bool.eq_false_iff.1 h (hasId_iff.2 (.inl hcarries))

theorem carries_eq_false_of_mistaken (hn : id? record = some n) (h : Mistaken id n) :
    carries id record = false := by
  rw [carries, hn]
  exact beq_eq_false_iff_ne.2 h.differs

/-- Unless a mistaken id stands before, the record that is found is the first that carries the
id. -/
theorem position?_of_not_misled (h : ¬Misled id records) :
    position? id records = records.findIdx? (carries id) := by
  cases hk : position? id records with
  | none =>
      rw [position?, List.findIdx?_eq_none_iff] at hk
      rw [eq_comm, List.findIdx?_eq_none_iff]
      exact fun old hold => carries_eq_false_of_hasId (hk old hold)
  | some k =>
      obtain ⟨old, hold, hhas, hbefore⟩ := position?_eq_some.1 hk
      have hfirst : ∀ j < k, ∀ other, records[j]? = some other → carries id other = false :=
        fun j hj other hother => carries_eq_false_of_hasId (hbefore j hj other hother)
      rw [eq_comm, findIdx?_carries_eq_some]
      rcases hasId_iff.1 hhas with hcarries | ⟨n, hn, hmistaken⟩
      · exact ⟨old, hold, hcarries, hfirst⟩
      · exact absurd ⟨k, old, n, hold, hn, hmistaken, hfirst⟩ h

/-- If a mistaken id stands before, the record that is deleted does not carry the id. -/
theorem exists_deleteById_of_misled (h : Misled id records) :
    ∃ root wrong, deleteById (.array records) id = .ok ⟨root, wrong⟩ ∧
      carries id wrong = false := by
  obtain ⟨i, record, n, hrecord, hn, hmistaken, hbefore⟩ := h
  have hhas : hasId id record = true := hasId_iff.2 (.inr ⟨n, hn, hmistaken⟩)
  cases hk : position? id records with
  | none =>
      rw [position?, List.findIdx?_eq_none_iff] at hk
      rw [hk record (List.mem_of_getElem? hrecord)] at hhas
      cases hhas
  | some k =>
      obtain ⟨wrong, hwrong, -, hfirst⟩ := position?_eq_some.1 hk
      refine ⟨_, wrong, deleteById_eq_ok.2 ⟨records, k, wrong, rfl, hk, hwrong, rfl⟩, ?_⟩
      -- the record that is found stands at the place of the mistaken id, or before it
      rcases Nat.lt_trichotomy k i with hlt | rfl | hgt
      · exact hbefore k hlt wrong hwrong
      · obtain rfl := Option.some.inj (hwrong.symm.trans hrecord)
        exact carries_eq_false_of_mistaken hn hmistaken
      · rw [hfirst i hgt record hrecord] at hhas
        cases hhas

theorem findsExactly_of_not_misled (h : ¬Misled id records) : FindsExactly id records := by
  have hposition := position?_of_not_misled h
  have hfound : ∀ {i old}, FirstToCarry id records i old → position? id records = some i :=
    fun hfirst => hposition.trans (findIdx?_carries_eq_some.2 ⟨_, hfirst⟩)
  have hmissing : position? id records = none ↔ ∀ old ∈ records, carries id old = false := by
    rw [hposition, List.findIdx?_eq_none_iff]
  exact {
    delete := fun i old hfirst =>
      deleteById_eq_ok.2 ⟨records, i, old, rfl, hfound hfirst, hfirst.here, rfl⟩
    update := fun i old patch hfirst =>
      updateById_eq_ok.2 ⟨records, i, old, rfl, hfound hfirst, hfirst.here, rfl⟩
    delete_missing := deleteById_eq_recordNotFound.trans hmissing
    update_missing := fun patch => updateById_eq_recordNotFound.trans hmissing }

theorem not_misled_of_findsExactly (h : FindsExactly id records) : ¬Misled id records := by
  intro hmisled
  obtain ⟨root, wrong, hdelete, hwrong⟩ := exists_deleteById_of_misled hmisled
  cases hk : records.findIdx? (carries id) with
  | none =>
      have hnone := h.delete_missing.2 (List.findIdx?_eq_none_iff.1 hk)
      cases hdelete.symm.trans hnone
  | some k =>
      obtain ⟨old, hfirst⟩ := findIdx?_carries_eq_some.1 hk
      have heq := Except.ok.inj (hdelete.symm.trans (h.delete k old hfirst))
      rw [(Mutation.mk.inj heq).2, hfirst.carries] at hwrong
      cases hwrong

/-- **Ids lead to the records that carry them exactly when no record with a mistaken id stands
before them all.** -/
theorem findsExactly_iff_not_misled (id : Int64) (records : List Json) :
    FindsExactly id records ↔ ¬Misled id records :=
  ⟨not_misled_of_findsExactly, findsExactly_of_not_misled⟩

/-- The number above `2 ^ 53` is not one of binary64, and leads to a record with the id `2 ^ 53`
instead of the one that carries it. -/
theorem not_findsExactly_above_twoPow53 :
    carries 9007199254740993 (.object [("id", .number (.float twoPow53))]) = false ∧
      carries 9007199254740993 (.object [("id", Json.ofInt 9007199254740993)]) = true ∧
      deleteById (.array [.object [("id", .number (.float twoPow53))],
        .object [("id", Json.ofInt 9007199254740993)]]) 9007199254740993 =
          .ok ⟨.array [.object [("id", Json.ofInt 9007199254740993)]],
            .object [("id", .number (.float twoPow53))]⟩ ∧
      ¬FindsExactly 9007199254740993 [.object [("id", .number (.float twoPow53))],
        .object [("id", Json.ofInt 9007199254740993)]] := by
  have hfirst : carries 9007199254740993 (.object [("id", .number (.float twoPow53))]) = false := by
    decide +kernel
  have hsecond : carries 9007199254740993
      (.object [("id", Json.ofInt 9007199254740993)]) = true := by
    decide +kernel
  have hhas : hasId 9007199254740993 (.object [("id", .number (.float twoPow53))]) = true := by
    decide +kernel
  have hposition : position? 9007199254740993 [.object [("id", .number (.float twoPow53))],
      .object [("id", Json.ofInt 9007199254740993)]] = some 0 :=
    position?_eq_some.2 ⟨_, rfl, hhas, fun j hj => absurd hj (Nat.not_lt_zero j)⟩
  have hdelete := deleteById_eq_ok.2 ⟨_, 0, _, rfl, hposition, rfl, rfl⟩
  refine ⟨hfirst, hsecond, hdelete, fun h => ?_⟩
  have hexact := h.delete 1 _ ⟨rfl, hsecond, ?_⟩
  · cases hdelete.symm.trans hexact
  · intro j hj other hother
    obtain rfl : j = 0 := by omega
    cases hother
    exact hfirst

/-! ### Ids that are never mistaken -/

/-- An id leads to the record that carries it in every collection exactly when it is a number of
binary64. -/
theorem forall_findsExactly_iff (id : Int64) :
    (∀ records, FindsExactly id records) ↔ ∃ x : Binary64, x.signedUnits = id.toInt * scale := by
  constructor
  · intro h
    -- a record with the rounded id is found by the id
    obtain ⟨x, hx⟩ : ∃ x, x = Binary64.ofInt id.toInt := ⟨_, rfl⟩
    refine ⟨x, not_not.1 fun hdiffers => ?_⟩
    have hmistaken : Mistaken id (.float x) := ⟨rfl, by rw [hx]; rfl, hdiffers⟩
    exact not_misled_of_findsExactly (h [.object [(idField, .number (.float x))]])
      ⟨0, _, _, rfl, id?_of_get? rfl, hmistaken, fun j hj => absurd hj (Nat.not_lt_zero j)⟩
  · rintro ⟨x, hx⟩ records
    refine findsExactly_of_not_misled ?_
    rintro ⟨i, record, n, -, -, hmistaken, -⟩
    exact not_mistaken_of_signedUnits hx hmistaken

/-- An id of at most `2 ^ 53` in size leads to the record that carries it. -/
theorem findsExactly_of_le (h : id.toInt.natAbs ≤ 2 ^ 53) (records : List Json) :
    FindsExactly id records :=
  (forall_findsExactly_iff id).2 (Binary64.exists_signedUnits_eq h) records

/-- Among whole ids of 64 signed bits, every id leads to the record that carries it. -/
theorem findsExactly_of_wholeIds (h : WholeIds records) (id : Int64) : FindsExactly id records := by
  refine findsExactly_of_not_misled ?_
  rintro ⟨i, record, n, hrecord, hn, hmistaken, -⟩
  obtain ⟨value, hvalue⟩ := h record (List.mem_of_getElem? hrecord) n hn
  cases hmistaken.inexact.symm.trans hvalue

end JsonShelf.Records
