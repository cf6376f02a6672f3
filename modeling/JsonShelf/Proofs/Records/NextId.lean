/-
**The id of a new record.**

The next id is computed in one of two ways.  While every id is a whole number that a signed word of
64 bits holds, it is one more than the greatest; as soon as one is not, or the sum does not fit, the
greatest is taken as a binary64 number and the sum with one is rounded.

Main definitions:

* `Records.WholeIds` — every id of a record is a whole number of 64 signed bits;
* `Records.wholeId` — the id of a record as a whole number, zero if it has none;
* `Records.IsTop` — the greatest id as a binary64 number.

Main results:

* `Records.nextId_of_wholeIds` — **with whole ids the next id is one more than the greatest**;
* `Records.nextId_of_not_wholeIds` — otherwise it is the rounded sum of the greatest with one.
-/

import JsonShelf.Proofs.Binary64.Order
import JsonShelf.Proofs.Records.Mutation

set_option autoImplicit false

namespace JsonShelf

namespace Number

variable {n : Number} {value : ℤ}

theorem toInt64?_eq_some (h : n.toInt64? = some value) :
    ∃ lower upper, n = .whole value lower upper ∧ value < 2 ^ 63 := by
  cases n with
  | whole v lower upper =>
      simp only [toInt64?] at h
      split at h
      · next hlt =>
        cases h
        exact ⟨lower, upper, rfl, hlt⟩
      · cases h
  | float x => cases h

theorem toBinary64_of_toInt64? (h : n.toInt64? = some value) :
    n.toBinary64 = Binary64.ofInt value := by
  obtain ⟨_, _, rfl, _⟩ := toInt64?_eq_some h
  rfl

theorem toInt64?_ofInt64 (k : Int64) : (ofInt64 k).toInt64? = some k.toInt := by
  have hlt := Int64.toInt_lt k
  rw [ofInt64, toInt64?, if_pos (by omega)]

end Number

namespace Records

variable {records : List Json} {record : Json}

/-! ### Greatest numbers -/

theorem le_greatestInt (first : ℤ) (rest : List ℤ) :
    ∀ value ∈ first :: rest, value ≤ greatestInt first rest := by
  induction rest generalizing first with
  | nil =>
      intro value hvalue
      rw [List.mem_singleton.1 hvalue]
      exact le_rfl
  | cons next rest ih =>
      have hmax := ih (max first next)
      intro value hvalue
      rcases List.mem_cons.1 hvalue with rfl | hvalue
      · exact (le_max_left _ _).trans (hmax _ List.mem_cons_self)
      · rcases List.mem_cons.1 hvalue with rfl | hvalue
        · exact (le_max_right _ _).trans (hmax _ List.mem_cons_self)
        · exact hmax value (List.mem_cons_of_mem _ hvalue)

theorem greatestInt_mem (first : ℤ) (rest : List ℤ) :
    greatestInt first rest ∈ first :: rest := by
  induction rest generalizing first with
  | nil => exact List.mem_singleton_self first
  | cons next rest ih =>
      rcases List.mem_cons.1 (ih (max first next)) with h | h
      · rcases max_choice first next with hmax | hmax
        · rw [hmax] at h
          exact List.mem_cons.2 (.inl ((congrArg (greatestInt · rest) hmax).trans h))
        · rw [hmax] at h
          exact List.mem_cons_of_mem _
            (List.mem_cons.2 (.inl ((congrArg (greatestInt · rest) hmax).trans h)))
      · exact List.mem_cons_of_mem _ (List.mem_cons_of_mem _ h)

theorem le_greatestFloat (first : Binary64) (rest : List Binary64) :
    ∀ x ∈ first :: rest, x.signedUnits ≤ (greatestFloat first rest).signedUnits := by
  induction rest generalizing first with
  | nil =>
      intro x hx
      rw [List.mem_singleton.1 hx]
      exact le_rfl
  | cons next rest ih =>
      have hmax := ih (Binary64.max first next)
      have hle := Binary64.le_max first next
      intro x hx
      rcases List.mem_cons.1 hx with rfl | hx
      · exact hle.1.trans (hmax _ List.mem_cons_self)
      · rcases List.mem_cons.1 hx with rfl | hx
        · exact hle.2.trans (hmax _ List.mem_cons_self)
        · exact hmax x (List.mem_cons_of_mem _ hx)

theorem greatestFloat_mem (first : Binary64) (rest : List Binary64) :
    greatestFloat first rest ∈ first :: rest := by
  induction rest generalizing first with
  | nil => exact List.mem_singleton_self first
  | cons next rest ih =>
      rcases List.mem_cons.1 (ih (Binary64.max first next)) with h | h
      · rcases Binary64.max_eq_or first next with hmax | hmax
        · rw [hmax] at h
          exact List.mem_cons.2 (.inl ((congrArg (greatestFloat · rest) hmax).trans h))
        · rw [hmax] at h
          exact List.mem_cons_of_mem _
            (List.mem_cons.2 (.inl ((congrArg (greatestFloat · rest) hmax).trans h)))
      · exact List.mem_cons_of_mem _ (List.mem_cons_of_mem _ h)

/-! ### Whole ids -/

/-- Every id of a record is a whole number that a signed word of 64 bits holds. -/
def WholeIds (records : List Json) : Prop :=
  ∀ record ∈ records, ∀ n, id? record = some n → ∃ value, n.toInt64? = some value

/-- The id of a record as a whole number; zero if it has none. -/
def wholeId (record : Json) : ℤ :=
  ((id? record).bind Number.toInt64?).getD 0

theorem wholeId_of_id? {n : Number} {value : ℤ} (hid : id? record = some n)
    (hn : n.toInt64? = some value) : wholeId record = value := by
  rw [wholeId, hid, Option.bind_some, hn, Option.getD_some]

theorem toInt64?_idOrZero (h : ∀ n, id? record = some n → ∃ value, n.toInt64? = some value) :
    (idOrZero record).toInt64? = some (wholeId record) := by
  cases hid : id? record with
  | none =>
      rw [idOrZero, wholeId, hid]
      rfl
  | some n =>
      obtain ⟨value, hvalue⟩ := h n hid
      rw [wholeId_of_id? hid hvalue, idOrZero, hid]
      exact hvalue

theorem mapM_toInt64?_of_wholeIds (h : WholeIds records) :
    (records.map idOrZero).mapM Number.toInt64? = some (records.map wholeId) := by
  induction records with
  | nil => rfl
  | cons record rest ih =>
      have hrest := ih fun other hother => h other (List.mem_cons_of_mem record hother)
      rw [List.map_cons, List.map_cons, List.mapM_cons, hrest,
        toInt64?_idOrZero (h record List.mem_cons_self)]
      rfl

/-- If all numbers that count are whole, so are the ids among them. -/
theorem wholeIds_of_mapM_toInt64? {values : List ℤ}
    (h : (records.map idOrZero).mapM Number.toInt64? = some values) : WholeIds records := by
  induction records generalizing values with
  | nil => exact nofun
  | cons record rest ih =>
      rw [List.map_cons, List.mapM_cons, Option.bind_eq_bind, Option.bind_eq_some_iff] at h
      obtain ⟨value, hvalue, h⟩ := h
      rw [Option.bind_eq_bind, Option.bind_eq_some_iff] at h
      obtain ⟨others, hothers, -⟩ := h
      intro other hother n hn
      rcases List.mem_cons.1 hother with rfl | hother
      · rw [idOrZero, hn] at hvalue
        exact ⟨value, hvalue⟩
      · exact ih hothers other hother n hn

/-! ### The greatest id in binary64 -/

/-- The greatest id as a binary64 number; a record without one counts for zero. -/
structure IsTop (top : Binary64) (records : List Json) : Prop where
  mem : ∃ record ∈ records, (idOrZero record).toBinary64 = top
  le : ∀ record ∈ records, (idOrZero record).toBinary64.signedUnits ≤ top.signedUnits

theorem IsTop.signedUnits_eq {x y : Binary64} (hx : IsTop x records) (hy : IsTop y records) :
    x.signedUnits = y.signedUnits := by
  obtain ⟨r, hr, rfl⟩ := hx.mem
  obtain ⟨s, hs, rfl⟩ := hy.mem
  exact le_antisymm (hy.le r hr) (hx.le s hs)

/-- The id that follows a greatest one in binary64. -/
def afterTop (top : Binary64) : Json :=
  (top.addOne?.map idOfFloat).getD .null

theorem exists_isTop (record : Json) (rest : List Json) :
    ∃ top, IsTop top (record :: rest) ∧
      successorFloat (idOrZero record) (rest.map idOrZero) = afterTop top := by
  have hmap : (idOrZero record).toBinary64 :: (rest.map idOrZero).map Number.toBinary64 =
      (record :: rest).map fun r => (idOrZero r).toBinary64 := by
    rw [List.map_map, List.map_cons]
    rfl
  obtain ⟨top, htop⟩ : ∃ top, top = greatestFloat (idOrZero record).toBinary64
    ((rest.map idOrZero).map Number.toBinary64) := ⟨_, rfl⟩
  have hle := le_greatestFloat (idOrZero record).toBinary64
    ((rest.map idOrZero).map Number.toBinary64)
  have hmem := greatestFloat_mem (idOrZero record).toBinary64
    ((rest.map idOrZero).map Number.toBinary64)
  rw [← htop, hmap] at hle hmem
  refine ⟨top, ⟨List.mem_map.1 hmem, fun r hr => hle _ (List.mem_map.2 ⟨r, hr, rfl⟩)⟩, ?_⟩
  unfold successorFloat afterTop
  rw [← htop]
  cases top.addOne? <;> rfl

/-! ### The next id -/

/-- **With whole ids the next id is one more than the greatest**, if that is a whole number of 64
signed bits. -/
theorem nextId_of_wholeIds (h : WholeIds records) (hne : records ≠ []) :
    ∃ top, top ∈ records.map wholeId ∧ (∀ record ∈ records, wholeId record ≤ top) ∧
      (top + 1 < 2 ^ 63 → nextId records = Json.ofInt (top + 1)) ∧
      (2 ^ 63 ≤ top + 1 → ∃ x, IsTop x records ∧ nextId records = afterTop x) := by
  cases records with
  | nil => exact absurd rfl hne
  | cons record rest =>
      have hmapM := mapM_toInt64?_of_wholeIds h
      have hle := le_greatestInt (wholeId record) (rest.map wholeId)
      have hmem := greatestInt_mem (wholeId record) (rest.map wholeId)
      obtain ⟨x, hx, hsuccessor⟩ := exists_isTop record rest
      rw [List.map_cons, List.map_cons] at hmapM
      simp only [nextId, List.map_cons, hmapM]
      refine ⟨greatestInt (wholeId record) (rest.map wholeId), hmem,
        fun r hr => hle _ (List.mem_map_of_mem hr), fun hlt => if_pos hlt, fun hge => ?_⟩
      exact ⟨x, hx, (if_neg (not_lt.2 hge)).trans hsuccessor⟩

/-- Otherwise the next id is the rounded sum of the greatest with one. -/
theorem nextId_of_not_wholeIds (h : ¬WholeIds records) :
    ∃ x, IsTop x records ∧ nextId records = afterTop x := by
  cases records with
  | nil => exact absurd nofun h
  | cons record rest =>
      obtain ⟨x, hx, hsuccessor⟩ := exists_isTop record rest
      refine ⟨x, hx, ?_⟩
      rw [← hsuccessor]
      cases hmapM : ((record :: rest).map idOrZero).mapM Number.toInt64? with
      | none =>
          rw [List.map_cons] at hmapM
          simp only [nextId, List.map_cons, hmapM]
      | some values => exact absurd (wholeIds_of_mapM_toInt64? hmapM) h

end Records

end JsonShelf
