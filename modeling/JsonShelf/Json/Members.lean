/-
**Ordered members.**

The members of an object are pairs of a key and a value, in the order in which the keys came.
Writing a key that is there keeps its place; a new key comes last.

Main definitions:

* `Members` — pairs of a key and a value;
* `Members.put` — writes one key;
* `Members.merge` — writes every member of a second list over a first;
* `Members.collapse` — each key once, at its first place and with its last value;
* `Members.get?`, `Members.keys` — the views that the operations are described by.

Main results:

* `Members.get?_put` — only the written key changes its value;
* `Members.keys_put` — a key that is there keeps its place, a new one comes last;
* `Members.nodup_keys_collapse` — collapsing leaves no key twice.
-/

set_option autoImplicit false

namespace JsonShelf

/-- Pairs of a key and a value, in order. -/
abbrev Members (α : Type) := List (String × α)

namespace Members

variable {α : Type}

/-- The keys, in order. -/
def keys (members : Members α) : List String :=
  members.map Prod.fst

/-- The value of the first member with the key. -/
def get? (key : String) (members : Members α) : Option α :=
  members.lookup key

/-- Writes the key: its value is replaced in place, or the member is added at the end. -/
def put (key : String) (value : α) : Members α → Members α
  | [] => [(key, value)]
  | (k, v) :: rest => if k = key then (k, value) :: rest else (k, v) :: put key value rest

/-- Writes the members of `patch` over `members`, one after the other. -/
def merge (members patch : Members α) : Members α :=
  patch.foldl (fun written member => put member.1 member.2 written) members

/-- Each key once, at its first place and with its last value. -/
def collapse (members : Members α) : Members α :=
  merge [] members

@[simp] theorem keys_nil : keys ([] : Members α) = [] := rfl

@[simp] theorem keys_cons (member : String × α) (rest : Members α) :
    keys (member :: rest) = member.1 :: keys rest := rfl

@[simp] theorem get?_nil (key : String) : get? key ([] : Members α) = none := rfl

theorem get?_cons (key : String) (member : String × α) (rest : Members α) :
    get? key (member :: rest) = if member.1 = key then some member.2 else get? key rest := by
  obtain ⟨k, v⟩ := member
  simp only [get?, List.lookup_cons]
  by_cases h : key = k
  · simp [h]
  · have hb : (key == k) = false := beq_eq_false_iff_ne.2 h
    simp [hb, Ne.symm h]

theorem get?_put (key other : String) (value : α) (members : Members α) :
    get? other (put key value members) =
      if key = other then some value else get? other members := by
  induction members with
  | nil => simp [put, get?_cons]
  | cons member rest ih =>
    simp only [put]
    split
    · next h => subst h; by_cases hk : member.1 = other <;> simp [get?_cons, hk]
    · next h =>
      rw [get?_cons, ih, get?_cons]
      by_cases hk : member.1 = other
      · have : ¬key = other := fun e => h (hk.trans e.symm)
        simp [hk, this]
      · simp [hk]

theorem keys_put (key : String) (value : α) (members : Members α) :
    keys (put key value members) =
      if key ∈ keys members then keys members else keys members ++ [key] := by
  induction members with
  | nil => rfl
  | cons member rest ih =>
    simp only [put]
    split
    · next h => simp [h]
    · next h =>
      have : ¬key = member.1 := fun e => h e.symm
      simp only [keys_cons, ih, List.mem_cons, this, false_or]
      split <;> rfl

theorem nodup_keys_put (key : String) (value : α) {members : Members α}
    (h : (keys members).Nodup) : (keys (put key value members)).Nodup := by
  rw [keys_put]
  split
  · exact h
  · next hk =>
    rw [List.nodup_append]
    refine ⟨h, by simp, ?_⟩
    intro a ha b hb
    rw [List.mem_singleton] at hb
    rintro rfl
    exact hk (hb ▸ ha)

theorem nodup_keys_merge {members : Members α} (h : (keys members).Nodup) (patch : Members α) :
    (keys (merge members patch)).Nodup := by
  induction patch generalizing members with
  | nil => exact h
  | cons member rest ih => exact ih (nodup_keys_put member.1 member.2 h)

theorem nodup_keys_collapse (members : Members α) : (keys (collapse members)).Nodup :=
  nodup_keys_merge (by simp) members

end Members

end JsonShelf
