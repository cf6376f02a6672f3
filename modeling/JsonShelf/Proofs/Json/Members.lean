/-
**Writing members.**

What a written key and a written patch leave in a list of members.

Main results:

* `Members.mem_put`, `Members.mem_merge` — every member was there before or is a written one;
* `Members.get?_merge` — the patch decides where it holds the key;
* `Members.keys_merge` — new keys come last, in the order of the patch;
* `Members.merge_merge` — **two patches in a row do what the second, written over the first, does at
  once**;
* `Members.forall_mem_iff_get?`, `Members.eq_of_get?` — with each key there once, members are found
  by their keys, and are the same if these and their values are;
* `Members.collapse_eq_self` — a list that holds each key once collapses to itself.
-/

import JsonShelf.Json.Members
import Mathlib.Data.List.Nodup

set_option autoImplicit false

namespace JsonShelf.Members

variable {α : Type} {key other : String} {value old : α} {members patch first second : Members α}

theorem get?_put_self (key : String) (value : α) (members : Members α) :
    get? key (put key value members) = some value := by
  rw [get?_put, if_pos rfl]

theorem mem_put {member : String × α} (h : member ∈ put key value members) :
    member = (key, value) ∨ member ∈ members := by
  induction members with
  | nil => exact .inl (List.mem_singleton.1 h)
  | cons first rest ih =>
      simp only [put] at h
      split at h
      · next hk =>
        rcases List.mem_cons.1 h with rfl | h
        · exact .inl (by rw [hk])
        · exact .inr (List.mem_cons_of_mem _ h)
      · rcases List.mem_cons.1 h with rfl | h
        · exact .inr List.mem_cons_self
        · rcases ih h with rfl | h
          · exact .inl rfl
          · exact .inr (List.mem_cons_of_mem _ h)

theorem merge_cons (members : Members α) (member : String × α) (patch : Members α) :
    merge members (member :: patch) = merge (put member.1 member.2 members) patch := rfl

theorem mem_merge {member : String × α} (h : member ∈ merge members patch) :
    member ∈ members ∨ member ∈ patch := by
  induction patch generalizing members with
  | nil => exact .inl h
  | cons first rest ih =>
      rcases ih h with h | h
      · rcases mem_put h with rfl | h
        · exact .inr List.mem_cons_self
        · exact .inl h
      · exact .inr (List.mem_cons_of_mem _ h)

theorem mem_of_get? (h : get? key members = some value) : (key, value) ∈ members := by
  induction members with
  | nil => cases h
  | cons first rest ih =>
      rw [get?_cons] at h
      split at h
      · next hk =>
        cases h
        rw [← hk]
        exact List.mem_cons_self
      · exact List.mem_cons_of_mem _ (ih h)

/-- A value stands under its key, and is found there if the key stands nowhere else. -/
theorem get?_of_mem (hk : (keys members).Nodup) (h : (key, value) ∈ members) :
    get? key members = some value := by
  induction members with
  | nil => cases h
  | cons first rest ih =>
      rw [keys_cons, List.nodup_cons] at hk
      rw [get?_cons]
      rcases List.mem_cons.1 h with rfl | h
      · rw [if_pos rfl]
      · have hne : ¬first.1 = key := by
          intro e
          rw [e] at hk
          exact hk.1 (List.mem_map_of_mem (f := Prod.fst) h)
        rw [if_neg hne]
        exact ih hk.2 h

@[simp] theorem keys_append (front back : Members α) :
    keys (front ++ back) = keys front ++ keys back :=
  List.map_append

theorem put_of_notMem (h : key ∉ keys members) :
    put key value members = members ++ [(key, value)] := by
  induction members with
  | nil => rfl
  | cons first rest ih =>
      rw [keys_cons, List.mem_cons, not_or] at h
      rw [put, if_neg (fun e => h.1 e.symm), ih h.2, List.cons_append]

theorem merge_of_nodup (h : (keys members ++ keys patch).Nodup) :
    merge members patch = members ++ patch := by
  induction patch generalizing members with
  | nil => exact (List.append_nil members).symm
  | cons first rest ih =>
      have hnew : first.1 ∉ keys members := fun hm =>
        (List.nodup_append.1 h).2.2 _ hm _ List.mem_cons_self rfl
      have hput : put first.1 first.2 members = members ++ [first] := put_of_notMem hnew
      rw [merge_cons, hput, ih, List.append_assoc, List.singleton_append]
      rw [keys_append, List.append_assoc]
      exact h

theorem collapse_eq_self (h : (keys members).Nodup) : collapse members = members :=
  merge_of_nodup h

theorem get?_eq_none_of_notMem (h : key ∉ keys members) : get? key members = none := by
  induction members with
  | nil => rfl
  | cons first rest ih =>
      rw [keys_cons, List.mem_cons, not_or] at h
      rw [get?_cons, if_neg (fun e => h.1 e.symm), ih h.2]

theorem exists_get?_iff : (∃ value, get? key members = some value) ↔ key ∈ keys members := by
  induction members with
  | nil => exact ⟨nofun, nofun⟩
  | cons first rest ih =>
      rw [get?_cons, keys_cons, List.mem_cons]
      split
      · next heq => exact ⟨fun _ => .inl heq.symm, fun _ => ⟨_, rfl⟩⟩
      · next hne => rw [ih, or_iff_right (Ne.symm hne)]

theorem get?_filter_ne (name key : String) (members : Members α) :
    get? key (members.filter (·.1 != name)) = if name = key then none else get? key members := by
  induction members with
  | nil => exact (ite_self none).symm
  | cons first rest ih =>
      rw [List.filter_cons, get?_cons]
      split
      · next hkeep =>
        have hne : first.1 ≠ name := by simpa using hkeep
        rw [get?_cons, ih]
        split
        · next heq => rw [if_neg fun e => hne (heq.trans e.symm)]
        · rfl
      · next hdrop =>
        have heq : first.1 = name := by simpa using hdrop
        rw [ih, heq]
        split
        · rfl
        · rfl

/-- The patch decides where it holds the key. -/
theorem get?_merge (hp : (keys patch).Nodup) :
    get? key (merge members patch) = (get? key patch).or (get? key members) := by
  induction patch generalizing members with
  | nil => rfl
  | cons first rest ih =>
      rw [keys_cons, List.nodup_cons] at hp
      rw [merge_cons, ih hp.2, get?_put, get?_cons]
      split
      · next heq =>
        subst heq
        rw [get?_eq_none_of_notMem hp.1]
        rfl
      · rfl

/-- What is found under a key after each value was replaced, in a way that may depend on its key. -/
theorem get?_map {β : Type} (key : String) (f : String → α → β) (members : Members α) :
    get? key (members.map fun member => (member.1, f member.1 member.2)) =
      (get? key members).map (f key) := by
  induction members with
  | nil => rfl
  | cons first rest ih =>
      rw [List.map_cons, get?_cons, get?_cons, ih]
      split
      · next hk => rw [hk, Option.map_some]
      · rfl

theorem keys_map {β : Type} (f : String × α → β) (members : Members α) :
    keys (members.map fun member => (member.1, f member)) = keys members := by
  rw [keys, List.map_map]
  rfl

/-- What is written is replaced like what was there. -/
theorem map_put {β : Type} (key : String) (value : α) (f : String → α → β) (members : Members α) :
    (put key value members).map (fun member => (member.1, f member.1 member.2)) =
      put key (f key value) (members.map fun member => (member.1, f member.1 member.2)) := by
  induction members with
  | nil => rfl
  | cons first rest ih =>
      simp only [put, List.map_cons]
      split
      · next hk => rw [List.map_cons, hk]
      · rw [List.map_cons, ih]

/-- With each key there once, the members are what is found under the keys. -/
theorem forall_mem_iff_get? {p : String → α → Prop} (h : (keys members).Nodup) :
    (∀ member ∈ members, p member.1 member.2) ↔
      ∀ key value, get? key members = some value → p key value :=
  ⟨fun hall _ _ hget => hall _ (mem_of_get? hget),
    fun hall member hm => hall member.1 member.2 (get?_of_mem h hm)⟩

/-- Members that have the same keys, each there once, and the same values under them. -/
theorem eq_of_get? {members' : Members α} (h : (keys members).Nodup)
    (hkeys : keys members = keys members')
    (hget : ∀ key value value', get? key members = some value → get? key members' = some value' →
      value = value') :
    members = members' := by
  induction members generalizing members' with
  | nil => exact (List.map_eq_nil_iff.1 hkeys.symm).symm
  | cons first rest ih =>
      cases members' with
      | nil => cases hkeys
      | cons first' rest' =>
          rw [keys_cons, keys_cons, List.cons.injEq] at hkeys
          rw [keys_cons, List.nodup_cons] at h
          have hfirst : first.2 = first'.2 :=
            hget first.1 _ _ (by rw [get?_cons, if_pos rfl])
              (by rw [get?_cons, if_pos hkeys.1.symm])
          refine congrArg₂ List.cons (Prod.ext hkeys.1 hfirst) (ih h.2 hkeys.2 ?_)
          intro key value value' hvalue hvalue'
          have hne : first.1 ≠ key := by
            rintro rfl
            rw [get?_eq_none_of_notMem h.1] at hvalue
            cases hvalue
          refine hget key value value' ?_ ?_
          · rw [get?_cons, if_neg hne, hvalue]
          · rw [get?_cons, if_neg (hkeys.1 ▸ hne), hvalue']

/-! ### Writing twice -/

theorem mem_keys_put :
    other ∈ keys (put key value members) ↔ other = key ∨ other ∈ keys members := by
  rw [keys_put]
  split
  · next h => exact ⟨.inr, fun hor => hor.elim (fun e => e ▸ h) id⟩
  · rw [List.mem_append, List.mem_singleton, or_comm]

theorem mem_keys_merge :
    key ∈ keys (merge members patch) ↔ key ∈ keys members ∨ key ∈ keys patch := by
  induction patch generalizing members with
  | nil => exact (or_iff_left nofun).symm
  | cons first rest ih =>
      rw [merge_cons, ih, mem_keys_put, keys_cons, List.mem_cons, or_assoc, or_left_comm]

/-- What is written last stays. -/
theorem put_put_self (key : String) (value old : α) (members : Members α) :
    put key value (put key old members) = put key value members := by
  induction members with
  | nil => exact if_pos rfl
  | cons first rest ih =>
      simp only [put]
      split
      · next hkey => exact if_pos hkey
      · next hkey => rw [put, if_neg hkey, ih]

/-- A key that is there keeps its place, whatever else is written. -/
theorem put_put_of_mem {new : α} (hne : key ≠ other) (hmem : key ∈ keys members) :
    put key value (put other new members) = put other new (put key value members) := by
  induction members with
  | nil => cases hmem
  | cons first rest ih =>
      obtain ⟨k, v⟩ := first
      by_cases hkey : k = key
      · have hother : ¬k = other := fun e => hne (hkey.symm.trans e)
        simp only [put, if_pos hkey, if_neg hother]
      · have hrest : key ∈ keys rest := (List.mem_cons.1 hmem).resolve_left (Ne.symm hkey)
        by_cases hother : k = other
        · simp only [put, if_neg hkey, if_pos hother]
        · simp only [put, if_neg hkey, if_neg hother, ih hrest]

/-- Writing what is found under a key changes nothing. -/
theorem put_of_get? (h : get? key members = some value) : put key value members = members := by
  induction members with
  | nil => cases h
  | cons first rest ih =>
      rw [get?_cons] at h
      rw [put]
      split
      · next hkey =>
        rw [if_pos hkey] at h
        rw [← Option.some.inj h]
      · next hkey =>
        rw [if_neg hkey] at h
        rw [ih h]

/-- A new key that is written and taken away again leaves no trace. -/
theorem filter_put_of_get? (h : get? key members = none) :
    (put key value members).filter (·.1 != key) = members := by
  induction members with
  | nil => simp [put]
  | cons first rest ih =>
      rw [get?_cons] at h
      split at h
      · cases h
      · next hkey =>
        rw [put, if_neg hkey, List.filter_cons_of_pos (by simpa using hkey), ih h]

/-! ### Patches after one another -/

/-- The keys of a patch that are not there come last, in the order of the patch. -/
theorem keys_merge (hp : (keys patch).Nodup) :
    keys (merge members patch) = keys members ++ (keys patch).filter (· ∉ keys members) := by
  induction patch generalizing members with
  | nil => exact (List.append_nil _).symm
  | cons first rest ih =>
      rw [keys_cons, List.nodup_cons] at hp
      have hrest : (keys rest).filter (· ∉ keys (put first.1 first.2 members)) =
          (keys rest).filter (· ∉ keys members) := by
        refine List.filter_congr fun key hkey => decide_eq_decide.2 (not_congr ?_)
        have hne : key ≠ first.1 := fun e => hp.1 (e ▸ hkey)
        rw [mem_keys_put, or_iff_right hne]
      rw [merge_cons, ih hp.2, hrest, keys_put, keys_cons]
      by_cases hmem : first.1 ∈ keys members
      · rw [if_pos hmem, List.filter_cons_of_neg (by simpa using hmem)]
      · rw [if_neg hmem, List.filter_cons_of_pos (by simpa using hmem), List.append_assoc,
          List.singleton_append]

/-- A key that is written after a patch need not be written before it, if it is there. -/
theorem put_merge_put (hmem : key ∈ keys members) :
    put key value (merge (put key old members) patch) = put key value (merge members patch) := by
  induction patch generalizing members with
  | nil => exact put_put_self key value old members
  | cons first rest ih =>
      rw [merge_cons, merge_cons]
      by_cases hkey : key = first.1
      · rw [← hkey, put_put_self]
      · rw [← put_put_of_mem hkey hmem, ih (mem_keys_put.2 (.inr hmem))]

/-- A key that the patch leaves alone may be written before it. -/
theorem put_merge_of_notMem (hmem : key ∈ keys members) (hnew : key ∉ keys patch) :
    put key value (merge members patch) = merge (put key value members) patch := by
  induction patch generalizing members with
  | nil => rfl
  | cons first rest ih =>
      rw [keys_cons, List.mem_cons, not_or] at hnew
      rw [merge_cons, merge_cons, ih (mem_keys_put.2 (.inr hmem)) hnew.2,
        put_put_of_mem hnew.1 hmem]

/-- What is written over a patch is written after it. -/
theorem merge_put (hp : (keys patch).Nodup) :
    merge members (put key value patch) = put key value (merge members patch) := by
  induction patch generalizing members with
  | nil => rfl
  | cons first rest ih =>
      obtain ⟨k, v⟩ := first
      rw [keys_cons, List.nodup_cons] at hp
      rw [put, merge_cons]
      split
      · next hkey =>
        subst hkey
        rw [put_merge_of_notMem (mem_keys_put.2 (.inl rfl)) hp.1, put_put_self, merge_cons]
      · rw [merge_cons, ih hp.2]

/-- **Two patches in a row do what the second, written over the first, does at once.** -/
theorem merge_merge (hfirst : (keys first).Nodup) :
    merge (merge members first) second = merge members (merge first second) := by
  induction second generalizing first with
  | nil => rfl
  | cons member rest ih =>
      rw [merge_cons, merge_cons, ← merge_put hfirst, ih (nodup_keys_put member.1 member.2 hfirst)]

/-- A patch whose members are all there changes nothing. -/
theorem merge_of_get? (h : ∀ member ∈ patch, get? member.1 members = some member.2) :
    merge members patch = members := by
  induction patch with
  | nil => rfl
  | cons first rest ih =>
      rw [merge_cons, put_of_get? (h first List.mem_cons_self)]
      exact ih fun member hmember => h member (List.mem_cons_of_mem _ hmember)

theorem merge_self (h : (keys patch).Nodup) : merge patch patch = patch :=
  merge_of_get? fun _ hmember => get?_of_mem h hmember

end JsonShelf.Members

