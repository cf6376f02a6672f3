/-
**Masked times.**

Two documents are compared after a fixed word took the place of every time in them.  What this hides
is settled place by place: a place leads to a time, lies inside one, or lies outside all of them.

Main definitions:

* `Snapshot.IsTime` — a path leads to a time;
* `Snapshot.InsideTime` — a path leads on from a time;
* `Snapshot.AgreeOutsideTimes` — two documents differ at most in what their times are.

Main results:

* `Snapshot.maskTimes_object_of_nodup` — the time of an object may be masked first, and everything
  in the object after that;
* `Snapshot.resolve?_maskTimes` — what stands in the masked document at a place outside all times;
* `Snapshot.maskTimes_eq_iff` — documents that look the same when masked agree outside their times;
* `Snapshot.maskTimes_hides_only_times` — **masking is blind to times and to nothing else**.
-/

import JsonShelf.Proofs.Json.Places
import JsonShelf.Snapshot
import Mathlib.Data.List.Induction

set_option autoImplicit false

namespace JsonShelf.Snapshot

open Json

variable {value value' new inner inner' : Json} {segment : Segment} {path : Path}

/-! ### What masking does one step inside -/

/-- The value that takes the place of what is one step inside. -/
def maskAt (segment : Segment) (inner : Json) : Json :=
  if segment = .key timeMember ∧ inner ≠ .null then .string placeholder else maskTimes inner

theorem maskAt_time (h : inner ≠ .null) : maskAt (.key timeMember) inner = .string placeholder :=
  if_pos ⟨rfl, h⟩

theorem maskAt_of_not (h : ¬(segment = .key timeMember ∧ inner ≠ .null)) :
    maskAt segment inner = maskTimes inner :=
  if_neg h

theorem maskTimes_array (items : List Json) :
    maskTimes (.array items) = .array (items.map maskTimes) := by
  refine congrArg array ?_
  induction items with
  | nil => rfl
  | cons item rest ih => rw [maskItems, ih, List.map_cons]

theorem maskTimes_object (members : Members Json) :
    maskTimes (.object members) =
      .object (members.map fun member => (member.1, maskAt (.key member.1) member.2)) := by
  refine congrArg object ?_
  induction members with
  | nil => rfl
  | cons member rest ih => simp [maskMembers, ih, maskAt]

theorem maskAt_index (n : ℕ) (inner : Json) : maskAt (.index n) inner = maskTimes inner := by
  refine maskAt_of_not ?_
  rintro ⟨h, -⟩
  cases h

/-- One step into the masked value. -/
theorem step?_maskTimes (value : Json) (segment : Segment) :
    (maskTimes value).step? segment = (value.step? segment).map (maskAt segment) := by
  cases value with
  | null | bool | number | string => cases segment <;> rfl
  | array items =>
      cases segment with
      | index n =>
          rw [maskTimes_array, funext (maskAt_index n)]
          exact List.getElem?_map
      | key key => rfl
  | object members =>
      cases segment with
      | index n => rfl
      | key key =>
          rw [maskTimes_object]
          exact Members.get?_map key (fun name => maskAt (.key name)) members

/-- What is put somewhere is masked there. -/
theorem maskTimes_put (new : Json) (segment : Segment) (value : Json) :
    maskTimes (put new segment value) = put (maskAt segment new) segment (maskTimes value) := by
  cases value with
  | null | bool | number | string => cases segment <;> rfl
  | array items =>
      cases segment with
      | index n =>
          rw [maskAt_index, put, maskTimes_array, maskTimes_array, put, List.map_set]
      | key key => rfl
  | object members =>
      cases segment with
      | index n => rfl
      | key key =>
          rw [put, maskTimes_object, maskTimes_object]
          exact congrArg object (Members.map_put key new (fun name => maskAt (.key name)) members)

theorem eq_null_of_maskTimes (h : maskTimes value = .null) : value = .null := by
  cases value with
  | null => rfl
  | bool | number | string | array | object => cases h

/-- Values that look the same when masked are masked alike wherever they stand. -/
theorem maskAt_congr (h : maskTimes inner = maskTimes inner') (segment : Segment) :
    maskAt segment inner = maskAt segment inner' := by
  have hnull : inner = .null ↔ inner' = .null :=
    ⟨fun e => eq_null_of_maskTimes (h ▸ congrArg maskTimes e),
      fun e => eq_null_of_maskTimes (h.symm ▸ congrArg maskTimes e)⟩
  simp only [maskAt, ne_eq, hnull, h]

/-- What was masked where it stands is masked there once more without a change. -/
theorem maskAt_maskAt (h : maskTimes (maskTimes inner) = maskTimes inner) (segment : Segment) :
    maskAt segment (maskAt segment inner) = maskAt segment inner := by
  by_cases htime : segment = .key timeMember ∧ inner ≠ .null
  · obtain ⟨rfl, hnull⟩ := htime
    rw [maskAt_time hnull]
    rfl
  · rw [maskAt_of_not htime, maskAt_congr h, maskAt_of_not htime]

/-- What a value shows without its contents is not masked. -/
theorem outline_maskTimes (value : Json) : outline (maskTimes value) = outline value := by
  cases value with
  | null | bool | number | string => rfl
  | array items =>
      rw [maskTimes_array, outline, outline, List.map_map]
      rfl
  | object members =>
      rw [maskTimes_object, outline, outline, List.map_map]
      rfl

/-- A masked value is masked once more without a change. -/
theorem maskTimes_maskTimes (value : Json) : maskTimes (maskTimes value) = maskTimes value := by
  induction value using Json.induction with
  | null | bool | number | string => rfl
  | array items ih =>
      rw [maskTimes_array, maskTimes_array, List.map_map]
      exact congrArg array (List.map_congr_left ih)
  | object members ih =>
      rw [maskTimes_object, maskTimes_object, List.map_map]
      exact congrArg object (List.map_congr_left fun member hmember =>
        Prod.ext rfl (maskAt_maskAt (ih member hmember) (.key member.1)))

/-- Every object in the masked value holds each key once, if it did so before. -/
theorem canonical_maskTimes (h : value.Canonical) : (maskTimes value).Canonical := by
  induction value using Json.induction with
  | null | bool | number | string => trivial
  | array items ih =>
      rw [Canonical, canonicalItems_iff] at h
      rw [maskTimes_array, Canonical, canonicalItems_iff, List.forall_mem_map]
      exact fun item hitem => ih item hitem (h item hitem)
  | object members ih =>
      rw [Canonical, canonicalMembers_iff] at h
      rw [maskTimes_object, Canonical, Members.keys_map, canonicalMembers_iff, List.forall_mem_map]
      refine ⟨h.1, fun member hmember => ?_⟩
      change (maskAt (.key member.1) member.2).Canonical
      rw [maskAt]
      split
      · trivial
      · exact ih member hmember (h.2 member hmember)

/-! ### The time of an object first -/

/-- The members with the time of their object masked, and nothing else. -/
def maskOwnTime (members : Members Json) : Members Json :=
  match Members.get? timeMember members with
  | some time =>
    if time = .null then members else Members.put timeMember (.string placeholder) members
  | none => members

theorem maskOwnTime_cases (members : Members Json) :
    (∃ time, Members.get? timeMember members = some time ∧ time ≠ .null ∧
      maskOwnTime members = Members.put timeMember (.string placeholder) members) ∨
    ((∀ time, Members.get? timeMember members = some time → time = .null) ∧
      maskOwnTime members = members) := by
  unfold maskOwnTime
  split
  · next time htime =>
    split
    · next hnull => exact .inr ⟨fun _ h => Option.some.inj (htime.symm.trans h) ▸ hnull, rfl⟩
    · next hnull => exact .inl ⟨time, htime, hnull, rfl⟩
  · next hnone =>
    refine .inr ⟨fun time htime => ?_, rfl⟩
    rw [hnone] at htime
    cases htime

theorem keys_maskOwnTime (members : Members Json) :
    Members.keys (maskOwnTime members) = Members.keys members := by
  rcases maskOwnTime_cases members with ⟨time, htime, -, hmask⟩ | ⟨-, hmask⟩
  · rw [hmask, Members.keys_put, if_pos (Members.exists_get?_iff.1 ⟨time, htime⟩)]
  · rw [hmask]

theorem get?_maskOwnTime (key : String) (members : Members Json) :
    (Members.get? key (maskOwnTime members)).map maskTimes =
      (Members.get? key members).map (maskAt (.key key)) := by
  rcases maskOwnTime_cases members with ⟨time, htime, hnull, hmask⟩ | ⟨hnull, hmask⟩
  · rw [hmask, Members.get?_put]
    split
    · next hkey =>
      rw [← hkey, htime, Option.map_some, Option.map_some, maskAt_time hnull]
      rfl
    · next hkey =>
      exact Option.map_congr fun _ _ =>
        (maskAt_of_not fun h => hkey (Segment.key.inj h.1).symm).symm
  · rw [hmask]
    refine Option.map_congr fun inner hinner => (maskAt_of_not fun h => h.2 (hnull inner ?_)).symm
    rw [← Segment.key.inj h.1, hinner]

/-- The time of an object may be masked first, and everything in the object after that. -/
theorem maskTimes_object_of_nodup {members : Members Json} (h : (Members.keys members).Nodup) :
    maskTimes (.object members) =
      .object ((maskOwnTime members).map fun member => (member.1, maskTimes member.2)) := by
  rw [maskTimes_object]
  refine congrArg object (Members.eq_of_get? ?_ ?_ fun key inner inner' hget hget' => ?_)
  · rwa [Members.keys_map]
  · rw [Members.keys_map, Members.keys_map, keys_maskOwnTime]
  · rw [Members.get?_map key (fun name => maskAt (.key name))] at hget
    rw [Members.get?_map key (fun _ => maskTimes), get?_maskOwnTime, hget] at hget'
    exact Option.some.inj hget'

/-! ### Places and times -/

/-- The path leads to a time: to the value of such a member, unless it is null. -/
def IsTime (value : Json) (path : Path) : Prop :=
  ∃ front time, path = front ++ [.key timeMember] ∧ value.resolve? path = some time ∧ time ≠ .null

/-- The path leads on from a time, or would do so. -/
def InsideTime (value : Json) (path : Path) : Prop :=
  ∃ front segment rest, path = front ++ segment :: rest ∧ IsTime value front

theorem not_insideTime_nil : ¬InsideTime value [] := by
  rintro ⟨front, segment, rest, h, -⟩
  cases (List.append_eq_nil_iff.1 h.symm).2

theorem not_isTime_nil : ¬IsTime value [] := by
  rintro ⟨front, time, h, -⟩
  cases (List.append_eq_nil_iff.1 h.symm).2

theorem insideTime_concat :
    InsideTime value (path ++ [segment]) ↔ InsideTime value path ∨ IsTime value path := by
  constructor
  · rintro ⟨front, next, rest, h, htime⟩
    rcases List.eq_nil_or_concat rest with rfl | ⟨rest, last, rfl⟩
    · exact .inr ((List.append_inj' h rfl).1 ▸ htime)
    · rw [List.concat_eq_append, ← List.cons_append, ← List.append_assoc] at h
      exact .inl ⟨front, next, rest, (List.append_inj' h rfl).1, htime⟩
  · rintro (⟨front, next, rest, rfl, htime⟩ | htime)
    · exact ⟨front, next, rest ++ [segment], by simp, htime⟩
    · exact ⟨path, segment, [], rfl, htime⟩

theorem isTime_concat :
    IsTime value (path ++ [segment]) ↔
      segment = .key timeMember ∧
        ∃ time, value.resolve? (path ++ [segment]) = some time ∧ time ≠ .null := by
  constructor
  · rintro ⟨front, time, h, hresolve, hnull⟩
    exact ⟨List.singleton_inj.1 (List.append_inj' h rfl).2, time, hresolve, hnull⟩
  · rintro ⟨rfl, time, hresolve, hnull⟩
    exact ⟨path, time, rfl, hresolve, hnull⟩

/-! ### Masked places -/

/-- One step on from a place where the contents are masked. -/
theorem resolve?_maskTimes_concat
    (h : (maskTimes value).resolve? path = (value.resolve? path).map maskTimes)
    (segment : Segment) :
    (maskTimes value).resolve? (path ++ [segment]) =
      (value.resolve? (path ++ [segment])).map (maskAt segment) := by
  rw [resolve?_concat, resolve?_concat, h]
  cases value.resolve? path with
  | none => rfl
  | some inner => exact step?_maskTimes inner segment

/-- What stands at a place that is outside all times is masked. -/
theorem resolve?_maskTimes (hinside : ¬InsideTime value path) (htime : ¬IsTime value path) :
    (maskTimes value).resolve? path = (value.resolve? path).map maskTimes := by
  -- on the last step: the path before it is outside all times as well
  induction path using List.reverseRecOn with
  | nil => rfl
  | append_singleton path segment ih =>
      rw [insideTime_concat, not_or] at hinside
      rw [resolve?_maskTimes_concat (ih hinside.1 hinside.2)]
      refine Option.map_congr fun inner hinner => maskAt_of_not fun h => htime ?_
      exact isTime_concat.2 ⟨h.1, inner, hinner, h.2⟩

/-- The placeholder stands where a time stood. -/
theorem resolve?_maskTimes_of_isTime (hinside : ¬InsideTime value path)
    (htime : IsTime value path) : (maskTimes value).resolve? path = some (.string placeholder) := by
  obtain ⟨front, time, rfl, hresolve, hnull⟩ := htime
  rw [insideTime_concat, not_or] at hinside
  rw [resolve?_maskTimes_concat (resolve?_maskTimes hinside.1 hinside.2), hresolve, Option.map_some,
    maskAt_time hnull]

/-- Nothing is left of what is inside a time. -/
theorem resolve?_maskTimes_of_insideTime (h : InsideTime value path) :
    (maskTimes value).resolve? path = none := by
  induction path using List.reverseRecOn with
  | nil => exact absurd h not_insideTime_nil
  | append_singleton path segment ih =>
      rw [resolve?_concat]
      by_cases hinside : InsideTime value path
      · rw [ih hinside, Option.bind_none]
      · have htime := (insideTime_concat.1 h).resolve_left hinside
        rw [resolve?_maskTimes_of_isTime hinside htime]
        cases segment <;> rfl

/-! ### What is hidden -/

/-- A time that is replaced by another one is masked alike. -/
theorem maskTimes_replace (htime : IsTime value path) (hnew : new ≠ .null) :
    maskTimes (replace new path value) = maskTimes value := by
  obtain ⟨front, time, rfl, hresolve, hnull⟩ := htime
  -- on the path to the object of the time: on the way, another object may itself be masked as a
  -- whole
  induction front generalizing value with
  | nil =>
      rw [List.nil_append, resolve?_cons, Option.bind_eq_some_iff] at hresolve
      obtain ⟨old, hstep, hold⟩ := hresolve
      obtain rfl := Option.some.inj hold
      rw [List.nil_append, replace_cons hstep, replace, maskTimes_put, maskAt_time hnew]
      refine put_of_step? ?_
      rw [step?_maskTimes, hstep, Option.map_some, maskAt_time hnull]
  | cons segment front ih =>
      rw [List.cons_append, resolve?_cons, Option.bind_eq_some_iff] at hresolve
      obtain ⟨next, hstep, hnext⟩ := hresolve
      rw [List.cons_append, replace_cons hstep, maskTimes_put, maskAt_congr (ih hnext)]
      refine put_of_step? ?_
      rw [step?_maskTimes, hstep, Option.map_some]

/-- The documents have their times in the same places, and show the same at every place that is
neither a time nor inside one. -/
def AgreeOutsideTimes (value value' : Json) : Prop :=
  ∀ path, ¬InsideTime value path → ¬InsideTime value' path →
    (IsTime value path ↔ IsTime value' path) ∧
      (¬IsTime value path →
        (value.resolve? path).map outline = (value'.resolve? path).map outline)

theorem AgreeOutsideTimes.insideTime_iff (h : AgreeOutsideTimes value value') :
    InsideTime value path ↔ InsideTime value' path := by
  induction path using List.reverseRecOn with
  | nil => exact iff_of_false not_insideTime_nil not_insideTime_nil
  | append_singleton path segment ih =>
      rw [insideTime_concat, insideTime_concat, ih]
      refine or_congr_right' fun hinside => ?_
      exact (h path (mt ih.1 hinside) hinside).1

theorem outline_resolve?_maskTimes (hinside : ¬InsideTime value path) (htime : ¬IsTime value path) :
    ((maskTimes value).resolve? path).map outline = (value.resolve? path).map outline := by
  rw [resolve?_maskTimes hinside htime, Option.map_map]
  exact congrArg (Option.map · _) (funext outline_maskTimes)

/-- The masked document has its times in the same places. -/
theorem isTime_maskTimes_iff (hinside : ¬InsideTime value path) :
    IsTime (maskTimes value) path ↔ IsTime value path := by
  constructor
  · rintro ⟨front, masked, rfl, hresolve, hnull⟩
    by_contra htime
    rw [resolve?_maskTimes hinside htime, Option.map_eq_some_iff] at hresolve
    obtain ⟨time, htime', rfl⟩ := hresolve
    exact htime ⟨front, time, rfl, htime', fun h => hnull (congrArg maskTimes h)⟩
  · intro htime
    obtain ⟨front, -, rfl, -⟩ := id htime
    exact ⟨front, _, rfl, resolve?_maskTimes_of_isTime hinside htime, nofun⟩

/-- Documents that look the same when masked agree outside their times. -/
theorem maskTimes_eq_iff (h : value.Canonical) (h' : value'.Canonical) :
    maskTimes value = maskTimes value' ↔ AgreeOutsideTimes value value' := by
  constructor
  · intro heq path hinside hinside'
    have htime : IsTime value path ↔ IsTime value' path := by
      rw [← isTime_maskTimes_iff hinside, ← isTime_maskTimes_iff hinside', heq]
    refine ⟨htime, fun hnot => ?_⟩
    rw [← outline_resolve?_maskTimes hinside hnot, heq,
      outline_resolve?_maskTimes hinside' (mt htime.2 hnot)]
  · intro hagree
    -- each of the three kinds of places shows the same in both masked documents
    refine eq_of_outlines (canonical_maskTimes h) (canonical_maskTimes h') fun path => ?_
    by_cases hinside : InsideTime value path
    · rw [resolve?_maskTimes_of_insideTime hinside,
        resolve?_maskTimes_of_insideTime (hagree.insideTime_iff.1 hinside)]
    · have hinside' : ¬InsideTime value' path := mt hagree.insideTime_iff.2 hinside
      obtain ⟨htime, hshow⟩ := hagree path hinside hinside'
      by_cases hhere : IsTime value path
      · rw [resolve?_maskTimes_of_isTime hinside hhere,
          resolve?_maskTimes_of_isTime hinside' (htime.1 hhere)]
      · rw [outline_resolve?_maskTimes hinside hhere,
          outline_resolve?_maskTimes hinside' (mt htime.2 hhere), hshow hhere]

/-- **Masking is blind to times and to nothing else.**  To mask once more changes nothing, and
neither does another time in the place of one.  The placeholder stands for each time, and every
other place shows what it showed, null where a time is missing.  So two documents are the same when
masked just if they agree outside their times. -/
theorem maskTimes_hides_only_times (value : Json) :
    maskTimes (maskTimes value) = maskTimes value ∧
    (∀ path new, IsTime value path → new ≠ .null →
      (replace new path value).resolve? path = some new ∧
        maskTimes (replace new path value) = maskTimes value) ∧
    (∀ path, InsideTime value path → (maskTimes value).resolve? path = none) ∧
    (∀ path, ¬InsideTime value path →
      (IsTime value path → (maskTimes value).resolve? path = some (.string placeholder)) ∧
      (¬IsTime value path →
        ((maskTimes value).resolve? path).map outline = (value.resolve? path).map outline) ∧
      (value.resolve? path = some .null → (maskTimes value).resolve? path = some .null)) ∧
    ∀ value', value.Canonical → value'.Canonical →
      (maskTimes value = maskTimes value' ↔ AgreeOutsideTimes value value') := by
  refine ⟨maskTimes_maskTimes value, fun path new htime hnew => ⟨?_, maskTimes_replace htime hnew⟩,
    fun path => resolve?_maskTimes_of_insideTime, fun path hinside => ⟨?_, ?_, ?_⟩,
    fun value' => maskTimes_eq_iff⟩
  · obtain ⟨-, time, -, hresolve, -⟩ := htime
    exact resolve?_replace hresolve
  · exact resolve?_maskTimes_of_isTime hinside
  · exact outline_resolve?_maskTimes hinside
  · intro hnull
    have htime : ¬IsTime value path := by
      rintro ⟨-, time, -, htime, hne⟩
      exact hne (Option.some.inj (htime.symm.trans hnull))
    rw [resolve?_maskTimes hinside htime, hnull]
    rfl

/-- A time that holds another one, beside an object with a missing one. -/
theorem maskTimes_hides_only_times_nested :
    let missing : String × Json := ("meta", .object [(timeMember, .null), ("size", .bool true)])
    let value : Json := .object [(timeMember, .object [(timeMember, .string "now")]), missing]
    let value' : Json := .object [(timeMember, .string "then"), missing]
    let time : Path := [.key timeMember]
    (IsTime value time ∧ ¬InsideTime value time ∧ Json.string "then" ≠ .null ∧
      replace (.string "then") time value = value' ∧
      maskTimes (replace (.string "then") time value) = maskTimes value ∧
      (maskTimes value).resolve? time = some (.string placeholder)) ∧
    (InsideTime value (time ++ time) ∧ (maskTimes value).resolve? (time ++ time) = none) ∧
    (value.resolve? [.key "meta", .key timeMember] = some .null ∧
      ¬InsideTime value [.key "meta", .key timeMember] ∧
      (maskTimes value).resolve? [.key "meta", .key timeMember] = some .null) ∧
    (value.Canonical ∧ value'.Canonical ∧ AgreeOutsideTimes value value') := by
  intro missing value value' time
  have hmeta : missing.2.Canonical := ⟨by decide, trivial, trivial, trivial⟩
  have hvalue : value.Canonical := ⟨by decide, ⟨by decide, trivial, trivial⟩, hmeta, trivial⟩
  have hvalue' : value'.Canonical := ⟨by decide, trivial, hmeta, trivial⟩
  have htime : IsTime value time := ⟨[], _, rfl, rfl, nofun⟩
  have hfirst : ∀ segment, ¬InsideTime value [segment] := by
    intro segment h
    rw [← List.nil_append [segment], insideTime_concat] at h
    exact h.elim not_insideTime_nil not_isTime_nil
  have hmissing : ¬InsideTime value [.key "meta", .key timeMember] := by
    intro h
    rw [← List.singleton_append, insideTime_concat, or_iff_right (hfirst _),
      ← List.nil_append [_], isTime_concat] at h
    exact absurd h.1 (by decide)
  have hinside : InsideTime value (time ++ time) := insideTime_concat.2 (.inr htime)
  obtain ⟨-, hreplace, hin, hout, hagree⟩ := maskTimes_hides_only_times value
  exact ⟨⟨htime, hfirst _, nofun, rfl, (hreplace time (.string "then") htime nofun).2,
      (hout time (hfirst _)).1 htime⟩,
    ⟨hinside, hin _ hinside⟩, ⟨rfl, hmissing, (hout _ hmissing).2.2 rfl⟩,
    hvalue, hvalue', (hagree value' hvalue hvalue').1 rfl⟩

end JsonShelf.Snapshot
