/-
**Reading a path normalises it.**

To read a path from a text, slashes are turned forward, and then, as long as the text begins with
`./`, every repetition of it is taken away at once.  What is left may begin with a slash or a dot of
its own, but never again with `./`, so there is one turn at most, and a path that obeys the rules is
left as it stands.

Main definitions:

* `DocPath.dots` — `./`, repeated;
* `DocPath.AfterDots` — what is left of a text after the longest repetition of `./` at its start;
* `DocPath.Strips` — the loop that takes `./` away, turn by turn.

Main results:

* `DocPath.afterDots_iff` — what is left does not begin with `./`, and nothing else is asked of it;
* `DocPath.afterDots_dropDots` — every text has such a rest;
* `DocPath.strips_iff` — the loop ends, after one turn at most, and with that rest;
* `DocPath.ofString_normalises` — **reading a path normalises it**, and changes nothing but texts
  that do not obey the rules.
-/

import JsonShelf.Proofs.Paths.Payloads
import Mathlib.Order.Bounds.Basic

set_option autoImplicit false

namespace JsonShelf.DocPath

variable {cs rest final : List Char} {count turns : ℕ} {s : String}

/-! ### Repetitions of `./` -/

/-- The text `./`, repeated. -/
def dots : ℕ → List Char
  | 0 => []
  | count + 1 => '.' :: '/' :: dots count

theorem begins_dots (count : ℕ) : ['.', '/'] <+: dots (count + 1) := ⟨dots count, rfl⟩

theorem dots_succ_eq_append (count : ℕ) : dots (count + 1) = dots count ++ ['.', '/'] := by
  induction count with
  | zero => rfl
  | succ count ih => exact congrArg (fun tail => '.' :: '/' :: tail) ih

theorem dropDots_dots_append (count : ℕ) (rest : List Char) :
    dropDots (dots count ++ rest) = dropDots rest := by
  induction count with
  | zero => rfl
  | succ count ih => exact ih

theorem exists_dots_append (cs : List Char) : ∃ count, cs = dots count ++ dropDots cs := by
  induction cs using dropDots.induct with
  | case1 rest ih =>
      obtain ⟨count, hcount⟩ := ih
      exact ⟨count + 1, congrArg (fun tail => '.' :: '/' :: tail) hcount⟩
  | case2 cs h => exact ⟨0, (dropDots_of_ne h).symm⟩

/-- What is left of a text after the longest repetition of `./` at its start. -/
structure AfterDots (cs : List Char) (count : ℕ) (rest : List Char) : Prop where
  eq_append : cs = dots count ++ rest
  isGreatest : IsGreatest {n | dots n <+: cs} count

/-- In front of a text that does not begin with `./`, a repetition is as long as it can be. -/
theorem le_of_prefix_dots {n : ℕ} (hrest : ¬['.', '/'] <+: rest)
    (h : dots n <+: dots count ++ rest) : n ≤ count := by
  induction n generalizing count with
  | zero => exact Nat.zero_le count
  | succ n ih =>
      cases count with
      | zero => exact absurd ((begins_dots n).trans h) hrest
      | succ count =>
          have htail : dots n <+: dots count ++ rest :=
            (List.cons_prefix_cons.1 (List.cons_prefix_cons.1 h).2).2
          exact Nat.succ_le_succ (ih htail)

/-- What is left does not begin with `./`, and nothing else is asked of it. -/
theorem afterDots_iff :
    AfterDots cs count rest ↔ cs = dots count ++ rest ∧ ¬['.', '/'] <+: rest := by
  constructor
  · rintro ⟨rfl, -, hgreatest⟩
    refine ⟨rfl, ?_⟩
    rintro ⟨tail, rfl⟩
    -- one more repetition would stand at the start
    have hmore : dots (count + 1) <+: dots count ++ (['.', '/'] ++ tail) := by
      rw [dots_succ_eq_append, ← List.append_assoc]
      exact List.prefix_append _ _
    exact absurd (hgreatest hmore) (Nat.not_succ_le_self count)
  · rintro ⟨rfl, hrest⟩
    exact ⟨rfl, List.prefix_append _ _, fun n hn => le_of_prefix_dots hrest hn⟩

/-- Every text has such a rest. -/
theorem afterDots_dropDots (cs : List Char) : ∃ count, AfterDots cs count (dropDots cs) := by
  obtain ⟨count, hcount⟩ := exists_dots_append cs
  exact ⟨count, afterDots_iff.2 ⟨hcount, not_begins_iff.2 (dropDots_ne cs)⟩⟩

/-- It is the rest that reading a path keeps. -/
theorem AfterDots.dropDots_eq (h : AfterDots cs count rest) : dropDots cs = rest := by
  obtain ⟨rfl, hrest⟩ := afterDots_iff.1 h
  rw [dropDots_dots_append, dropDots_of_ne (not_begins_iff.1 hrest)]

theorem AfterDots.begins_iff (h : AfterDots cs count rest) : ['.', '/'] <+: cs ↔ count ≠ 0 := by
  obtain ⟨rfl, hrest⟩ := afterDots_iff.1 h
  cases count with
  | zero => exact iff_of_false hrest fun hne => hne rfl
  | succ count =>
      have hbegins := (begins_dots count).trans (List.prefix_append (dots (count + 1)) rest)
      exact iff_of_true hbegins (Nat.succ_ne_zero count)

/-! ### The loop -/

/-- The loop ends with the last text after that many turns: as long as the text begins with `./`, a
turn goes on with what is left after all repetitions. -/
inductive Strips : List Char → ℕ → List Char → Prop
  | stop {cs : List Char} (h : ¬['.', '/'] <+: cs) : Strips cs 0 cs
  | turn {cs next final : List Char} {count turns : ℕ} (h : ['.', '/'] <+: cs)
      (htrim : AfterDots cs count next) (hnext : Strips next turns final) :
      Strips cs (turns + 1) final

theorem strips_of_not_begins (h : ¬['.', '/'] <+: cs) :
    Strips cs turns final ↔ turns = 0 ∧ final = cs := by
  constructor
  · intro hloop
    cases hloop with
    | stop => exact ⟨rfl, rfl⟩
    | turn hbegins => exact absurd hbegins h
  · rintro ⟨rfl, rfl⟩
    exact .stop h

/-- The loop ends, after one turn at most, and with what is left after the longest repetition. -/
theorem strips_iff (h : AfterDots cs count rest) :
    Strips cs turns final ↔ turns = min count 1 ∧ final = rest := by
  have hrest : ¬['.', '/'] <+: rest := (afterDots_iff.1 h).2
  by_cases hbegins : ['.', '/'] <+: cs
  · have hcount : min count 1 = 1 :=
      Nat.min_eq_right (Nat.one_le_iff_ne_zero.2 (h.begins_iff.1 hbegins))
    rw [hcount]
    constructor
    · intro hloop
      cases hloop with
      | stop hstop => exact absurd hbegins hstop
      | turn _ htrim hnext =>
          rw [← htrim.dropDots_eq, h.dropDots_eq, strips_of_not_begins hrest] at hnext
          exact ⟨congrArg Nat.succ hnext.1, hnext.2⟩
    · rintro ⟨rfl, rfl⟩
      exact .turn hbegins h (.stop hrest)
  · have hcount : count = 0 := not_not.1 (mt h.begins_iff.2 hbegins)
    have hcs : cs = rest := by rw [h.eq_append, hcount, dots, List.nil_append]
    rw [strips_of_not_begins hbegins, hcount, hcs, Nat.zero_min]

/-! ### Paths that are made from texts -/

/-- The text of a path is what is left, or a dot if nothing is. -/
theorem text_ofString (h : AfterDots (s.toList.map forward) count rest) :
    (ofString s).text = if rest = [] then "." else String.ofList rest := by
  rw [ofString, h.dropDots_eq]
  cases rest <;> rfl

/-- A text is left as it stands just if it obeys the rules of paths. -/
theorem text_ofString_eq_self_iff : (ofString s).text = s ↔ IsCanonical ⟨s⟩ := by
  rw [isCanonical_iff]
  exact ⟨fun h => (congrArg mk h).symm, fun h => (congrArg text h).symm⟩

/-- **Reading a path normalises it.**  The loop takes the longest repetition of `./` away, in one
turn at most, and ends with the rest of the text, for which a dot stands if it is empty.  The path
obeys the rules; a text that obeys them is left as it stands, and no other text is; so to read the
path once more changes nothing. -/
theorem ofString_normalises (s : String) :
    (∃ count rest, AfterDots (s.toList.map forward) count rest ∧
      (∀ turns final, Strips (s.toList.map forward) turns final ↔
        turns = min count 1 ∧ final = rest) ∧
      (ofString s).text = if rest = [] then "." else String.ofList rest) ∧
    (ofString s).IsCanonical ∧
    ((ofString s).text = s ↔ IsCanonical ⟨s⟩) ∧
    ofString (ofString s).text = ofString s := by
  obtain ⟨count, hrest⟩ := afterDots_dropDots (s.toList.map forward)
  exact ⟨⟨count, _, hrest, fun _ _ => strips_iff hrest, text_ofString hrest⟩,
    isCanonical_ofString s, text_ofString_eq_self_iff, ofString_text s⟩

/-- What is left may begin with a slash. -/
example : ofString ".\\.//a\\.\\b" = ⟨"/a/./b"⟩ := by decide

end JsonShelf.DocPath
