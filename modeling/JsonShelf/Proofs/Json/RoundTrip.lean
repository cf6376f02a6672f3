/-
**A written value reads back.**

A value written over several lines is read as that value, members in order, as long as its
containers nest no deeper than the reader lets them; past that the reader gives up, and for no other
reason.  Both halves are one induction on the value: `Json.Outcome` says what a reader makes of a
text for a value that may or may not fit.

Main results:

* `Json.readValue_prettyChars` — **what is written is read back, or nests too deep**;
* `Json.parse_pretty`, `Json.parse_pretty_of_lt` — the same of whole documents;
* `Json.nesting_le_of_parse` — a parsed document nests no deeper than the limit.
-/

import JsonShelf.Proofs.Json.Loops
import JsonShelf.Proofs.Json.Nesting

set_option autoImplicit false

namespace JsonShelf.Json

/-! ### The text of containers -/

theorem prettyItems_cons (level : ℕ) (item : Json) (items : List Json) :
    prettyItems level (item :: items) = newLine level ++ prettyChars level item ++
      items.flatMap fun x => ',' :: (newLine level ++ prettyChars level x) := by
  induction items generalizing item with
  | nil => rw [prettyItems, List.flatMap_nil, List.append_nil]
  | cons next rest ih => rw [prettyItems, ih, List.flatMap_cons, List.cons_append]

theorem prettyMembers_cons (level : ℕ) (member : String × Json) (members : Members Json) :
    prettyMembers level (member :: members) = newLine level ++ memberChars level member ++
      members.flatMap fun m => ',' :: (newLine level ++ memberChars level m) := by
  induction members generalizing member with
  | nil => rw [prettyMembers, List.flatMap_nil, List.append_nil, memberChars, List.append_assoc]
  | cons next rest ih =>
      rw [prettyMembers, ih, List.flatMap_cons]
      simp only [memberChars, List.append_assoc, List.cons_append]

theorem length_le_flatMap {α : Type} (text : α → List Char) {x : α} {xs : List α} (h : x ∈ xs) :
    (text x).length ≤ (xs.flatMap text).length := by
  induction xs with
  | nil => cases h
  | cons y ys ih =>
      rw [List.flatMap_cons, List.length_append]
      rcases List.mem_cons.1 h with rfl | h
      · omega
      · have := ih h
        omega

theorem length_le_flatMap_comma {α : Type} (text : α → List Char) (xs : List α) :
    xs.length ≤ (xs.flatMap fun x => ',' :: text x).length := by
  induction xs with
  | nil => exact Nat.le_refl _
  | cons y ys ih =>
      rw [List.flatMap_cons, List.length_append, List.length_cons, List.length_cons]
      omega

/-- No item has a longer text than the array that holds it, and there are fewer items than
characters. -/
theorem length_prettyChars_array {level : ℕ} {items : List Json} :
    (∀ x ∈ items, (prettyChars (level + 1) x).length ≤ (prettyChars level (.array items)).length) ∧
      items.length + 2 ≤ (prettyChars level (.array items)).length := by
  cases items with
  | nil => exact ⟨nofun, Nat.le_refl _⟩
  | cons item rest =>
      have hcount := length_le_flatMap_comma
        (fun x => newLine (level + 1) ++ prettyChars (level + 1) x) rest
      have hline : 1 ≤ (newLine (level + 1)).length := Nat.succ_le_succ (Nat.zero_le _)
      rw [prettyChars, prettyItems_cons]
      simp only [List.length_append, List.length_cons, List.length_nil]
      refine ⟨List.forall_mem_cons.2 ⟨by omega, ?_⟩, by omega⟩
      intro x hx
      have := length_le_flatMap
        (fun x => ',' :: (newLine (level + 1) ++ prettyChars (level + 1) x)) hx
      simp only [List.length_append, List.length_cons] at this
      omega

theorem length_prettyChars_object {level : ℕ} {members : Members Json} :
    (∀ m ∈ members, (memberChars (level + 1) m).length ≤
        (prettyChars level (.object members)).length) ∧
      members.length + 2 ≤ (prettyChars level (.object members)).length := by
  cases members with
  | nil => exact ⟨nofun, Nat.le_refl _⟩
  | cons member rest =>
      have hcount := length_le_flatMap_comma
        (fun m => newLine (level + 1) ++ memberChars (level + 1) m) rest
      have hline : 1 ≤ (newLine (level + 1)).length := Nat.succ_le_succ (Nat.zero_le _)
      rw [prettyChars, prettyMembers_cons]
      simp only [List.length_append, List.length_cons, List.length_nil]
      refine ⟨List.forall_mem_cons.2 ⟨by omega, ?_⟩, by omega⟩
      intro m hm
      have := length_le_flatMap
        (fun m => ',' :: (newLine (level + 1) ++ memberChars (level + 1) m)) hm
      simp only [List.length_append, List.length_cons] at this
      omega

theorem length_memberChars (level : ℕ) (member : String × Json) :
    (memberChars level member).length =
      (quote member.1).length + 2 + (prettyChars level member.2).length := by
  simp only [memberChars, List.length_append, List.length_cons]
  omega

/-! ### Values -/

/-- A character that is no space and neither opens a container nor closes an array. -/
structure Inert (c : Char) : Prop where
  isSpace : isSpace c = false
  ne_openArray : c ≠ '['
  ne_closeArray : c ≠ ']'
  ne_openObject : c ≠ '\x7b'

theorem inert_of_isDigit {c : Char} (h : Char.isDigit c = true) : Inert c where
  isSpace := by
    by_contra hspace
    simp only [isSpace, Bool.not_eq_false, Bool.or_eq_true, beq_iff_eq] at hspace
    rcases hspace with ((rfl | rfl) | rfl) | rfl
    all_goals exact absurd h (by decide)
  ne_openArray := by
    rintro rfl
    exact absurd h (by decide)
  ne_closeArray := by
    rintro rfl
    exact absurd h (by decide)
  ne_openObject := by
    rintro rfl
    exact absurd h (by decide)

/-- A scalar is read from its text, whose first character tells it from a container. -/
theorem readScalar_scalarText {value : Json} {bound : ℕ} {rest : List Char}
    (hv : value.nesting = 0) (hb : (scalarText value).length ≤ bound) (hr : Ends rest) :
    ∃ c cs, scalarText value = c :: cs ∧ Inert c ∧
      readScalar bound c (cs ++ rest) = .ok (value, rest) := by
  cases value with
  | null => exact ⟨'n', _, rfl, ⟨rfl, by decide, by decide, by decide⟩, rfl⟩
  | bool b =>
      cases b with
      | true => exact ⟨'t', _, rfl, ⟨rfl, by decide, by decide, by decide⟩, rfl⟩
      | false => exact ⟨'f', _, rfl, ⟨rfl, by decide, by decide, by decide⟩, rfl⟩
  | number n =>
      obtain ⟨c, cs, htext, hc⟩ := exists_cons_text n
      have hread := readScalar_number bound n htext hr
      refine ⟨c, cs, htext, ?_, hread⟩
      rcases hc with rfl | hc
      · exact ⟨rfl, by decide, by decide, by decide⟩
      · exact inert_of_isDigit hc
  | string s =>
      obtain ⟨cs, hquote, hread⟩ := readString_quote (s := s) hb rest
      refine ⟨'"', cs, hquote, ⟨rfl, by decide, by decide, by decide⟩, ?_⟩
      simp only [readScalar]
      rw [hread]
      rfl
  | array items => cases hv
  | object members => cases hv

theorem prettyChars_scalar {level : ℕ} {value : Json} (hv : value.nesting = 0) :
    prettyChars level value = scalarText value := by
  cases value with
  | null | bool | number | string => rw [prettyChars]
  | array items => cases hv
  | object members => cases hv

/-- The first character of a written value. -/
theorem exists_cons_prettyChars (level : ℕ) (value : Json) :
    ∃ c cs, prettyChars level value = c :: cs ∧ isSpace c = false ∧ c ≠ ']' := by
  by_cases hv : value.nesting = 0
  · obtain ⟨c, cs, htext, hc, _⟩ := readScalar_scalarText hv (Nat.le_refl _) ends_nil
    exact ⟨c, cs, by rw [prettyChars_scalar hv, htext], hc.isSpace, hc.ne_closeArray⟩
  · cases value with
    | null | bool | number | string => exact absurd rfl hv
    | array items => cases items <;> exact ⟨'[', _, rfl, rfl, by decide⟩
    | object members => cases members <;> exact ⟨'\x7b', _, rfl, rfl, by decide⟩

variable {bound limit : ℕ}

theorem readValue_space (cs : List Char) :
    readValue bound limit (' ' :: cs) = readValue bound limit cs := by
  have hskip : skipSpace (' ' :: cs) = skipSpace cs := List.dropWhile_cons_of_pos rfl
  cases limit <;> simp only [readValue, hskip]

theorem readValue_scalar {c : Char} (cs : List Char) (hc : Inert c) :
    readValue bound limit (c :: cs) = readScalar bound c cs := by
  cases limit <;>
    simp [readValue, skipSpace_cons hc.isSpace, hc.ne_openArray, hc.ne_openObject]

theorem readValue_array (cs : List Char) :
    readValue bound (limit + 1) ('[' :: cs) = (do
      let (read, rest) ← readItems (readValue bound limit) bound true cs
      return (.array read, rest)) := by
  simp [readValue, skipSpace_cons (c := '[') rfl]

theorem readValue_object (cs : List Char) :
    readValue bound (limit + 1) ('\x7b' :: cs) = (do
      let (read, rest) ← readMembers bound (readValue bound limit) bound true cs
      return (.object read, rest)) := by
  simp [readValue, skipSpace_cons (c := '\x7b') rfl]

theorem readValue_zero {c : Char} (cs : List Char) (hc : c = '[' ∨ c = '\x7b') :
    readValue bound 0 (c :: cs) = failAt .recursionLimit (c :: cs) := by
  have hspace : isSpace c = false := by rcases hc with rfl | rfl <;> rfl
  simp [readValue, skipSpace_cons hspace, hc]

/-- No container fits where none may open. -/
theorem outcome_zero {value : Json} {cs rest : List Char} {c : Char} (hv : 0 < value.nesting)
    (hc : c = '[' ∨ c = '\x7b') :
    Outcome (value.nesting ≤ 0) value rest (readValue bound 0 (c :: cs)) :=
  ⟨fun h => absurd h (Nat.not_le.2 hv), fun _ => ⟨_, readValue_zero cs hc, rfl⟩⟩

/-- A scalar fits everywhere. -/
theorem outcome_scalar {value : Json} {level : ℕ} {rest : List Char} (hv : value.nesting = 0)
    (hb : (prettyChars level value).length ≤ bound) (hr : Ends rest) :
    Outcome (value.nesting ≤ limit) value rest
      (readValue bound limit (prettyChars level value ++ rest)) := by
  rw [prettyChars_scalar hv] at hb ⊢
  obtain ⟨c, cs, htext, hc, hread⟩ := readScalar_scalarText hv hb hr
  refine Outcome.of_ok (hv ▸ Nat.zero_le limit) ?_
  rw [htext, List.cons_append, readValue_scalar _ hc, hread]

/-- An array fits where its items fit one container further in. -/
theorem outcome_array {items : List Json} {level : ℕ} {rest : List Char}
    (hb : items.length < bound)
    (hitem : ∀ x ∈ items, ∀ rest, Ends rest →
      Outcome (x.nesting ≤ limit) x rest
        (readValue bound limit (prettyChars (level + 1) x ++ rest))) :
    Outcome (nesting (.array items) ≤ limit + 1) (.array items) rest
      (readValue bound (limit + 1) (prettyChars level (.array items) ++ rest)) := by
  refine Outcome.congr nesting_array_le_iff.symm ?_
  obtain ⟨b, rfl⟩ : ∃ b, bound = b + 1 := ⟨bound - 1, by omega⟩
  cases items with
  | nil =>
      refine Outcome.of_ok nofun ?_
      have hclose := @readItems_close _ (readValue (b + 1) limit) b (']' :: rest) rest true
        (skipSpace_cons rfl _)
      show readValue (b + 1) (limit + 1) ('[' :: ']' :: rest) = _
      rw [readValue_array, hclose]
      rfl
  | cons x xs =>
      rw [List.length_cons, Nat.add_lt_add_iff_right] at hb
      have htail := readItems_tail (level + 1) level hb
        (fun y _ => exists_cons_prettyChars (level + 1) y)
        (fun y hy => hitem y (List.mem_cons_of_mem x hy)) rest
      have hends := ends_tail (fun y => newLine (level + 1) ++ prettyChars (level + 1) y) xs level
        (']' :: rest)
      -- the bracket, the first item on a line of its own, and the others with their commas
      have htext : prettyChars level (.array (x :: xs)) ++ rest =
          '[' :: (newLine (level + 1) ++ (prettyChars (level + 1) x ++
            (xs.flatMap (fun y => ',' :: (newLine (level + 1) ++ prettyChars (level + 1) y)) ++
              (newLine level ++ ']' :: rest)))) := by
        rw [prettyChars, prettyItems_cons]
        simp only [List.append_assoc, List.cons_append, List.nil_append]
      rw [htext]
      generalize xs.flatMap (fun y => ',' :: (newLine (level + 1) ++ prettyChars (level + 1) y)) ++
        (newLine level ++ ']' :: rest) = after at htail hends ⊢
      obtain ⟨c, cs, hx, hspace, hclose⟩ := exists_cons_prettyChars (level + 1) x
      have hread := hitem x List.mem_cons_self after hends
      have hline := skipSpace_newLine (level + 1) (c :: (cs ++ after))
      rw [hx, List.cons_append] at hread ⊢
      rw [readValue_array, readItems_first (hline.trans (skipSpace_cons hspace _)) hclose]
      refine Outcome.map Json.array (Outcome.congr List.forall_mem_cons.symm ?_)
      exact outcome_readItem hread htail

/-- An object fits where the values of its members fit one container further in. -/
theorem outcome_object {members : Members Json} {level : ℕ} {rest : List Char}
    (hb : members.length < bound)
    (hmember : ∀ m ∈ members, (quote m.1).length ≤ bound ∧ ∀ rest, Ends rest →
      Outcome (m.2.nesting ≤ limit) m.2 rest
        (readValue bound limit (' ' :: (prettyChars (level + 1) m.2 ++ rest)))) :
    Outcome (nesting (.object members) ≤ limit + 1) (.object members) rest
      (readValue bound (limit + 1) (prettyChars level (.object members) ++ rest)) := by
  refine Outcome.congr nesting_object_le_iff.symm ?_
  cases members with
  | nil =>
      obtain ⟨b, rfl⟩ : ∃ b, bound = b + 1 := ⟨bound - 1, by omega⟩
      refine Outcome.of_ok nofun ?_
      have hclose := @readMembers_close (b + 1) ('\x7d' :: rest) rest (readValue (b + 1) limit) b
        true (skipSpace_cons rfl _)
      show readValue (b + 1) (limit + 1) ('\x7b' :: '\x7d' :: rest) = _
      rw [readValue_object, hclose]
      rfl
  | cons m ms =>
      rw [List.length_cons] at hb
      obtain ⟨b, rfl⟩ : ∃ b, bound = b + 2 := ⟨bound - 2, by omega⟩
      have htail := readMembers_tail (p := fun v => v.nesting ≤ limit) (level + 1) level
        (by omega : ms.length < b + 1) (fun m' hm => hmember m' (List.mem_cons_of_mem m hm)) rest
      have hends := ends_tail (fun m => newLine (level + 1) ++ memberChars (level + 1) m) ms level
        ('\x7d' :: rest)
      have htext : prettyChars level (.object (m :: ms)) ++ rest =
          '\x7b' :: (newLine (level + 1) ++ (memberChars (level + 1) m ++
            (ms.flatMap (fun m => ',' :: (newLine (level + 1) ++ memberChars (level + 1) m)) ++
              (newLine level ++ '\x7d' :: rest)))) := by
        rw [prettyChars, prettyMembers_cons]
        simp only [List.append_assoc, List.cons_append, List.nil_append]
      rw [htext]
      generalize ms.flatMap (fun m => ',' :: (newLine (level + 1) ++ memberChars (level + 1) m)) ++
        (newLine level ++ '\x7d' :: rest) = after at htail hends ⊢
      obtain ⟨hquote, hvalue⟩ := hmember m List.mem_cons_self
      obtain ⟨cs, hm, hread⟩ := outcome_readMember hquote (hvalue after hends) htail
      have hline := skipSpace_newLine (level + 1) ('"' :: (cs ++ after))
      rw [hm, List.cons_append, readValue_object,
        readMembers_first (hline.trans (skipSpace_cons rfl _))]
      exact Outcome.map Json.object (Outcome.congr List.forall_mem_cons.symm hread)

/-- **What is written is read back, or nests too deep.** -/
theorem readValue_prettyChars (value : Json) {level bound limit : ℕ} {rest : List Char}
    (hb : (prettyChars level value).length ≤ bound) (hr : Ends rest) :
    Outcome (value.nesting ≤ limit) value rest
      (readValue bound limit (prettyChars level value ++ rest)) := by
  -- the induction is for all limits at once, since the contents are read with one container less
  induction value using Json.induction generalizing level limit rest with
  | null | bool | number | string =>
      refine outcome_scalar ?_ hb hr
      rfl
  | array items ih =>
      obtain ⟨hitems, hcount⟩ := @length_prettyChars_array level items
      cases limit with
      | zero =>
          obtain ⟨cs, hcs⟩ : ∃ cs, prettyChars level (.array items) ++ rest = '[' :: cs := by
            cases items <;> exact ⟨_, rfl⟩
          rw [hcs]
          exact outcome_zero (Nat.succ_pos _) (.inl rfl)
      | succ limit =>
          exact outcome_array (by omega) fun x hx rest hr => ih x hx ((hitems x hx).trans hb) hr
  | object members ih =>
      obtain ⟨hmembers, hcount⟩ := @length_prettyChars_object level members
      cases limit with
      | zero =>
          obtain ⟨cs, hcs⟩ : ∃ cs, prettyChars level (.object members) ++ rest = '\x7b' :: cs := by
            cases members <;> exact ⟨_, rfl⟩
          rw [hcs]
          exact outcome_zero (Nat.succ_pos _) (.inr rfl)
      | succ limit =>
          refine outcome_object (by omega) ?_
          intro m hm
          have hlength := hmembers m hm
          rw [length_memberChars] at hlength
          refine ⟨by omega, ?_⟩
          intro rest hr
          rw [readValue_space]
          exact ih m hm (by omega) hr

/-! ### What is read nests no deeper than it may -/

theorem nesting_of_readScalar {c : Char} {cs rest : List Char} {value : Json}
    (h : readScalar bound c cs = .ok (value, rest)) : value.nesting = 0 := by
  unfold readScalar at h
  split at h
  case h_6 =>
    split at h
    · obtain ⟨_, _, h⟩ := bind_eq_ok.1 h
      cases h
      rfl
    · cases h
  all_goals
    obtain ⟨_, _, h⟩ := bind_eq_ok.1 h
    cases h
    rfl

/-- A value that is read nests no deeper than the reader lets it. -/
theorem nesting_le_of_readValue {cs rest : List Char} {value : Json}
    (h : readValue bound limit cs = .ok (value, rest)) : value.nesting ≤ limit := by
  induction limit generalizing cs rest value with
  | zero =>
      simp only [readValue] at h
      split at h
      · cases h
      · split at h
        · cases h
        · exact Nat.le_of_eq (nesting_of_readScalar h)
  | succ limit ih =>
      simp only [readValue] at h
      split at h
      · cases h
      · split at h
        · obtain ⟨⟨items, last⟩, hitems, h⟩ := bind_eq_ok.1 h
          cases h
          refine nesting_array_le_iff.2 ?_
          intro x hx
          obtain ⟨ds, after, hread⟩ := exists_read_of_mem_readItems hitems x hx
          exact ih hread
        · split at h
          · obtain ⟨⟨members, last⟩, hmembers, h⟩ := bind_eq_ok.1 h
            cases h
            refine nesting_object_le_iff.2 ?_
            intro m hm
            obtain ⟨ds, after, hread⟩ := exists_read_of_mem_readMembers hmembers m hm
            exact ih hread
          · exact (nesting_of_readScalar h).le.trans (Nat.zero_le _)

/-! ### Documents -/

theorem parseRaw_pretty {value : Json} (h : value.nesting ≤ nestingLimit) :
    parseRaw value.pretty = .ok value := by
  have hread := (readValue_prettyChars value (Nat.le_succ (prettyChars 0 value).length)
    ends_nil).1 h
  rw [List.append_nil] at hread
  simp only [parseRaw, parseWith, pretty, String.toList_ofList, whole]
  rw [hread]
  rfl

theorem parseRaw_pretty_of_lt {value : Json} (h : nestingLimit < value.nesting) :
    ∃ e, parseRaw value.pretty = .error e ∧ e.fault = .recursionLimit := by
  obtain ⟨f, hread, hfault⟩ :=
    (readValue_prettyChars value (Nat.le_succ (prettyChars 0 value).length) ends_nil).2
      (Nat.not_le.2 h)
  rw [List.append_nil] at hread
  simp only [parseRaw, parseWith, pretty, String.toList_ofList, whole]
  rw [hread]
  exact ⟨_, rfl, hfault⟩

/-- **A written document reads back**, if its containers nest no deeper than the limit. -/
theorem parse_pretty {value : Json} (hv : Canonical value) (h : value.nesting ≤ nestingLimit) :
    parse value.pretty = .ok value := by
  rw [parse, parseRaw_pretty h]
  exact congrArg Except.ok (canonical_eq_self hv)

/-- A document that nests deeper is written as a text that is refused, for its nesting. -/
theorem parse_pretty_of_lt {value : Json} (h : nestingLimit < value.nesting) :
    ∃ e, parse value.pretty = .error e ∧ e.fault = .recursionLimit := by
  obtain ⟨e, he, hfault⟩ := parseRaw_pretty_of_lt h
  exact ⟨e, by rw [parse, he]; rfl, hfault⟩

/-- A parsed document nests no deeper than the limit. -/
theorem nesting_le_of_parse {text : String} {value : Json} (h : parse text = .ok value) :
    value.nesting ≤ nestingLimit := by
  obtain ⟨raw, hraw, rfl⟩ := map_eq_ok.1 h
  refine (nesting_canonical_le raw).trans ?_
  obtain ⟨⟨read, rest⟩, hread, hend⟩ := bind_eq_ok.1 (mapError_eq_ok.1 hraw)
  have hle := nesting_le_of_readValue hread
  simp only at hend
  split at hend
  · cases hend
    exact hle
  · cases hend

end JsonShelf.Json
