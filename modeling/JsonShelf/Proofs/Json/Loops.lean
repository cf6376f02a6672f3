/-
**Reading items and members.**

The readers of arrays and objects are loops: a turn reads one item or member and looks at what comes
after it.  Each kind of turn is stated once here, and two results about whole loops follow: what a
loop makes of a written list, and that all it gives was read by the reader of values.

Main definitions:

* `Json.Outcome` — a value is read if it fits, and is refused for its nesting if it does not;
* `Json.readItem`, `Json.readMember` — what a turn does.

Main results:

* `Json.readItems_tail`, `Json.readMembers_tail` — **written items and members are read back**;
* `Json.exists_read_of_mem_readItems`, `Json.exists_read_of_mem_readMembers` — what is in a
  container was read from some place of the text.
-/

import JsonShelf.Proofs.Computation
import JsonShelf.Proofs.Json.NumberText
import JsonShelf.Proofs.Json.StringText

set_option autoImplicit false

namespace JsonShelf.Json

/-! ### Space and line ends -/

theorem skipSpace_cons {c : Char} (h : isSpace c = false) (cs : List Char) :
    skipSpace (c :: cs) = c :: cs := by
  rw [skipSpace, List.dropWhile_cons_of_neg (by rw [h]; decide)]

theorem skipSpace_newLine (level : ℕ) (cs : List Char) :
    skipSpace (newLine level ++ cs) = skipSpace cs := by
  refine List.dropWhile_append_of_pos ?_
  intro c hc
  rcases List.mem_cons.1 hc with rfl | h
  · rfl
  · rw [List.eq_of_mem_replicate h]
    rfl

theorem ends_newLine (level : ℕ) (cs : List Char) : Ends (newLine level ++ cs) := by
  rintro c _ ⟨⟩
  decide

theorem ends_comma (cs : List Char) : Ends (',' :: cs) := by
  rintro c _ ⟨⟩
  decide

theorem ends_nil : Ends [] := nofun

/-- What follows an item: a comma and another one, or the line end before the closing bracket. -/
theorem ends_tail {α : Type} (text : α → List Char) (others : List α) (close : ℕ)
    (rest : List Char) :
    Ends ((others.flatMap fun other => ',' :: text other) ++ (newLine close ++ rest)) := by
  cases others with
  | nil => exact ends_newLine close rest
  | cons other _ => exact ends_comma _

/-! ### Outcomes -/

/-- The value is read, with `rest` left, if it fits; and otherwise it is refused for its
nesting. -/
def Outcome {α : Type} (fits : Prop) (value : α) (rest : List Char)
    (result : Reading (α × List Char)) : Prop :=
  (fits → result = .ok (value, rest)) ∧
    (¬fits → ∃ f : Failure, result = .error f ∧ f.fault = .recursionLimit)

namespace Outcome

variable {α β : Type} {p q : Prop} {a : α} {b : β} {rest after : List Char}
  {result : Reading (α × List Char)} {next : α × List Char → Reading (β × List Char)}

theorem of_ok (hp : p) (h : result = .ok (a, rest)) : Outcome p a rest result :=
  ⟨fun _ => h, fun hn => absurd hp hn⟩

theorem congr (hpq : p ↔ q) (h : Outcome p a rest result) : Outcome q a rest result :=
  ⟨fun hq => h.1 (hpq.2 hq), fun hq => h.2 fun hp => hq (hpq.1 hp)⟩

/-- One reader after another: both parts have to fit. -/
theorem bind (h : Outcome p a rest result) (hnext : p → Outcome q b after (next (a, rest))) :
    Outcome (p ∧ q) b after (result >>= next) := by
  constructor
  · intro hpq
    rw [h.1 hpq.1]
    exact (hnext hpq.1).1 hpq.2
  · intro hn
    by_cases hp : p
    · rw [h.1 hp]
      exact (hnext hp).2 fun hq => hn ⟨hp, hq⟩
    · obtain ⟨f, hf, hfault⟩ := h.2 hp
      rw [hf]
      exact ⟨f, rfl, hfault⟩

theorem map (f : α → β) (h : Outcome p a rest result) :
    Outcome p (f a) rest (result >>= fun read => pure (f read.1, read.2)) := by
  refine congr (and_iff_left trivial) (h.bind fun _ => of_ok trivial rfl)

end Outcome

/-! ### One turn of the loops -/

/-- One item and the others after it. -/
def readItem {α : Type} (item : List Char → Reading (α × List Char))
    (next : List Char → Reading (List α × List Char)) (cs : List Char) :
    Reading (List α × List Char) := do
  let (value, rest) ← item cs
  let (others, rest) ← next rest
  return (value :: others, rest)

/-- One member, from after the opening quote of its key, and the others after it. -/
def readMember (bound : ℕ) (value : List Char → Reading (Json × List Char))
    (next : List Char → Reading (Members Json × List Char)) (cs : List Char) :
    Reading (Members Json × List Char) := do
  let (key, rest) ← readString bound cs
  let (read, rest) ← value (← colon rest)
  let (others, rest) ← next rest
  return ((key, read) :: others, rest)

/-- The characters of a member after its line end. -/
def memberChars (level : ℕ) (member : String × Json) : List Char :=
  quote member.1 ++ ':' :: ' ' :: prettyChars level member.2

section Loops

variable {α : Type} {item : List Char → Reading (α × List Char)} {bound : ℕ}
  {cs ds rest : List Char} {c : Char}

theorem readItems_close {isFirst : Bool} (h : skipSpace cs = ']' :: rest) :
    readItems item (bound + 1) isFirst cs = .ok ([], rest) := by
  simp [readItems, h, pure, Except.pure]

theorem readItems_first (h : skipSpace cs = c :: rest) (hc : c ≠ ']') :
    readItems item (bound + 1) true cs =
      readItem item (readItems item bound false) (c :: rest) := by
  simp [readItems, readItem, h, hc]

theorem readItems_comma (h : skipSpace cs = ',' :: ds) (hd : skipSpace ds = c :: rest)
    (hc : c ≠ ']') :
    readItems item (bound + 1) false cs =
      readItem item (readItems item bound false) (c :: rest) := by
  simp [readItems, readItem, h, hd, hc]

variable {value : List Char → Reading (Json × List Char)} {count : ℕ}

theorem readMembers_close {isFirst : Bool} (h : skipSpace cs = '\x7d' :: rest) :
    readMembers bound value (count + 1) isFirst cs = .ok ([], rest) := by
  simp [readMembers, h, pure, Except.pure]

theorem readMembers_first (h : skipSpace cs = '"' :: rest) :
    readMembers bound value (count + 1) true cs =
      readMember bound value (readMembers bound value count false) rest := by
  simp [readMembers, readMember, h]

theorem readMembers_comma (h : skipSpace cs = ',' :: ds) (hd : skipSpace ds = '"' :: rest) :
    readMembers bound value (count + 1) false cs =
      readMember bound value (readMembers bound value count false) rest := by
  simp [readMembers, readMember, h, hd]

theorem outcome_readItem {p q : Prop} {x : α} {xs : List α} {after : List Char}
    {next : List Char → Reading (List α × List Char)} (hx : Outcome p x after (item cs))
    (hxs : Outcome q xs rest (next after)) :
    Outcome (p ∧ q) (x :: xs) rest (readItem item next cs) :=
  hx.bind fun _ => hxs.map fun others => x :: others

theorem outcome_readMember {p q : Prop} {m : String × Json} {ms : Members Json} {level : ℕ}
    {after : List Char} {next : List Char → Reading (Members Json × List Char)}
    (hquote : (quote m.1).length ≤ bound)
    (hm : Outcome p m.2 after (value (' ' :: (prettyChars level m.2 ++ after))))
    (hms : Outcome q ms rest (next after)) :
    ∃ cs, memberChars level m = '"' :: cs ∧
      Outcome (p ∧ q) (m :: ms) rest (readMember bound value next (cs ++ after)) := by
  obtain ⟨cs, hkey, hread⟩ :=
    readString_quote hquote (':' :: ' ' :: (prettyChars level m.2 ++ after))
  refine ⟨cs ++ ':' :: ' ' :: prettyChars level m.2, by rw [memberChars, hkey]; rfl, ?_⟩
  rw [List.append_assoc, readMember]
  simp only [List.cons_append]
  rw [hread]
  exact hm.bind fun _ => hms.map fun others => m :: others

/-- The items after the first one, each after a comma and a line end. -/
theorem readItems_tail {text : α → List Char} {p : α → Prop} (level close : ℕ) {items : List α}
    (hb : items.length < bound)
    (htext : ∀ x ∈ items, ∃ c cs, text x = c :: cs ∧ isSpace c = false ∧ c ≠ ']')
    (hitem : ∀ x ∈ items, ∀ rest, Ends rest → Outcome (p x) x rest (item (text x ++ rest)))
    (rest : List Char) :
    Outcome (∀ x ∈ items, p x) items rest
      (readItems item bound false
        (items.flatMap (fun x => ',' :: (newLine level ++ text x)) ++
          (newLine close ++ ']' :: rest))) := by
  obtain ⟨b, rfl⟩ : ∃ b, bound = b + 1 := ⟨bound - 1, by omega⟩
  induction items generalizing b with
  | nil =>
      refine Outcome.of_ok nofun ?_
      rw [List.flatMap_nil, List.nil_append]
      exact readItems_close (by rw [skipSpace_newLine, skipSpace_cons rfl])
  | cons x xs ih =>
      rw [List.length_cons] at hb
      obtain ⟨b, rfl⟩ : ∃ b', b = b' + 1 := ⟨b - 1, by omega⟩
      obtain ⟨c, cs, hx, hspace, hclose⟩ := htext x List.mem_cons_self
      -- what follows this item is again such a text, for one turn less
      have htail := ih (fun y hy => htext y (List.mem_cons_of_mem x hy))
        (fun y hy => hitem y (List.mem_cons_of_mem x hy)) b (by omega)
      have hends := ends_tail (fun x => newLine level ++ text x) xs close (']' :: rest)
      rw [List.flatMap_cons, List.append_assoc]
      generalize xs.flatMap (fun x => ',' :: (newLine level ++ text x)) ++
        (newLine close ++ ']' :: rest) = after at htail hends ⊢
      have hread := hitem x List.mem_cons_self after hends
      have hline := skipSpace_newLine level (c :: (cs ++ after))
      rw [hx, List.cons_append] at hread
      rw [hx, List.cons_append, List.append_assoc, List.cons_append,
        readItems_comma (skipSpace_cons rfl _) (hline.trans (skipSpace_cons hspace _)) hclose]
      exact Outcome.congr List.forall_mem_cons.symm (outcome_readItem hread htail)

/-- The members after the first one, each after a comma and a line end. -/
theorem readMembers_tail {p : Json → Prop} (level close : ℕ) {members : Members Json}
    (hb : members.length < count)
    (hmember : ∀ m ∈ members, (quote m.1).length ≤ bound ∧ ∀ rest, Ends rest →
      Outcome (p m.2) m.2 rest (value (' ' :: (prettyChars level m.2 ++ rest))))
    (rest : List Char) :
    Outcome (∀ m ∈ members, p m.2) members rest
      (readMembers bound value count false
        (members.flatMap (fun m => ',' :: (newLine level ++ memberChars level m)) ++
          (newLine close ++ '\x7d' :: rest))) := by
  obtain ⟨n, rfl⟩ : ∃ n, count = n + 1 := ⟨count - 1, by omega⟩
  induction members generalizing n with
  | nil =>
      refine Outcome.of_ok nofun ?_
      rw [List.flatMap_nil, List.nil_append]
      exact readMembers_close (by rw [skipSpace_newLine, skipSpace_cons rfl])
  | cons m ms ih =>
      rw [List.length_cons] at hb
      obtain ⟨n, rfl⟩ : ∃ n', n = n' + 1 := ⟨n - 1, by omega⟩
      have htail := ih (fun m' hm => hmember m' (List.mem_cons_of_mem m hm)) n (by omega)
      have hends := ends_tail (fun m => newLine level ++ memberChars level m) ms close
        ('\x7d' :: rest)
      rw [List.flatMap_cons, List.append_assoc]
      generalize ms.flatMap (fun m => ',' :: (newLine level ++ memberChars level m)) ++
        (newLine close ++ '\x7d' :: rest) = after at htail hends ⊢
      obtain ⟨hquote, hvalue⟩ := hmember m List.mem_cons_self
      obtain ⟨cs, hm, hread⟩ := outcome_readMember hquote (hvalue after hends) htail
      have hline := skipSpace_newLine level ('"' :: (cs ++ after))
      rw [hm, List.cons_append, List.append_assoc, List.cons_append,
        readMembers_comma (skipSpace_cons rfl _) (hline.trans (skipSpace_cons rfl _))]
      exact Outcome.congr List.forall_mem_cons.symm hread

end Loops

/-! ### What is in a container that was read -/

section Inversion

variable {α : Type} {item : List Char → Reading (α × List Char)} {cs rest : List Char}

theorem of_readItem {next : List Char → Reading (List α × List Char)} {xs : List α}
    (h : readItem item next cs = .ok (xs, rest)) :
    ∃ x ys after, item cs = .ok (x, after) ∧ next after = .ok (ys, rest) ∧ xs = x :: ys := by
  obtain ⟨⟨x, after⟩, hx, h⟩ := bind_eq_ok.1 h
  obtain ⟨⟨ys, last⟩, hys, h⟩ := bind_eq_ok.1 h
  cases h
  exact ⟨x, ys, after, hx, hys, rfl⟩

/-- The loop over the items ends, or reads one more. -/
theorem readItems_cases {count : ℕ} {isFirst : Bool} {xs : List α}
    (h : readItems item (count + 1) isFirst cs = .ok (xs, rest)) :
    xs = [] ∨ ∃ ds, readItem item (readItems item count false) ds = .ok (xs, rest) := by
  simp only [readItems] at h
  split at h
  · cases h
  · split at h
    · cases h
      exact .inl rfl
    · split at h
      · exact .inr ⟨_, h⟩
      · split at h
        · split at h
          · cases h
          · split at h
            · cases h
            · exact .inr ⟨_, h⟩
        · cases h

theorem exists_read_of_mem_readItems {count : ℕ} {isFirst : Bool} {xs : List α}
    (h : readItems item count isFirst cs = .ok (xs, rest)) :
    ∀ x ∈ xs, ∃ ds after, item ds = .ok (x, after) := by
  induction count generalizing isFirst cs xs rest with
  | zero => cases h
  | succ count ih =>
      rcases readItems_cases h with rfl | ⟨ds, h⟩
      · exact nofun
      · obtain ⟨x, ys, after, hx, hys, rfl⟩ := of_readItem h
        exact List.forall_mem_cons.2 ⟨⟨ds, after, hx⟩, ih hys⟩

variable {bound : ℕ} {value : List Char → Reading (Json × List Char)}

theorem of_readMember {next : List Char → Reading (Members Json × List Char)}
    {ms : Members Json} (h : readMember bound value next cs = .ok (ms, rest)) :
    ∃ m ms' ds after, value ds = .ok (m.2, after) ∧ next after = .ok (ms', rest) ∧
      ms = m :: ms' := by
  obtain ⟨⟨key, before⟩, _, h⟩ := bind_eq_ok.1 h
  obtain ⟨ds, _, h⟩ := bind_eq_ok.1 h
  obtain ⟨⟨v, after⟩, hv, h⟩ := bind_eq_ok.1 h
  obtain ⟨⟨ms', last⟩, hms, h⟩ := bind_eq_ok.1 h
  cases h
  exact ⟨(key, v), ms', ds, after, hv, hms, rfl⟩

/-- The loop over the members ends, or reads one more. -/
theorem readMembers_cases {count : ℕ} {isFirst : Bool} {ms : Members Json}
    (h : readMembers bound value (count + 1) isFirst cs = .ok (ms, rest)) :
    ms = [] ∨
      ∃ ds, readMember bound value (readMembers bound value count false) ds = .ok (ms, rest) := by
  simp only [readMembers] at h
  split at h
  · cases h
  · split at h
    · cases h
      exact .inl rfl
    · split at h
      · split at h
        · exact .inr ⟨_, h⟩
        · cases h
      · split at h
        · split at h
          · cases h
          · split at h
            · exact .inr ⟨_, h⟩
            · split at h
              · cases h
              · cases h
        · cases h

theorem exists_read_of_mem_readMembers {count : ℕ} {isFirst : Bool} {ms : Members Json}
    (h : readMembers bound value count isFirst cs = .ok (ms, rest)) :
    ∀ m ∈ ms, ∃ ds after, value ds = .ok (m.2, after) := by
  induction count generalizing isFirst cs ms rest with
  | zero => cases h
  | succ count ih =>
      rcases readMembers_cases h with rfl | ⟨ds, h⟩
      · exact nofun
      · obtain ⟨m, ms', ds, after, hm, hms, rfl⟩ := of_readMember h
        exact List.forall_mem_cons.2 ⟨⟨ds, after, hm⟩, ih hms⟩

end Inversion

end JsonShelf.Json
