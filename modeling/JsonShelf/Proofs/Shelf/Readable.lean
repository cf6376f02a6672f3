/-
**Collections after a change can be read again, or not.**

A change of a collection reads the document, changes the root and writes it back.  The reader lets
containers nest to a limit and the writer lets them nest at will, so a record that was itself read
can be too deep for its place in the collection.  The change succeeds all the same, and from then on
the document cannot be read.  Which changes do this is told here exactly.

Main definitions:

* `RecordCommand.useCase` — a change of the collection in a document;
* `RecordCommand.Fits` — the argument leaves room for the containers around it;
* `FailsToParse` — a use case fails because a document does not parse.

Main results:

* `RecordCommand.readable_iff_fits` — **after a change that succeeds, the document holds the changed
  collection, and it is readable exactly when the argument fits**.
-/

import JsonShelf.Proofs.Json.RoundTrip
import JsonShelf.Proofs.Records.Depth
import JsonShelf.Proofs.Store.Faithful
import JsonShelf.Shelf.Inspection

set_option autoImplicit false

namespace JsonShelf

/-! ### Failures to parse -/

/-- A use case fails because a document does not parse. -/
def FailsToParse {α : Type} (result : Except ShelfError α) : Prop :=
  ∃ path e, result = .error (.parse path e)

namespace FaithfulStore

variable {store : FaithfulStore} {state : store.State} {path : DocPath} {α β : Type}

theorem not_failsToParse_ok (a : α) : ¬FailsToParse (.ok a : Except ShelfError α) :=
  fun ⟨_, _, h⟩ => nomatch h

/-- Failures of the store are no failures to parse. -/
theorem not_failsToParse_store (result : Except StoreError α) :
    ¬FailsToParse (result.mapError ShelfError.store) := by
  rintro ⟨_, _, h⟩
  cases result <;> cases h

theorem not_failsToParse_record (result : Except RecordError α) :
    ¬FailsToParse (result.mapError ShelfError.record) := by
  rintro ⟨_, _, h⟩
  cases result <;> cases h

/-- A use case of two parts fails to parse in one of them. -/
theorem failsToParse_bind {x : UseCase α} {f : α → UseCase β}
    (h : FailsToParse (store.run (x >>= f) state).1) :
    FailsToParse (store.run x state).1 ∨
      ∃ a after, store.run x state = (.ok a, after) ∧ FailsToParse (store.run (f a) after).1 := by
  rw [run_bind] at h
  generalize store.run x state = result at h ⊢
  obtain ⟨outcome, after⟩ := result
  cases outcome with
  | error e =>
      obtain ⟨path, failure, he⟩ := h
      cases he
      exact .inl ⟨path, failure, rfl⟩
  | ok a => exact .inr ⟨a, after, rfl, h⟩

theorem failsToParse_bind_of_left {x : UseCase α} {f : α → UseCase β}
    (h : FailsToParse (store.run x state).1) : FailsToParse (store.run (x >>= f) state).1 := by
  rw [run_bind]
  generalize store.run x state = result at h ⊢
  obtain ⟨outcome, after⟩ := result
  obtain ⟨path, failure, rfl⟩ := h
  exact ⟨path, failure, rfl⟩

/-! ### Documents that parse -/

variable {text : String} {root : Json}

theorem run_load_of_parse (hread : store.read path state = .ok text)
    (hparse : Json.parse text = .ok root) :
    store.run (Shelf.load path) state = (.ok root, state) := by
  rw [run_load_of_read hread, valueOf, hparse]
  rfl

theorem failsToParse_load {e : Json.ParseError} (hread : store.read path state = .ok text)
    (hparse : Json.parse text = .error e) :
    FailsToParse (store.run (Shelf.load path) state).1 := by
  rw [run_load_of_read hread, valueOf, hparse]
  exact ⟨path, e, rfl⟩

theorem not_failsToParse_read (hread : store.read path state = .ok text)
    (hparse : Json.parse text = .ok root) :
    ¬FailsToParse (store.run (Shelf.read path) state).1 := by
  intro h
  rcases failsToParse_bind h with h | ⟨facts, after, hfacts, h⟩
  · exact not_failsToParse_store (store.perform (.facts path) state).1 h
  · obtain rfl : state = after := by
      rw [← store.facts_state path state]
      exact congrArg Prod.snd hfacts
    rcases failsToParse_bind h with h | ⟨value, after, _, h⟩
    · rw [run_load_of_parse hread hparse] at h
      exact not_failsToParse_ok root h
    · exact not_failsToParse_ok _ h

theorem not_failsToParse_shape (hread : store.read path state = .ok text)
    (hparse : Json.parse text = .ok root) :
    ¬FailsToParse (store.run (Shelf.shape path) state).1 := by
  intro h
  rcases failsToParse_bind h with h | ⟨value, after, _, h⟩
  · rw [run_load_of_parse hread hparse] at h
    exact not_failsToParse_ok root h
  · exact not_failsToParse_ok _ h

theorem not_failsToParse_mutate {change : Json → Except RecordError Mutation}
    (hread : store.read path state = .ok text) (hparse : Json.parse text = .ok root) :
    ¬FailsToParse (store.run (Shelf.mutate path change) state).1 := by
  intro h
  rcases failsToParse_bind h with h | ⟨value, after, _, h⟩
  · rw [run_load_of_parse hread hparse] at h
    exact not_failsToParse_ok root h
  · rcases failsToParse_bind h with h | ⟨mutation, after, _, h⟩
    · exact not_failsToParse_record _ h
    · rcases failsToParse_bind h with h | ⟨_, _, _, h⟩
      · exact not_failsToParse_store _ h
      · exact not_failsToParse_ok _ h

theorem not_failsToParse_patch {change : Members Json → Json → Except RecordError Mutation}
    {patch : Json} (hread : store.read path state = .ok text)
    (hparse : Json.parse text = .ok root) :
    ¬FailsToParse (store.run (UseCase.ofRecords (Records.patch? patch) >>= fun members =>
      Shelf.mutate path (change members)) state).1 := by
  intro h
  rcases failsToParse_bind h with h | ⟨members, between, hpatch, h⟩
  · exact not_failsToParse_record _ h
  · rw [run_ofRecords] at hpatch
    obtain ⟨_, rfl⟩ := Prod.mk.inj hpatch
    exact not_failsToParse_mutate hread hparse h

end FaithfulStore

/-! ### The changes -/

namespace RecordCommand

open Json (nestingLimit)

/-- The change on a document. -/
def useCase (path : DocPath) : RecordCommand → UseCase Json
  | add record => Shelf.addRecord path record
  | updateById id patch => Shelf.updateRecordById path id patch
  | updateByIndex index patch => Shelf.updateRecordByIndex path index patch
  | delete id => Shelf.deleteRecord path id

/-- The value that the change is given. -/
def argument? : RecordCommand → Option Json
  | add record => some record
  | updateById _ patch => some patch
  | updateByIndex _ patch => some patch
  | delete _ => none

/-- The argument leaves room for the containers around it: the collection, and for the values of a
patch also the record.  The id in a patch does not count where the record keeps its own. -/
def Fits : RecordCommand → Prop
  | add record => record.nesting < nestingLimit
  | updateById _ patch =>
    ∀ member ∈ patch.members?.getD [], member.1 ≠ Records.idField →
      member.2.nesting + 1 < nestingLimit
  | updateByIndex _ patch => patch.nesting < nestingLimit
  | delete _ => True

variable {c : RecordCommand} {store : FaithfulStore} {state after : store.State} {path : DocPath}
  {text : String} {root record : Json} {m : Mutation}

/-- A change that succeeds has changed the collection and written it. -/
theorem of_run (h : store.run (c.useCase path) state = (.ok record, after)) :
    ∃ text root m, store.read path state = .ok text ∧ Json.parse text = .ok root ∧
      c.mutation root = .ok m ∧ m.record = record ∧ store.read path after = .ok m.root.pretty := by
  cases c with
  | add record => exact FaithfulStore.of_run_mutate h
  | delete id => exact FaithfulStore.of_run_mutate h
  | updateById id patch => exact FaithfulStore.of_run_patch h
  | updateByIndex index patch => exact FaithfulStore.of_run_patch h

theorem not_failsToParse (hread : store.read path state = .ok text)
    (hparse : Json.parse text = .ok root) : ¬FailsToParse (store.run (c.useCase path) state).1 := by
  intro h
  cases c with
  | add record => exact FaithfulStore.not_failsToParse_mutate hread hparse h
  | delete id => exact FaithfulStore.not_failsToParse_mutate hread hparse h
  | updateById id patch => exact FaithfulStore.not_failsToParse_patch hread hparse h
  | updateByIndex index patch => exact FaithfulStore.not_failsToParse_patch hread hparse h

/-- The changed collection stays within the limit of the reader exactly when the argument fits. -/
theorem nesting_root_le_iff (hdeep : root.nesting ≤ nestingLimit) (hroot : root.Canonical)
    (harg : ∀ value, c.argument? = some value → value.Canonical) (hm : c.mutation root = .ok m) :
    m.root.nesting ≤ nestingLimit ↔ c.Fits := by
  have hlimit : nestingLimit = 125 + 2 := rfl
  cases c with
  | add record =>
      rw [hlimit] at hdeep ⊢
      rw [Records.nesting_append_le_iff hdeep (harg record rfl) hm, Fits, hlimit]
      omega
  | updateById id patch =>
      obtain ⟨members, hmembers, hm⟩ := bind_eq_ok.1 hm
      obtain rfl := Records.patch?_eq_ok.1 hmembers
      rw [hlimit] at hdeep ⊢
      rw [Records.nesting_updateById_le_iff hdeep hroot (harg _ rfl).1 hm, Fits, hlimit]
      refine forall₃_congr ?_
      intro member _ _
      omega
  | updateByIndex index patch =>
      obtain ⟨members, hmembers, hm⟩ := bind_eq_ok.1 hm
      obtain rfl := Records.patch?_eq_ok.1 hmembers
      rw [hlimit] at hdeep ⊢
      rw [Records.nesting_updateByIndex_le_iff hdeep hroot (harg _ rfl).1 hm, Fits, hlimit]
      omega
  | delete id => exact iff_of_true ((Records.nesting_deleteById_le hm).trans hdeep) trivial

theorem canonical_root (hroot : root.Canonical)
    (harg : ∀ value, c.argument? = some value → value.Canonical) (hm : c.mutation root = .ok m) :
    m.root.Canonical := by
  cases c with
  | add record => exact Records.canonical_append hroot (harg record rfl) hm
  | updateById id patch =>
      obtain ⟨members, hmembers, hm⟩ := bind_eq_ok.1 hm
      obtain rfl := Records.patch?_eq_ok.1 hmembers
      exact Records.canonical_updateById hroot (harg _ rfl).2 hm
  | updateByIndex index patch =>
      obtain ⟨members, hmembers, hm⟩ := bind_eq_ok.1 hm
      obtain rfl := Records.patch?_eq_ok.1 hmembers
      exact Records.canonical_updateByIndex hroot (harg _ rfl).2 hm
  | delete id => exact Records.canonical_deleteById hroot hm

/-- The text of the changed collection reads back as it, or is refused for its nesting. -/
theorem parse_root (hparse : Json.parse text = .ok root)
    (harg : ∀ value, c.argument? = some value → ∃ source, Json.parse source = .ok value)
    (hm : c.mutation root = .ok m) :
    (c.Fits → Json.parse m.root.pretty = .ok m.root) ∧
      (¬c.Fits → ∃ e, Json.parse m.root.pretty = .error e ∧ e.fault = .recursionLimit) := by
  have hcanonical : ∀ value, c.argument? = some value → value.Canonical := by
    intro value hvalue
    obtain ⟨source, hsource⟩ := harg value hvalue
    exact Json.canonical_of_parse hsource
  have hroot := Json.canonical_of_parse hparse
  have hiff := nesting_root_le_iff (Json.nesting_le_of_parse hparse) hroot hcanonical hm
  constructor
  · intro hfits
    exact Json.parse_pretty (canonical_root hroot hcanonical hm) (hiff.2 hfits)
  · intro hfits
    exact Json.parse_pretty_of_lt (Nat.lt_of_not_le fun hle => hfits (hiff.1 hle))

/-- **After a change that succeeds, the document holds the changed collection, and it is readable
exactly when the argument fits.**  If it fits, no later use of the document fails to parse; if not,
every later use that loads the document does, the reader refusing its nesting. -/
theorem readable_iff_fits (store : FaithfulStore) (state after : store.State) (path : DocPath)
    (c : RecordCommand) (text : String) (root record : Json)
    (hread : store.read path state = .ok text) (hparse : Json.parse text = .ok root)
    (harg : ∀ value, c.argument? = some value → ∃ source, Json.parse source = .ok value)
    (hrun : store.run (c.useCase path) state = (.ok record, after)) :
    ∃ m, c.mutation root = .ok m ∧ m.record = record ∧
      store.read path after = .ok m.root.pretty ∧
      (Json.parse m.root.pretty = .ok m.root ↔ c.Fits) ∧
      (c.Fits →
        ¬FailsToParse (store.run (Shelf.read path) after).1 ∧
        ¬FailsToParse (store.run (Shelf.shape path) after).1 ∧
        ∀ next : RecordCommand, ¬FailsToParse (store.run (next.useCase path) after).1) ∧
      (¬c.Fits → (∃ e, Json.parse m.root.pretty = .error e ∧ e.fault = .recursionLimit) ∧
        FailsToParse (store.run (Shelf.shape path) after).1 ∧
        ∀ next, FailsToParse (store.run (Shelf.addRecord path next) after).1) := by
  obtain ⟨text', root', m, hread', hparse', hm, hrecord, hafter⟩ := of_run hrun
  -- the collection that was changed is the one in the hypotheses
  obtain rfl := Except.ok.inj (hread.symm.trans hread')
  obtain rfl := Except.ok.inj (hparse.symm.trans hparse')
  obtain ⟨hfits, hdeep⟩ := parse_root hparse harg hm
  refine ⟨m, hm, hrecord, hafter, ⟨?_, hfits⟩, ?_, ?_⟩
  · intro hok
    by_contra hnot
    obtain ⟨e, he, -⟩ := hdeep hnot
    rw [hok] at he
    cases he
  · intro h
    have hok := hfits h
    exact ⟨FaithfulStore.not_failsToParse_read hafter hok,
      FaithfulStore.not_failsToParse_shape hafter hok, fun next => not_failsToParse hafter hok⟩
  · intro h
    obtain ⟨e, he, hfault⟩ := hdeep h
    have hload := FaithfulStore.failsToParse_load hafter he
    exact ⟨⟨e, he, hfault⟩, FaithfulStore.failsToParse_bind_of_left hload,
      fun next => FaithfulStore.failsToParse_bind_of_left hload⟩

/-! ### The deepest record that fits, and a deeper one -/

/-- A store with one empty collection. -/
def oneCollection : MemoryStore := MemoryStore.ofList [(⟨"a.json"⟩, "[]")]

/-- Empty arrays inside one another. -/
def tower : ℕ → Json
  | 0 => .array []
  | n + 1 => .array [tower n]

theorem nesting_tower (n : ℕ) : (tower n).nesting = n + 1 := by
  induction n with
  | zero => rfl
  | succ n ih => rw [tower, Json.nesting, Json.nestingItems, Json.nestingItems, ih, Nat.max_zero]

theorem canonical_tower (n : ℕ) : (tower n).Canonical := by
  induction n with
  | zero => trivial
  | succ n ih => exact ⟨ih, trivial⟩

/-- What the reader lets through is read. -/
theorem parse_tower {n : ℕ} (h : n < nestingLimit) : Json.parse (tower n).pretty = .ok (tower n) :=
  Json.parse_pretty (canonical_tower n) (by rw [nesting_tower]; exact h)

/-- A record of 126 containers, the deepest that fits, is added; the collection with it reads back,
and its shape can be told. -/
theorem readable_iff_fits_deepestRecord :
    ∃ after, FaithfulStore.memory.run (useCase ⟨"a.json"⟩ (add (tower 125))) oneCollection =
        (.ok (tower 125), after) ∧
      FaithfulStore.memory.read ⟨"a.json"⟩ after = .ok (Json.array [tower 125]).pretty ∧
      Json.parse (Json.array [tower 125]).pretty = .ok (.array [tower 125]) ∧
      ¬FailsToParse (FaithfulStore.memory.run (Shelf.shape ⟨"a.json"⟩) after).1 := by
  have hfits : (add (tower 125)).Fits := by
    show (tower 125).nesting < nestingLimit
    rw [nesting_tower]
    decide
  have harg : ∀ value, (add (tower 125)).argument? = some value →
      ∃ source, Json.parse source = .ok value := by
    rintro value ⟨⟩
    exact ⟨(tower 125).pretty, parse_tower (by decide)⟩
  obtain ⟨m, hm, -, hafter, hparses, hlater, -⟩ := readable_iff_fits FaithfulStore.memory
    oneCollection (FaithfulStore.memory.run (useCase ⟨"a.json"⟩ (add (tower 125))) oneCollection).2
    ⟨"a.json"⟩ (add (tower 125)) "[]" (.array []) (tower 125) rfl rfl harg rfl
  cases hm
  exact ⟨_, rfl, hafter, hparses.2 hfits, (hlater hfits).2.1⟩

/-- A record of 127 containers is read, and is added with success; then its collection cannot be
read. -/
theorem not_readable_of_deepRecord :
    ∃ source after, Json.parse source = .ok (tower 126) ∧
      FaithfulStore.memory.run (useCase ⟨"a.json"⟩ (add (tower 126))) oneCollection =
        (.ok (tower 126), after) ∧
      FailsToParse (FaithfulStore.memory.run (Shelf.shape ⟨"a.json"⟩) after).1 := by
  have hdeep : nestingLimit < (Json.array [tower 126]).nesting := by
    have : (Json.array [tower 126]).nesting = 128 := nesting_tower 127
    rw [this]
    decide
  obtain ⟨e, he, -⟩ := Json.parse_pretty_of_lt hdeep
  refine ⟨(tower 126).pretty, oneCollection.insert ⟨"a.json"⟩ (Json.array [tower 126]).pretty,
    parse_tower (by decide), rfl, ?_⟩
  exact FaithfulStore.failsToParse_bind_of_left (FaithfulStore.failsToParse_load rfl he)

end RecordCommand

end JsonShelf
