/-
**Use cases on a store in memory.**

What is known of single calls carries over to scripts by induction on the calls that are made.  A
use case is carried out part by part, and on a text that parses the parts are known.

Main definitions:

* `MemoryStore.attempt` — carries out a use case.

Main results:

* `MemoryStore.state_run_of_only`, `MemoryStore.get?_run_of_only` — **scripts that change nothing,
  or one document only**;
* `MemoryStore.attempt_bind` — a use case is carried out part by part;
* `MemoryStore.attempt_mapM`, `MemoryStore.attempt_forEachReadable` — the same one for several
  paths;
* `MemoryStore.attempt_read`, `MemoryStore.attempt_save` — what comes of reading and of saving.
-/

import JsonShelf.Proofs.Shelf.Reach
import JsonShelf.Proofs.Store.Faithful

set_option autoImplicit false

namespace JsonShelf.MemoryStore

variable {α β : Type} {store after : MemoryStore} {path elsewhere : DocPath} {text : String}
  {value : Json} {listed : List DocPath}

/-! ### Scripts -/

/-- A script of calls without effect leaves the store as it is. -/
theorem state_run_of_only {script : StoreScript α} (h : script.Only fun c => c.effect = .nothing)
    (store : MemoryStore) : (store.run script).2 = store := by
  induction script generalizing store with
  | done result => rfl
  | call c next ih =>
      obtain ⟨hc, hnext⟩ := h
      exact (ih _ (hnext _) _).trans (state_perform_of_effect hc)

/-- A script of calls about one document leaves the texts of the others as they are. -/
theorem get?_run_of_only {script : StoreScript α} (h : script.Only fun c => c.path? = some path)
    (hne : path ≠ elsewhere) (store : MemoryStore) :
    (store.run script).2.get? elsewhere = store.get? elsewhere := by
  induction script generalizing store with
  | done result => rfl
  | call c next ih =>
      obtain ⟨hc, hnext⟩ := h
      have hother : c.path? ≠ some elsewhere := fun heq => hne (Option.some.inj (hc.symm.trans heq))
      exact (ih _ (hnext _) _).trans ((get?_perform store c elsewhere).trans (if_neg hother))

/-! ### Use cases -/

/-- Carries out a use case. -/
def attempt (store : MemoryStore) (useCase : UseCase α) : Except ShelfError α × MemoryStore :=
  store.run useCase.run

/-- A use case is carried out part by part, up to the part that fails. -/
theorem attempt_bind (store : MemoryStore) (x : UseCase α) (f : α → UseCase β) :
    store.attempt (x >>= f) =
      match store.attempt x with
      | (.ok a, after) => after.attempt (f a)
      | (.error e, after) => (.error e, after) := by
  refine (@FaithfulStore.run_bind .memory α β x f store).trans ?_
  have hx : FaithfulStore.memory.run x store = store.attempt x := rfl
  rw [hx]
  obtain ⟨outcome, between⟩ := store.attempt x
  cases outcome <;> rfl

theorem attempt_bind_of_ok {x : UseCase α} {a : α} (h : store.attempt x = (.ok a, after))
    (f : α → UseCase β) : store.attempt (x >>= f) = after.attempt (f a) := by
  rw [attempt_bind, h]

theorem attempt_bind_of_error {x : UseCase α} {e : ShelfError}
    (h : store.attempt x = (.error e, after)) (f : α → UseCase β) :
    store.attempt (x >>= f) = (.error e, after) := by
  rw [attempt_bind, h]

theorem attempt_pure (store : MemoryStore) (a : α) :
    store.attempt (pure a : UseCase α) = (.ok a, store) := rfl

theorem attempt_readText (store : MemoryStore) (path : DocPath) :
    store.attempt (Shelf.readText path) = ((store.find path).mapError .store, store) := rfl

theorem attempt_writeText (store : MemoryStore) (path : DocPath) (text : String) :
    store.attempt (Shelf.writeText path text) =
      ((perform (.writeText path text) store).1.mapError .store,
        (perform (.writeText path text) store).2) := rfl

theorem attempt_contains (store : MemoryStore) (path : DocPath) :
    store.attempt (UseCase.ofStore (Script.perform (StoreCall.contains path))) =
      (((checkPath path).map fun _ => (store.get? path).isSome).mapError .store, store) := rfl

theorem attempt_facts (store : MemoryStore) (path : DocPath) :
    store.attempt (Shelf.facts path) = ((store.facts path).mapError .store, store) := rfl

theorem attempt_paths (h : store.list = .ok listed) :
    store.attempt Shelf.paths = (.ok listed, store) := by
  show (store.list.mapError .store, store) = _
  rw [h]
  rfl

theorem attempt_load (store : MemoryStore) (path : DocPath) :
    store.attempt (Shelf.load path) =
      (((store.find path).mapError .store).bind (FaithfulStore.valueOf path), store) :=
  @FaithfulStore.run_load .memory store path

/-- What comes of a use case can be told whether it fails or not. -/
theorem attempt_outcome (store : MemoryStore) (x : UseCase α) :
    store.attempt (UseCase.outcome x) = (.ok (store.attempt x).1, (store.attempt x).2) :=
  Script.run_bind _ _ _ _

/-! ### One use case for each of several paths -/

/-- If each of several use cases succeeds and changes nothing, all of them give their results. -/
theorem attempt_mapM {f : α → UseCase β} {P : α → β → Prop} {l : List α}
    (h : ∀ a ∈ l, ∃ b, store.attempt (f a) = (.ok b, store) ∧ P a b) :
    ∃ results, store.attempt (l.mapM f) = (.ok results, store) ∧ List.Forall₂ P l results := by
  induction l with
  | nil => exact ⟨[], rfl, .nil⟩
  | cons a rest ih =>
      obtain ⟨b, hb, hP⟩ := h a List.mem_cons_self
      obtain ⟨results, hrest, hall⟩ := ih fun c hc => h c (List.mem_cons_of_mem a hc)
      refine ⟨b :: results, ?_, .cons hP hall⟩
      rw [List.mapM_cons, attempt_bind_of_ok hb, attempt_bind_of_ok hrest]
      rfl

/-- No path is left out if each can be read. -/
theorem attempt_forEachReadable {f : DocPath → UseCase β} {paths : List DocPath}
    {P : DocPath → β → Prop}
    (h : ∀ path ∈ paths, ∃ b, store.attempt (f path) = (.ok b, store) ∧ P path b) :
    ∃ results, store.attempt (Shelf.forEachReadable f paths) = (.ok results, store) ∧
      List.Forall₂ (fun path result => result.1 = path ∧ P path result.2) paths results := by
  induction paths with
  | nil => exact ⟨[], rfl, .nil⟩
  | cons path rest ih =>
      obtain ⟨b, hb, hP⟩ := h path List.mem_cons_self
      obtain ⟨results, hrest, hall⟩ := ih fun c hc => h c (List.mem_cons_of_mem path hc)
      refine ⟨(path, b) :: results, ?_, .cons ⟨rfl, hP⟩ hall⟩
      have hfirst : store.attempt (UseCase.outcome (f path)) = (.ok (.ok b), store) := by
        rw [attempt_outcome, hb]
      rw [Shelf.forEachReadable, attempt_bind_of_ok hfirst]
      exact attempt_bind_of_ok hrest _

/-! ### Reading and saving -/

theorem attempt_facts_of_find (hfind : store.find path = .ok text) :
    store.attempt (Shelf.facts path) = (.ok ⟨text.utf8ByteSize, none⟩, store) := by
  rw [attempt_facts, facts_eq, hfind]
  rfl

theorem attempt_load_of_find (hfind : store.find path = .ok text)
    (hparse : Json.parse text = .ok value) :
    store.attempt (Shelf.load path) = (.ok value, store) := by
  rw [attempt_load, hfind]
  simp only [Except.mapError, Except.bind, FaithfulStore.valueOf, hparse]

/-- The view of a document with a text of a value. -/
theorem attempt_read (hfind : store.find path = .ok text) (hparse : Json.parse text = .ok value) :
    store.attempt (Shelf.read path) =
      (.ok ⟨path.fileName, path, value, .describing text.utf8ByteSize none (some value)⟩, store) :=
  (attempt_bind_of_ok (attempt_facts_of_find hfind) _).trans
    (attempt_bind_of_ok (attempt_load_of_find hfind hparse) _)

/-- A document can be saved whenever its path is not refused. -/
theorem attempt_save (hpath : checkPath path = .ok ()) (store : MemoryStore) (value : Json) :
    store.attempt (Shelf.save path value) =
      (.ok (store.get? path).isNone, store.insert path value.pretty) := by
  have hask : store.attempt (UseCase.ofStore (Script.perform (StoreCall.contains path))) =
      (.ok (store.get? path).isSome, store) := by
    rw [attempt_contains, hpath]
    rfl
  have hwrite : store.attempt (Shelf.writeText path value.pretty) =
      (.ok (), store.insert path value.pretty) := by
    rw [attempt_writeText, perform_writeText, if_pos (checkPath_eq_ok.1 hpath)]
    rfl
  refine (attempt_bind_of_ok hask _).trans ((attempt_bind_of_ok hwrite _).trans ?_)
  rw [attempt_pure, Option.not_isSome]

end JsonShelf.MemoryStore
