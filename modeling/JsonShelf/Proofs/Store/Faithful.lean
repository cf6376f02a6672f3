/-
**Stores that give back what they were given.**

The use cases run on any store of documents.  What they rely on is little: a text that was written
is the text that is read, and reading changes nothing.  A store with these properties is called
faithful; the store in memory is one, and so is a directory of a file system.

Main definitions:

* `FaithfulStore` — a store with what its users rely on;
* `FaithfulStore.run` — runs a use case on a faithful store;
* `FaithfulStore.memory`, `FaithfulStore.directory` — the two stores.

Main results:

* `FaithfulStore.run_bind` — a use case is run part by part;
* `FaithfulStore.run_load_of_read` — loading a document whose text is known;
* `FaithfulStore.of_run_mutate` — **what a change of a collection that succeeds has done**.
-/

import JsonShelf.Proofs.Files.ReadAfterWrite
import JsonShelf.Proofs.Store.Effects
import JsonShelf.Shelf.Records
import JsonShelf.Store.Directory

set_option autoImplicit false

namespace JsonShelf

/-- A store of documents that gives back what it was given. -/
structure FaithfulStore where
  State : Type
  /-- The reply to a call and the store after it. -/
  perform : (c : StoreCall) → State → c.Reply × State
  /-- A text that was written is read. -/
  read_of_write : ∀ (path : DocPath) (text : String) (before after : State),
    perform (.writeText path text) before = (.ok (), after) →
      (perform (.readText path) after).1 = .ok text
  readText_state : ∀ (path : DocPath) (state : State), (perform (.readText path) state).2 = state
  facts_state : ∀ (path : DocPath) (state : State), (perform (.facts path) state).2 = state

namespace FaithfulStore

variable {store : FaithfulStore} {state after : store.State} {path : DocPath} {α β : Type}

/-! ### Running use cases -/

/-- Runs a use case. -/
def run (store : FaithfulStore) (useCase : UseCase α) (state : store.State) :
    Except ShelfError α × store.State :=
  Script.run store.perform useCase.run state

/-- The text of a document, in the words of the store. -/
def read (store : FaithfulStore) (path : DocPath) (state : store.State) :
    Except StoreError String :=
  (store.perform (.readText path) state).1

/-- A use case is run part by part, up to the part that fails. -/
theorem run_bind (x : UseCase α) (f : α → UseCase β) (state : store.State) :
    store.run (x >>= f) state =
      match store.run x state with
      | (.ok a, after) => store.run (f a) after
      | (.error e, after) => (.error e, after) := by
  rw [run, Script.run_except_bind]
  have hx : store.run x state = Script.run store.perform x.run state := rfl
  rw [hx]
  generalize Script.run store.perform x.run state = result
  obtain ⟨outcome, between⟩ := result
  cases outcome <;> rfl

theorem run_bind_eq_ok {x : UseCase α} {f : α → UseCase β} {b : β}
    (h : store.run (x >>= f) state = (.ok b, after)) :
    ∃ a between, store.run x state = (.ok a, between) ∧
      store.run (f a) between = (.ok b, after) := by
  rw [run_bind] at h
  generalize store.run x state = result at h ⊢
  obtain ⟨outcome, between⟩ := result
  cases outcome with
  | error e => cases h
  | ok a => exact ⟨a, between, rfl, h⟩

@[simp] theorem run_pure (a : α) : store.run (pure a) state = (.ok a, state) := rfl

@[simp] theorem run_throw (e : ShelfError) :
    store.run (throw e : UseCase α) state = (.error e, state) := rfl

theorem run_ofRecords (result : Except RecordError α) :
    store.run (UseCase.ofRecords result) state = (result.mapError ShelfError.record, state) := rfl

theorem run_readText :
    store.run (Shelf.readText path) state = ((store.read path state).mapError .store, state) := by
  have hstate := store.readText_state path state
  show (_, _) = (_, _)
  exact Prod.ext rfl hstate

theorem run_writeText (text : String) :
    store.run (Shelf.writeText path text) state =
      ((store.perform (.writeText path text) state).1.mapError .store,
        (store.perform (.writeText path text) state).2) := rfl

/-! ### Loading -/

/-- The value of a text, in the words of the use cases. -/
def valueOf (path : DocPath) (text : String) : Except ShelfError Json :=
  (Json.parse text).mapError (.parse path)

theorem run_load :
    store.run (Shelf.load path) state =
      (((store.read path state).mapError .store).bind (valueOf path), state) := by
  rw [Shelf.load, run_bind, run_readText]
  cases store.read path state with
  | error e => rfl
  | ok text =>
      simp only [Except.mapError, Except.bind, valueOf]
      cases Json.parse text with
      | error e => rfl
      | ok value => rfl

theorem run_load_of_read {text : String} (h : store.read path state = .ok text) :
    store.run (Shelf.load path) state = (valueOf path text, state) := by
  rw [run_load, h]
  rfl

/-! ### Changes -/

/-- **What a change of a collection that succeeds has done**: it has loaded the collection, changed
it, and written the new one, which is now the text of the document. -/
theorem of_run_mutate {change : Json → Except RecordError Mutation} {record : Json}
    (h : store.run (Shelf.mutate path change) state = (.ok record, after)) :
    ∃ text root mutation, store.read path state = .ok text ∧ Json.parse text = .ok root ∧
      change root = .ok mutation ∧ mutation.record = record ∧
      store.read path after = .ok mutation.root.pretty := by
  obtain ⟨root, between, hload, h⟩ := run_bind_eq_ok h
  rw [run_load] at hload
  obtain ⟨hvalue, rfl⟩ := Prod.mk.inj hload
  obtain ⟨text, hread, hparse⟩ := bind_eq_ok.1 hvalue
  obtain ⟨mutation, changed, hchanged, h⟩ := run_bind_eq_ok h
  rw [run_ofRecords] at hchanged
  obtain ⟨hchange, rfl⟩ := Prod.mk.inj hchanged
  obtain ⟨_, written, hwritten, h⟩ := run_bind_eq_ok h
  rw [run_writeText] at hwritten
  obtain ⟨hwrite, rfl⟩ := Prod.mk.inj hwritten
  cases h
  refine ⟨text, root, mutation, mapError_eq_ok.1 hread, mapError_eq_ok.1 hparse,
    mapError_eq_ok.1 hchange, rfl, ?_⟩
  exact store.read_of_write path mutation.root.pretty state _
    (Prod.ext (mapError_eq_ok.1 hwrite) rfl)

/-- The same of a change with a patch, which is looked at first. -/
theorem of_run_patch {change : Members Json → Json → Except RecordError Mutation}
    {patch record : Json}
    (h : store.run (UseCase.ofRecords (Records.patch? patch) >>= fun members =>
      Shelf.mutate path (change members)) state = (.ok record, after)) :
    ∃ text root mutation, store.read path state = .ok text ∧ Json.parse text = .ok root ∧
      (Records.patch? patch >>= fun members => change members root) = .ok mutation ∧
      mutation.record = record ∧ store.read path after = .ok mutation.root.pretty := by
  obtain ⟨members, between, hpatch, h⟩ := run_bind_eq_ok h
  rw [run_ofRecords] at hpatch
  obtain ⟨hmembers, rfl⟩ := Prod.mk.inj hpatch
  obtain ⟨text, root, mutation, hread, hparse, hchange, hrest⟩ := of_run_mutate h
  exact ⟨text, root, mutation, hread, hparse,
    bind_eq_ok.2 ⟨members, mapError_eq_ok.1 hmembers, hchange⟩, hrest⟩

end FaithfulStore

/-! ### The store in memory -/

namespace MemoryStore

variable {path : DocPath} {text : String}

theorem find_of_writeText {before after : MemoryStore}
    (h : perform (.writeText path text) before = (.ok (), after)) :
    after.find path = .ok text := by
  rw [perform_writeText] at h
  split at h
  · next hpath =>
    obtain rfl := (Prod.mk.inj h).2
    exact find_of_get? (checkPath_eq_ok.2 hpath) (by rw [get?_insert, if_pos rfl])
  · cases h

end MemoryStore

/-- The store in memory. -/
def FaithfulStore.memory : FaithfulStore where
  State := MemoryStore
  perform := MemoryStore.perform
  read_of_write _ _ _ _ h := MemoryStore.find_of_writeText h
  readText_state _ _ := rfl
  facts_state _ _ := rfl

/-! ### A directory of a file system -/

namespace DirectoryStore

open Files (Attempt)

variable {store : DirectoryStore} {fs : FileSystem} {path : DocPath} {text file : String}

theorem fromUTF8?_toUTF8 (text : String) : String.fromUTF8? text.toUTF8 = some text := by
  exact dif_pos text.isValidUTF8

/-- The calls on the file of a document, if its path can name one. -/
theorem run_onFile {α : Type} (act : String → Attempt α) :
    Script.run FileSystem.perform (store.onFile path act) fs =
      match checkPath path with
      | .error e => (.error e, fs)
      | .ok _ =>
        ((Script.run FileSystem.perform (act (store.fileOf path)).run fs).1.mapError
            (storeError path),
          (Script.run FileSystem.perform (act (store.fileOf path)).run fs).2) := by
  rw [onFile]
  cases checkPath path with
  | error e => rfl
  | ok _ => exact Script.run_bind _ _ _ _

theorem run_readText :
    Script.run FileSystem.perform (Files.readText file).run fs =
      ((fs.read file).bind fun content =>
        match String.fromUTF8? content with
        | some text => .ok text
        | none => .error .notText, fs) := by
  have hcall : Script.run FileSystem.perform (Files.read file).run fs = (fs.read file, fs) := rfl
  rw [Files.readText, Script.run_except_bind, hcall]
  cases fs.read file with
  | error e => rfl
  | ok content =>
      simp only [Except.bind]
      cases String.fromUTF8? content <;> rfl

theorem run_factsOf_state :
    (Script.run FileSystem.perform (factsOf file).run fs).2 = fs := by
  have hcall : Script.run FileSystem.perform (Files.status file).run fs = (fs.status file, fs) :=
    rfl
  rw [factsOf, Script.run_except_bind, hcall]
  cases fs.status file <;> rfl

/-- A text is written to its file once the directories above are there. -/
theorem exists_write_of_run (act : Attempt Unit) {after : FileSystem}
    (h : Script.run FileSystem.perform (act >>= fun _ => Files.writeText file text).run fs =
      (.ok (), after)) :
    ∃ between : FileSystem, between.write file text.toUTF8 = .ok after := by
  rw [Script.run_except_bind] at h
  generalize Script.run FileSystem.perform act.run fs = result at h
  obtain ⟨outcome, between⟩ := result
  cases outcome with
  | error e => cases h
  | ok _ =>
      refine ⟨between, ?_⟩
      have hcommit : between.commit (between.write file text.toUTF8) = (.ok (), after) := h
      cases hwrite : between.write file text.toUTF8 with
      | error fault => rw [hwrite] at hcommit; cases hcommit
      | ok changed => rw [hwrite] at hcommit; cases hcommit; rfl

/-- The reply to a call on the store, whose documents are files of the file system. -/
def perform (store : DirectoryStore) (c : StoreCall) (fs : FileSystem) : c.Reply × FileSystem :=
  Script.run FileSystem.perform (store.carryOut c) fs

/-- A script on the store runs on the file system call by call. -/
theorem run_interpret {α : Type} (script : StoreScript α) :
    fs.run (store.interpret script) = Script.run store.perform script fs :=
  Script.run_interpret FileSystem.perform store.carryOut script fs

theorem readText_of_writeText {before after : FileSystem}
    (h : store.perform (.writeText path text) before = (.ok (), after)) :
    (store.perform (.readText path) after).1 = .ok text := by
  have hread := @run_onFile store after path _ Files.readText
  have hwrite : Script.run FileSystem.perform (store.onFile path fun file => do
      ensureParent file
      Files.writeText file text) before = (.ok (), after) := h
  rw [run_onFile] at hwrite
  cases hpath : checkPath path with
  | error e => rw [hpath] at hwrite; cases hwrite
  | ok _ =>
      rw [hpath] at hwrite
      obtain ⟨hdone, hafter⟩ := Prod.mk.inj hwrite
      obtain ⟨between, hbetween⟩ := exists_write_of_run (ensureParent (store.fileOf path))
        (Prod.ext (mapError_eq_ok.1 hdone) hafter)
      have hcontent := FileSystem.read_of_write hbetween
      show (Script.run FileSystem.perform (store.onFile path Files.readText) after).1 = _
      rw [hread, hpath, run_readText, hcontent]
      simp only [Except.bind, fromUTF8?_toUTF8]
      rfl

theorem readText_state (path : DocPath) (fs : FileSystem) :
    (store.perform (.readText path) fs).2 = fs := by
  show (Script.run FileSystem.perform (store.onFile path Files.readText) fs).2 = fs
  rw [run_onFile]
  cases checkPath path with
  | error e => rfl
  | ok _ => rw [run_readText]

theorem facts_state (path : DocPath) (fs : FileSystem) :
    (store.perform (.facts path) fs).2 = fs := by
  show (Script.run FileSystem.perform (store.onFile path factsOf) fs).2 = fs
  rw [run_onFile]
  cases checkPath path with
  | error e => rfl
  | ok _ => exact run_factsOf_state

end DirectoryStore

/-- The store in a directory of a file system. -/
def FaithfulStore.directory (store : DirectoryStore) : FaithfulStore where
  State := FileSystem
  perform := store.perform
  read_of_write _ _ _ _ h := DirectoryStore.readText_of_writeText h
  readText_state := DirectoryStore.readText_state
  facts_state := DirectoryStore.facts_state

end JsonShelf
