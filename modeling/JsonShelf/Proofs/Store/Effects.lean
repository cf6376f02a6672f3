/-
**What a call does to a store in memory.**

A call that is about a document reads and changes the text of this document only: the reply and the
new text depend on the old text, and every other text stays.

Main definitions:

* `StoreCall.Effect`, `StoreCall.effect` — what a call can do to a document;
* `StoreCall.textAfter` — the text of a document after a call about it.

Main results:

* `MemoryStore.perform_writeText`, `MemoryStore.perform_createText`, `MemoryStore.perform_remove` —
  the calls that change something;
* `MemoryStore.get?_perform` — **a call about a document changes no other**;
* `MemoryStore.reply_perform_congr` — the reply depends on no other;
* `StoreCall.eq_or_of_textAfter`, `StoreCall.effect_of_textAfter` — where a text comes from, and
  which call takes it away.
-/

import JsonShelf.Proofs.Paths.Containment
import JsonShelf.Proofs.Store.Ordered

set_option autoImplicit false

namespace JsonShelf

/-! ### Effects of calls -/

/-- What a call can do to a document. -/
inductive StoreCall.Effect where
  | nothing
  | write
  | create
  | remove
  deriving DecidableEq

namespace StoreCall

variable {c : StoreCall} {old : Option String} {text : String}

/-- What the call can do. -/
def effect : StoreCall → Effect
  | writeText .. => .write
  | createText .. => .create
  | remove _ => .remove
  | readText _ | contains _ | facts _ | list => .nothing

/-- The text of a document after a call about it, from the text before. -/
def textAfter : StoreCall → Option String → Option String
  | writeText path text, old => if path.isDocument then some text else old
  | createText path text, old => if path.isDocument && old.isNone then some text else old
  | remove path, old => if path.isDocument then none else old
  | readText _, old | contains _, old | facts _, old | list, old => old

/-- The whole text that the call gives to a document. -/
def text? : StoreCall → Option String
  | writeText _ text | createText _ text => some text
  | readText _ | remove _ | contains _ | facts _ | list => none

/-- A text that is there after a call was there before, or is the whole text that the call gives. -/
theorem eq_or_of_textAfter (h : c.textAfter old = some text) :
    old = some text ∨ c.text? = some text := by
  cases c with
  | readText _ | contains _ | facts _ | list => exact .inl h
  | writeText path _ =>
      rw [textAfter] at h
      split at h
      · exact .inr h
      · exact .inl h
  | createText path _ =>
      rw [textAfter] at h
      split at h
      · exact .inr h
      · exact .inl h
  | remove path =>
      rw [textAfter] at h
      split at h
      · cases h
      · exact .inl h

/-- Only the call that removes a document takes its text away. -/
theorem effect_of_textAfter (h : c.textAfter (some text) = none) : c.effect = .remove := by
  cases c with
  | remove _ => rfl
  | readText _ | contains _ | facts _ | list => cases h
  | writeText _ _ | createText _ _ =>
      rw [textAfter] at h
      split at h <;> cases h

end StoreCall

namespace MemoryStore

variable {store other after : MemoryStore} {path : DocPath} {text : String} {c : StoreCall}

/-! ### Single calls -/

theorem find_eq (store : MemoryStore) (path : DocPath) :
    store.find path =
      if path.isDocument then (store.get? path).elim (.error (.notFound path)) .ok
      else .error (.invalidPath path) := by
  rw [find, checkPath]
  split
  · cases store.get? path <;> rfl
  · rfl

theorem find_of_get? (hpath : checkPath path = .ok ()) (htext : store.get? path = some text) :
    store.find path = .ok text := by
  rw [find_eq, if_pos (checkPath_eq_ok.1 hpath), htext]
  rfl

theorem find_of_get?_none (hpath : checkPath path = .ok ()) (htext : store.get? path = none) :
    store.find path = .error (.notFound path) := by
  rw [find_eq, if_pos (checkPath_eq_ok.1 hpath), htext]
  rfl

theorem facts_eq (store : MemoryStore) (path : DocPath) :
    store.facts path = (store.find path).map fun text => ⟨text.utf8ByteSize, none⟩ := by
  rw [facts]
  cases store.find path <;> rfl

theorem perform_writeText (store : MemoryStore) (path : DocPath) (text : String) :
    perform (.writeText path text) store =
      if path.isDocument then (.ok (), store.insert path text)
      else (.error (.invalidPath path), store) := by
  show store.commit _ = _
  rw [commit, changed, checkPath]
  cases path.isDocument <;> rfl

theorem perform_createText (store : MemoryStore) (path : DocPath) (text : String) :
    perform (.createText path text) store =
      if path.isDocument then
        if (store.get? path).isSome then (.error (.alreadyExists path), store)
        else (.ok (), store.insert path text)
      else (.error (.invalidPath path), store) := by
  show store.commit _ = _
  rw [commit, changed, checkPath]
  cases path.isDocument with
  | false => rfl
  | true => cases store.get? path <;> rfl

theorem perform_remove (store : MemoryStore) (path : DocPath) :
    perform (.remove path) store =
      if path.isDocument then
        if (store.get? path).isSome then (.ok (), store.erase path)
        else (.error (.notFound path), store)
      else (.error (.invalidPath path), store) := by
  show store.commit _ = _
  rw [commit, changed, find_eq]
  cases path.isDocument with
  | false => rfl
  | true => cases store.get? path <;> rfl

/-- A text is made only where there is none. -/
theorem get?_of_createText (h : perform (.createText path text) store = (.ok (), after)) :
    store.get? path = none ∧ after.get? path = some text := by
  rw [perform_createText] at h
  split at h
  · split at h
    · cases h
    · next hnone =>
      obtain rfl := (Prod.mk.inj h).2
      exact ⟨Option.not_isSome_iff_eq_none.1 hnone, by rw [get?_insert, if_pos rfl]⟩
  · cases h

/-- A text that is gone after a call to remove it was removed with success. -/
theorem reply_remove_of_get? (hold : store.get? path = some text)
    (hnew : (perform (.remove path) store).2.get? path = none) :
    (perform (.remove path) store).1 = (.ok () : Except StoreError Unit) := by
  rw [perform_remove, hold] at hnew ⊢
  split at hnew
  · next hdocument =>
    rw [if_pos hdocument]
    rfl
  · rw [hold] at hnew
    cases hnew

/-- A call without effect leaves the store as it is. -/
theorem state_perform_of_effect (h : c.effect = .nothing) : (perform c store).2 = store := by
  cases c with
  | readText _ | contains _ | facts _ | list => rfl
  | writeText _ _ | createText _ _ | remove _ => cases h

/-- **A call changes no document but the one it is about**, and the new text of this document
depends on its old text only. -/
theorem get?_perform (store : MemoryStore) (c : StoreCall) (path : DocPath) :
    (perform c store).2.get? path =
      if c.path? = some path then c.textAfter (store.get? path) else store.get? path := by
  cases c with
  | readText _ | contains _ | facts _ | list =>
      rw [state_perform_of_effect rfl, StoreCall.textAfter, ite_self]
  | writeText target text =>
      rw [perform_writeText, StoreCall.textAfter]
      cases target.isDocument with
      | false => simp
      | true => simp [StoreCall.path?, get?_insert]
  | createText target text =>
      rw [perform_createText, StoreCall.textAfter]
      cases target.isDocument with
      | false => simp
      | true =>
          by_cases heq : target = path
          · subst heq
            cases hold : store.get? target <;> simp [StoreCall.path?, get?_insert, hold]
          · cases hold : store.get? target <;> simp [StoreCall.path?, get?_insert, heq]
  | remove target =>
      rw [perform_remove, StoreCall.textAfter]
      cases target.isDocument with
      | false => simp
      | true =>
          by_cases heq : target = path
          · subst heq
            cases hold : store.get? target <;> simp [StoreCall.path?, get?_erase, hold]
          · cases hold : store.get? target <;> simp [StoreCall.path?, get?_erase, heq]

/-- The reply to a call depends on no document but the one it is about. -/
theorem reply_perform_congr (h : c.path? = some path) (hsame : store.get? path = other.get? path) :
    (perform c store).1 = (perform c other).1 := by
  have hfind : store.find path = other.find path := by rw [find_eq, find_eq, hsame]
  cases c with
  | list => cases h
  | readText _ =>
      cases h
      exact hfind
  | contains _ =>
      cases h
      rw [perform, perform, hsame]
  | facts _ =>
      cases h
      rw [perform, perform, facts_eq, facts_eq, hfind]
  | writeText _ text =>
      cases h
      rw [perform_writeText, perform_writeText]
      split <;> rfl
  | createText _ text =>
      cases h
      rw [perform_createText, perform_createText, hsame]
      split
      · split <;> rfl
      · rfl
  | remove _ =>
      cases h
      rw [perform_remove, perform_remove, hsame]
      split
      · split <;> rfl
      · rfl

end MemoryStore

end JsonShelf
