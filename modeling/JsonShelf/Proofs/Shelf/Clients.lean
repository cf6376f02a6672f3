/-
**Clients that share a store in memory.**

Each client has requests about documents to make, one after the other, and a request makes its calls
one at a time.  Between two calls of a client the others may make any number of theirs.  A change of
a collection reads it in one call and writes it in another, so what another client wrote in between
is lost.  This module says what holds all the same: a document is not disturbed by what is done to
the others, it is made by one client at a time, and its text is always one that was written as a
whole.

Main definitions:

* `MemoryStore.advance` — makes the first call of a script;
* `Task`, `Event` — a request under way, and what happens when its next call is made;
* `Clients.turn?` — what happens when a client has its turn;
* `Clients.Runs` — clients have their turns in some order, and these are the events.

Main results:

* `Task.Sound.moves` — what the next call of a task does to a document;
* `Clients.Runs.deleted_between`, `Clients.Runs.given` — who makes a document, and where its text
  comes from;
* `Clients.Follows.turn_at`, `Clients.Follows.turn_elsewhere`, `Clients.Follows.runs` — turns on one
  document do not need the others;
* `Clients.runs_apart` — **what happens to a document in any order of turns**.
-/

import JsonShelf.Proofs.Shelf.Requests
import Mathlib.Logic.Function.Basic

set_option autoImplicit false

namespace JsonShelf

/-! ### The first call of a script -/

/-- The result of a script that makes no calls any more. -/
def Script.result? {Call : Type} {Reply : Call → Type} {α : Type} : Script Call Reply α → Option α
  | done result => some result
  | call .. => none

namespace MemoryStore

variable {α : Type} {store other : MemoryStore} {path elsewhere : DocPath} {text : String}
  {script : StoreScript α} {kind : StoreCall → Prop}

/-- A call that was made, and its reply. -/
abbrev Answered : Type := (c : StoreCall) × c.Reply

/-- Makes the first call of a script.  What is left of the script comes with the store. -/
def advance : StoreScript α → MemoryStore → Option Answered × StoreScript α × MemoryStore
  | .done result, store => (none, .done result, store)
  | .call c next, store =>
    (some ⟨c, (perform c store).1⟩, next (perform c store).1, (perform c store).2)

theorem only_advance (h : script.Only kind) (store : MemoryStore) :
    (advance script store).2.1.Only kind := by
  cases script with
  | done result => exact h
  | call c next => exact h.2 _

theorem kind_of_advance {answered : Answered} (h : script.Only kind)
    (hcall : (advance script store).1 = some answered) : kind answered.1 := by
  cases script with
  | done result => cases hcall
  | call c next =>
      obtain rfl := Option.some.inj hcall
      exact h.1

/-- The first call changes no document but the one that the script is about. -/
theorem get?_advance_of_ne (h : script.Only fun c => c.path? = some path) (hne : path ≠ elsewhere)
    (store : MemoryStore) : (advance script store).2.2.get? elsewhere = store.get? elsewhere := by
  cases script with
  | done result => rfl
  | call c next =>
      have hother : c.path? ≠ some elsewhere :=
        fun heq => hne (Option.some.inj (h.1.symm.trans heq))
      exact (get?_perform store c elsewhere).trans (if_neg hother)

/-- The first call depends on no document but the one that the script is about. -/
theorem advance_congr (h : script.Only fun c => c.path? = some path)
    (hsame : store.get? path = other.get? path) :
    (advance script store).1 = (advance script other).1 ∧
      (advance script store).2.1 = (advance script other).2.1 ∧
      (advance script store).2.2.get? path = (advance script other).2.2.get? path := by
  cases script with
  | done result => exact ⟨rfl, rfl, hsame⟩
  | call c next =>
      have hreply := reply_perform_congr h.1 hsame
      refine ⟨?_, ?_, ?_⟩
      · simp only [advance, hreply]
      · simp only [advance, hreply]
      · simp only [advance, get?_perform, hsame]

/-- The text after the first call was there before, or is the whole text that the call gives. -/
theorem eq_or_of_advance (h : (advance script store).2.2.get? path = some text) :
    store.get? path = some text ∨
      ∃ answered, (advance script store).1 = some answered ∧ answered.1.path? = some path ∧
        answered.1.text? = some text := by
  cases script with
  | done result => exact .inl h
  | call c next =>
      have hcall := (get?_perform store c path).symm.trans h
      split at hcall
      · next hpath =>
        rcases StoreCall.eq_or_of_textAfter hcall with hold | hgiven
        · exact .inl hold
        · exact .inr ⟨_, rfl, hpath, hgiven⟩
      · exact .inl hcall

/-- If a text is gone after the first call, this was a call to remove the document. -/
theorem effect_of_advance (h : (advance script store).2.2.get? path = none)
    (hold : store.get? path = some text) :
    ∃ answered, (advance script store).1 = some answered ∧ answered.1.effect = .remove := by
  cases script with
  | done result =>
      have hnone : store.get? path = none := h
      rw [hold] at hnone
      cases hnone
  | call c next =>
      have hcall := (get?_perform store c path).symm.trans h
      rw [hold] at hcall
      split at hcall
      · exact ⟨_, rfl, StoreCall.effect_of_textAfter hcall⟩
      · cases hcall

end MemoryStore

/-! ### Tasks -/

/-- A request under way. -/
structure Task where
  path : DocPath
  request : DocumentRequest
  /-- The calls that are still to be made. -/
  rest : StoreScript (Except ShelfError request.Result)

/-- What happens when a client has its turn. -/
structure Event (ι : Type) where
  client : ι
  path : DocPath
  request : DocumentRequest
  /-- The call that is made; none if the request is refused before it asks the store. -/
  call? : Option MemoryStore.Answered
  /-- What comes of the request, if this is its last call. -/
  result? : Option (Except ShelfError request.Result)
  /-- The text of the document before. -/
  before : Option String
  /-- The text of the document afterwards. -/
  after : Option String

namespace Event

variable {ι : Type}

/-- The request succeeds in this event. -/
def Succeeds (event : Event ι) : Prop := ∃ a, event.result? = some (.ok a)

/-- A document is made. -/
def Creates (path : DocPath) (event : Event ι) : Prop :=
  event.path = path ∧ (∃ value, event.request = .create value) ∧ event.Succeeds

/-- A document is taken away. -/
def Deletes (path : DocPath) (event : Event ι) : Prop :=
  event.path = path ∧ event.request = .delete ∧ event.Succeeds

/-- A single call gives the document this text, as a whole. -/
def Gives (path : DocPath) (text : String) (event : Event ι) : Prop :=
  ∃ answered, event.call? = some answered ∧ answered.1.path? = some path ∧
    answered.1.text? = some text

end Event

namespace Task

variable {ι : Type} {task : Task} {store other : MemoryStore} {path : DocPath}

/-- A request of which no call has been made. -/
def start (path : DocPath) (request : DocumentRequest) : Task :=
  ⟨path, request, (request.useCase path).run⟩

/-- The store after the next call of the task. -/
def storeAfter (task : Task) (store : MemoryStore) : MemoryStore :=
  (MemoryStore.advance task.rest store).2.2

/-- What happens when the next call of the task is made. -/
def event (i : ι) (task : Task) (store : MemoryStore) : Event ι where
  client := i
  path := task.path
  request := task.request
  call? := (MemoryStore.advance task.rest store).1
  result? := (MemoryStore.advance task.rest store).2.1.result?
  before := store.get? task.path
  after := (task.storeAfter store).get? task.path

@[simp] theorem path_event (i : ι) (task : Task) (store : MemoryStore) :
    (task.event i store).path = task.path := rfl

/-- What is left of the task after its next call; nothing if the result is there. -/
def remaining (task : Task) (store : MemoryStore) : List Task :=
  if (MemoryStore.advance task.rest store).2.1.result?.isSome then []
  else [⟨task.path, task.request, (MemoryStore.advance task.rest store).2.1⟩]

/-- What is known of the calls of a task. -/
structure Sound (task : Task) : Prop where
  only : task.rest.Only fun c =>
    c.path? = some task.path ∧ (c.effect = .nothing ∨ c.effect = task.request.effect)
  /-- Making a document and taking it away is a single call. -/
  whole : task.request.effect = .create ∨ task.request.effect = .remove →
    task.rest = (task.request.useCase task.path).run

theorem Sound.staysOn (h : task.Sound) : task.rest.Only fun c => c.path? = some task.path :=
  Script.Only.mono (fun _ hc => hc.1) h.only

theorem sound_start (path : DocPath) (request : DocumentRequest) : (start path request).Sound :=
  ⟨request.only_useCase path, fun _ => rfl⟩

theorem isSome_result?_of_whole (path : DocPath) (request : DocumentRequest) (store : MemoryStore)
    (h : request.effect = .create ∨ request.effect = .remove) :
    (MemoryStore.advance (request.useCase path).run store).2.1.result?.isSome := by
  cases request with
  | create value => rfl
  | delete => rfl
  | read | validate | health | shape | save _ | change _ => rcases h with h | h <;> cases h

theorem Sound.of_mem_remaining (h : task.Sound) {left : Task}
    (hleft : left ∈ task.remaining store) : left.path = task.path ∧ left.Sound := by
  rw [remaining] at hleft
  split at hleft
  · cases hleft
  · next hunfinished =>
    obtain rfl := List.mem_singleton.1 hleft
    refine ⟨rfl, MemoryStore.only_advance h.only store, fun hsingle => ?_⟩
    -- a request of a single call is done after it
    rw [h.whole hsingle] at hunfinished
    exact absurd (isSome_result?_of_whole task.path task.request store hsingle) hunfinished

/-- The next call of a task depends on no document but its own. -/
theorem Sound.event_congr (h : task.Sound) (i : ι)
    (hsame : store.get? task.path = other.get? task.path) :
    task.event i store = task.event i other ∧ task.remaining store = task.remaining other ∧
      (task.storeAfter store).get? task.path = (task.storeAfter other).get? task.path := by
  obtain ⟨hcall, hrest, hafter⟩ := MemoryStore.advance_congr h.staysOn hsame
  refine ⟨?_, ?_, hafter⟩
  · rw [event, event, hcall, hrest, hsame, storeAfter, storeAfter, hafter]
  · rw [remaining, remaining, hrest]

theorem Sound.get?_storeAfter_of_ne (h : task.Sound) (hne : task.path ≠ path)
    (store : MemoryStore) : (task.storeAfter store).get? path = store.get? path :=
  MemoryStore.get?_advance_of_ne h.staysOn hne store

end Task

/-! ### What an event does to a text -/

/-- How the text of a document comes out of an event. -/
structure Event.Moves {ι : Type} (event : Event ι) (path : DocPath) (old new : Option String) :
    Prop where
  /-- A new text is the whole text of a single call. -/
  given : ∀ text, new = some text → old = some text ∨ event.Gives path text
  /-- A document is gone only if it is taken away. -/
  deleted : old.isSome → new = none → event.Deletes path
  /-- A document that is made was not there. -/
  created : event.Creates path → old = none ∧ new.isSome

namespace Task.Sound

variable {ι : Type} {task : Task} {path : DocPath}

/-- Only a request to take a document away does so. -/
theorem deletes (h : task.Sound) (i : ι) (store : MemoryStore)
    (hold : (store.get? task.path).isSome) (hnew : (task.storeAfter store).get? task.path = none) :
    (task.event i store).Deletes task.path := by
  obtain ⟨text, htext⟩ := Option.isSome_iff_exists.1 hold
  obtain ⟨answered, hcall, hremove⟩ := MemoryStore.effect_of_advance hnew htext
  have heffect : task.request.effect = .remove := by
    rcases (MemoryStore.kind_of_advance h.only hcall).2 with hlooks | hsame
    · rw [hremove] at hlooks
      cases hlooks
    · exact hsame.symm.trans hremove
  have hwhole := h.whole (.inr heffect)
  obtain ⟨path, request, rest⟩ := task
  cases request with
  | delete =>
      obtain rfl : rest = (Shelf.delete path).run := hwhole
      refine ⟨rfl, rfl, (), ?_⟩
      show some ((MemoryStore.perform (.remove path) store).1.mapError ShelfError.store) = _
      rw [MemoryStore.reply_remove_of_get? htext hnew]
      rfl
  | read | validate | health | shape | save _ | create _ | change _ => cases heffect

/-- A document can be made only where there is none. -/
theorem creates (h : task.Sound) (i : ι) (store : MemoryStore)
    (hcreates : (task.event i store).Creates task.path) :
    store.get? task.path = none ∧ ((task.storeAfter store).get? task.path).isSome := by
  obtain ⟨-, ⟨value, hrequest⟩, result, hresult⟩ := hcreates
  obtain ⟨path, request, rest⟩ := task
  obtain rfl : request = .create value := hrequest
  obtain rfl : rest = (Shelf.create path value).run := h.whole (.inl rfl)
  have hreply := mapError_eq_ok.1 (Option.some.inj hresult)
  obtain ⟨hold, hnew⟩ := MemoryStore.get?_of_createText (Prod.ext hreply rfl)
  exact ⟨hold, Option.isSome_of_eq_some hnew⟩

/-- What the next call of a task does to any document. -/
theorem moves (h : task.Sound) (i : ι) (store : MemoryStore) (path : DocPath) :
    (task.event i store).Moves path (store.get? path) ((task.storeAfter store).get? path) := by
  by_cases hpath : task.path = path
  · subst hpath
    exact ⟨fun text htext => MemoryStore.eq_or_of_advance htext, h.deletes i store,
      h.creates i store⟩
  · rw [h.get?_storeAfter_of_ne hpath]
    refine ⟨fun text htext => .inl htext, fun hold hnew => ?_, fun hcreates => ?_⟩
    · rw [hnew] at hold
      cases hold
    · exact absurd hcreates.1 hpath

end Task.Sound

/-! ### Clients -/

/-- Clients with what each has left to do, and the store that they share. -/
structure Clients (ι : Type) where
  tasks : ι → List Task
  store : MemoryStore

namespace Clients

variable {ι : Type} [DecidableEq ι] {state next last alone : Clients ι} {event : Event ι} {i : ι}
  {log earlier later : List (Event ι)} {path : DocPath}

/-- Clients that have requests to make. -/
def start (requests : ι → List (DocPath × DocumentRequest)) (store : MemoryStore) : Clients ι :=
  ⟨fun i => (requests i).map fun r => .start r.1 r.2, store⟩

/-- The clients after a client has made the next call of its first task. -/
def afterTurn (state : Clients ι) (i : ι) (task : Task) (waiting : List Task) : Clients ι :=
  ⟨Function.update state.tasks i (task.remaining state.store ++ waiting),
    task.storeAfter state.store⟩

/-- What happens when a client has its turn. -/
def turn? (state : Clients ι) (i : ι) : Option (Event ι × Clients ι) :=
  match state.tasks i with
  | [] => none
  | task :: waiting => some (task.event i state.store, state.afterTurn i task waiting)

/-- Clients have their turns in some order, and these are the events. -/
inductive Runs : Clients ι → List (Event ι) → Clients ι → Prop where
  | stop {state : Clients ι} : Runs state [] state
  | turn {state next last : Clients ι} {event : Event ι} {log : List (Event ι)} (i : ι)
      (hturn : state.turn? i = some (event, next)) (hrest : Runs next log last) :
      Runs state (event :: log) last

theorem tasks_afterTurn_self (state : Clients ι) (i : ι) (task : Task) (waiting : List Task) :
    (state.afterTurn i task waiting).tasks i = task.remaining state.store ++ waiting :=
  Function.update_self ..

theorem tasks_afterTurn_of_ne {j : ι} (h : j ≠ i) (state : Clients ι) (task : Task)
    (waiting : List Task) : (state.afterTurn i task waiting).tasks j = state.tasks j :=
  Function.update_of_ne h ..

theorem turn?_of_tasks {task : Task} {waiting : List Task} (h : state.tasks i = task :: waiting) :
    state.turn? i = some (task.event i state.store, state.afterTurn i task waiting) := by
  rw [turn?, h]

theorem turn?_eq_some (h : state.turn? i = some (event, next)) :
    ∃ task waiting, state.tasks i = task :: waiting ∧ event = task.event i state.store ∧
      next = state.afterTurn i task waiting := by
  rw [turn?] at h
  split at h
  · cases h
  · next task waiting htasks =>
    obtain ⟨rfl, rfl⟩ := Prod.mk.inj (Option.some.inj h)
    exact ⟨task, waiting, htasks, rfl, rfl⟩

/-- What is known of the tasks of the clients. -/
def Sound (state : Clients ι) : Prop :=
  ∀ i, ∀ task ∈ state.tasks i, task.Sound

omit [DecidableEq ι] in
theorem sound_start (requests : ι → List (DocPath × DocumentRequest)) (store : MemoryStore) :
    (start requests store).Sound := by
  intro i task htask
  obtain ⟨r, -, rfl⟩ := List.mem_map.1 htask
  exact Task.sound_start r.1 r.2

/-- A turn keeps what is known of the tasks. -/
theorem Sound.turn? (h : state.Sound) (hturn : state.turn? i = some (event, next)) :
    next.Sound := by
  obtain ⟨task, waiting, htasks, rfl, rfl⟩ := turn?_eq_some hturn
  intro j left hleft
  by_cases hj : j = i
  · subst hj
    rw [tasks_afterTurn_self, List.mem_append] at hleft
    rcases hleft with hleft | hleft
    · exact ((h j task (by simp [htasks])).of_mem_remaining hleft).2
    · exact h j left (by simp [htasks, hleft])
  · rw [tasks_afterTurn_of_ne hj] at hleft
    exact h j left hleft

theorem Sound.moves (h : state.Sound) (hturn : state.turn? i = some (event, next))
    (path : DocPath) : event.Moves path (state.store.get? path) (next.store.get? path) := by
  obtain ⟨task, waiting, htasks, rfl, rfl⟩ := turn?_eq_some hturn
  exact (h i task (by simp [htasks])).moves i state.store path

namespace Runs

theorem sound (hrun : Runs state log last) (h : state.Sound) : last.Sound := by
  induction hrun with
  | stop => exact h
  | turn i hturn _ ih => exact ih (h.turn? hturn)

theorem of_append (h : Runs state (earlier ++ later) last) :
    ∃ between, Runs state earlier between ∧ Runs between later last := by
  induction earlier generalizing state with
  | nil => exact ⟨state, .stop, h⟩
  | cons event rest ih =>
      cases h with
      | turn i hturn hrest =>
          obtain ⟨between, hfirst, hsecond⟩ := ih hrest
          exact ⟨between, .turn i hturn hfirst, hsecond⟩

/-- A text that is there was there at the start, or is the whole text of a single call. -/
theorem given {text : String} (hrun : Runs state log last) (h : state.Sound)
    (htext : last.store.get? path = some text) :
    state.store.get? path = some text ∨ ∃ event ∈ log, event.Gives path text := by
  induction hrun with
  | stop => exact .inl htext
  | turn i hturn _ ih =>
      rcases ih (h.turn? hturn) htext with hnext | ⟨event, hmem, hgives⟩
      · rcases (h.moves hturn path).given text hnext with hold | hgives
        · exact .inl hold
        · exact .inr ⟨_, List.mem_cons_self, hgives⟩
      · exact .inr ⟨event, List.mem_cons_of_mem _ hmem, hgives⟩

/-- A document that is gone was taken away. -/
theorem deleted (hrun : Runs state log last) (h : state.Sound)
    (hold : (state.store.get? path).isSome) (hnew : last.store.get? path = none) :
    ∃ event ∈ log, event.Deletes path := by
  induction hrun with
  | stop =>
      rw [hnew] at hold
      cases hold
  | @turn state next _ event _ i hturn _ ih =>
      cases hnext : next.store.get? path with
      | none => exact ⟨event, List.mem_cons_self, (h.moves hturn path).deleted hold hnext⟩
      | some text =>
          obtain ⟨e, hmem, hdeletes⟩ := ih (h.turn? hturn) (by rw [hnext]; rfl) hnew
          exact ⟨e, List.mem_cons_of_mem _ hmem, hdeletes⟩

/-- Between two events that make a document there is one that takes it away. -/
theorem deleted_between {first second : Event ι} {between : List (Event ι)}
    (hrun : Runs state (earlier ++ first :: between ++ second :: later) last) (h : state.Sound)
    (hfirst : first.Creates path) (hsecond : second.Creates path) :
    ∃ event ∈ between, event.Deletes path := by
  rw [List.append_assoc, List.cons_append] at hrun
  obtain ⟨atFirst, hearlier, hrun⟩ := hrun.of_append
  have hatFirst := hearlier.sound h
  cases hrun with
  | turn i hturn hrun =>
      obtain ⟨atSecond, hbetween, hrun⟩ := hrun.of_append
      have hafterFirst := hatFirst.turn? hturn
      have hthere := ((hatFirst.moves hturn path).created hfirst).2
      cases hrun with
      | turn j hturn' _ =>
          have hgone := (((hbetween.sound hafterFirst).moves hturn' path).created hsecond).1
          exact hbetween.deleted hafterFirst hthere hgone

end Runs

/-! ### Turns on one document -/

/-- Clients that have the tasks of others that are about one document, with the same text of it. -/
structure Follows (path : DocPath) (alone state : Clients ι) : Prop where
  tasks : ∀ i, alone.tasks i = (state.tasks i).filter (·.path = path)
  text : alone.store.get? path = state.store.get? path

namespace Follows

variable {task : Task} {waiting : List Task}

/-- A turn on the document is a turn of the clients that have no other tasks. -/
theorem turn_at (h : Follows path alone state) (hsound : task.Sound)
    (htasks : state.tasks i = task :: waiting) (hpath : task.path = path) :
    ∃ aloneNext, alone.turn? i = some (task.event i state.store, aloneNext) ∧
      Follows path aloneNext (state.afterTurn i task waiting) := by
  subst hpath
  obtain ⟨hevent, hremaining, hafter⟩ := hsound.event_congr i h.text
  have halone : alone.tasks i = task :: waiting.filter (·.path = task.path) := by
    rw [h.tasks, htasks, List.filter_cons_of_pos (by simp)]
  refine ⟨_, (turn?_of_tasks halone).trans (by rw [hevent]), fun j => ?_, hafter⟩
  by_cases hj : j = i
  · subst hj
    have hkept : (task.remaining state.store).filter (·.path = task.path) =
        task.remaining state.store :=
      List.filter_eq_self.2 fun left hleft => by simpa using (hsound.of_mem_remaining hleft).1
    rw [tasks_afterTurn_self, tasks_afterTurn_self, hremaining, List.filter_append, hkept]
  · rw [tasks_afterTurn_of_ne hj, tasks_afterTurn_of_ne hj, h.tasks]

/-- A turn on another document may be left out. -/
theorem turn_elsewhere (h : Follows path alone state) (hsound : task.Sound)
    (htasks : state.tasks i = task :: waiting) (hpath : task.path ≠ path) :
    Follows path alone (state.afterTurn i task waiting) := by
  refine ⟨fun j => ?_, h.text.trans (hsound.get?_storeAfter_of_ne hpath state.store).symm⟩
  by_cases hj : j = i
  · subst hj
    have hdropped : (task.remaining state.store).filter (·.path = path) = [] :=
      List.filter_eq_nil_iff.2 fun left hleft => by
        simpa [(hsound.of_mem_remaining hleft).1] using hpath
    rw [tasks_afterTurn_self, h.tasks, htasks, List.filter_append, hdropped,
      List.filter_cons_of_neg (by simpa using hpath), List.nil_append]
  · rw [tasks_afterTurn_of_ne hj, h.tasks]

/-- What happens to the document is a run of the clients that have no other tasks. -/
theorem runs (hrun : Runs state log last) (hsound : state.Sound) (h : Follows path alone state) :
    ∃ aloneLast, Runs alone (log.filter (·.path = path)) aloneLast ∧
      Follows path aloneLast last := by
  induction hrun generalizing alone with
  | stop => exact ⟨alone, .stop, h⟩
  | turn i hturn _ ih =>
      obtain ⟨task, waiting, htasks, rfl, rfl⟩ := turn?_eq_some hturn
      have htask : task.Sound := hsound i task (by simp [htasks])
      by_cases hpath : task.path = path
      · obtain ⟨aloneNext, haloneTurn, hnext⟩ := h.turn_at htask htasks hpath
        obtain ⟨aloneLast, hrest, hlast⟩ := ih (hsound.turn? hturn) hnext
        rw [List.filter_cons, Task.path_event, if_pos (decide_eq_true hpath)]
        exact ⟨aloneLast, .turn i haloneTurn hrest, hlast⟩
      · rw [List.filter_cons, Task.path_event, if_neg (mt of_decide_eq_true hpath)]
        exact ih (hsound.turn? hturn) (h.turn_elsewhere htask htasks hpath)

omit [DecidableEq ι] in
/-- At the start the other requests are left out. -/
theorem start (requests : ι → List (DocPath × DocumentRequest)) (store : MemoryStore)
    (path : DocPath) :
    Follows path (Clients.start (fun i => (requests i).filter (·.1 = path)) store)
      (Clients.start requests store) where
  tasks i := by
    rw [Clients.start, Clients.start, List.filter_map]
    rfl
  text := rfl

end Follows

/-- **In any order of turns, what happens to a document is what would happen without all calls about
the others**, between two successful requests to make it there is one that takes it away, and its
text is the one of the start or the whole text of a single call. -/
theorem runs_apart {requests : ι → List (DocPath × DocumentRequest)} {store : MemoryStore}
    (hrun : Runs (start requests store) log last) (path : DocPath) :
    (∃ aloneLast,
      Runs (start (fun i => (requests i).filter (·.1 = path)) store) (log.filter (·.path = path))
        aloneLast ∧ aloneLast.store.get? path = last.store.get? path) ∧
    (∀ earlier first between second later, log = earlier ++ first :: between ++ second :: later →
      first.Creates path → second.Creates path → ∃ event ∈ between, event.Deletes path) ∧
    ∀ text, last.store.get? path = some text →
      store.get? path = some text ∨ ∃ event ∈ log, event.Gives path text := by
  have hsound := sound_start requests store
  refine ⟨?_, ?_, ?_⟩
  · obtain ⟨aloneLast, halone, hfollows⟩ := (Follows.start requests store path).runs hrun hsound
    exact ⟨aloneLast, halone, hfollows.text⟩
  · intro earlier first between second later hlog hfirst hsecond
    subst hlog
    exact hrun.deleted_between hsound hfirst hsecond
  · intro text htext
    exact hrun.given hsound htext

/-- Two clients that make the same document; one of them takes it away and saves another. -/
def twoClients : Bool → List (DocPath × DocumentRequest)
  | true => [(⟨"a.json"⟩, .create none), (⟨"a.json"⟩, .delete), (⟨"b.json"⟩, .save .null)]
  | false => [(⟨"a.json"⟩, .create none), (⟨"a.json"⟩, .create (some (.bool true)))]

/-- The second client fails to make the document until the first has taken it away. -/
theorem runs_apart_twoClients :
    ∃ log last, Runs (start twoClients .empty) log last ∧
      log.map (fun event => (event.client, event.after)) =
        [(true, some "[]"), (false, some "[]"), (true, none), (true, none), (false, some "true"),
          (true, some "null")] ∧
      (∃ aloneLast,
        Runs (start (fun i => (twoClients i).filter (·.1 = ⟨"a.json"⟩)) .empty)
          (log.filter (·.path = ⟨"a.json"⟩)) aloneLast ∧
          aloneLast.store.get? ⟨"a.json"⟩ = last.store.get? ⟨"a.json"⟩) ∧
      (∃ event ∈ log, event.Deletes ⟨"a.json"⟩) ∧
      ∃ event ∈ log, event.Gives ⟨"a.json"⟩ "true" := by
  have hrun : Runs (start twoClients .empty) _ _ :=
    .turn true rfl <| .turn false rfl <| .turn true rfl <| .turn true rfl <| .turn false rfl <|
      .turn true rfl .stop
  obtain ⟨halone, hbetween, hgiven⟩ := runs_apart hrun ⟨"a.json"⟩
  refine ⟨_, _, hrun, rfl, halone, ?_, ?_⟩
  · obtain ⟨event, hmem, hdeletes⟩ := hbetween [] _ [_, _, _] _ [_] rfl
      ⟨rfl, ⟨none, rfl⟩, (), rfl⟩ ⟨rfl, ⟨some (.bool true), rfl⟩, (), rfl⟩
    exact ⟨event, List.mem_append_left _ (List.mem_cons_of_mem _ hmem), hdeletes⟩
  · rcases hgiven "true" rfl with hstart | hgives
    · cases hstart
    · exact hgives

end Clients

end JsonShelf
