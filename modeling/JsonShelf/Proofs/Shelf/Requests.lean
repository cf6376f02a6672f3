/-
**What a request may change.**

Everything that can be asked of a shelf is a request.  Most requests only look; the others look
first and change one document at the very end, so that a request that fails has changed nothing.
This holds for each request whatever the store, and so for all requests of a history.

Main definitions:

* `DocumentRequest`, `Request` — what can be asked about one document, and of the shelf;
* `UseCase.AllOrNothing` — a use case that fails leaves the store as it was;
* `Request.history` — requests one after the other, each with what came of it;
* `Request.Step.Orderly` — what a request keeps to.

Main results:

* `DocumentRequest.only_useCase`, `DocumentRequest.allOrNothing_useCase` — the calls that a request
  makes, and that the one that changes something comes last;
* `Request.history_orderly` — **in every history, a request that fails changes nothing, a request
  that succeeds changes its own document at most, and a path that is refused is reported**.
-/

import JsonShelf.Proofs.Shelf.Attempts
import JsonShelf.Proofs.Shelf.Readable

set_option autoImplicit false

namespace JsonShelf

variable {α β : Type} {path : DocPath} {store after : MemoryStore}

/-! ### Use cases that change nothing when they fail -/

namespace UseCase

/-- The use case makes calls without effect only. -/
def Looks (useCase : UseCase α) : Prop :=
  useCase.Only fun c => c.effect = .nothing

theorem Looks.state_attempt {useCase : UseCase α} (h : useCase.Looks) (store : MemoryStore) :
    (store.attempt useCase).2 = store :=
  MemoryStore.state_run_of_only h store

/-- A use case that fails leaves the store as it was. -/
def AllOrNothing (useCase : UseCase α) : Prop :=
  ∀ (store after : MemoryStore) (e : ShelfError),
    store.attempt useCase = (.error e, after) → after = store

namespace AllOrNothing

theorem of_looks {useCase : UseCase α} (h : useCase.Looks) : useCase.AllOrNothing := by
  intro store after e hrun
  have hstate := h.state_attempt store
  rw [hrun] at hstate
  exact hstate

/-- A use case may look first. -/
theorem after_looks {x : UseCase α} {f : α → UseCase β} (hx : x.Looks)
    (hf : ∀ a, (f a).AllOrNothing) : (x >>= f).AllOrNothing := by
  intro store after e hrun
  have hstate := hx.state_attempt store
  rw [MemoryStore.attempt_bind] at hrun
  generalize store.attempt x = result at hrun hstate
  obtain ⟨outcome, between⟩ := result
  obtain rfl : between = store := hstate
  cases outcome with
  | ok a => exact hf a between after e hrun
  | error failure => exact (Prod.mk.inj hrun).2.symm

/-- A use case may compute its result at the end. -/
theorem map {x : UseCase α} (hx : x.AllOrNothing) (g : α → β) :
    (x >>= fun a => pure (g a)).AllOrNothing := by
  intro store after e hrun
  rw [MemoryStore.attempt_bind] at hrun
  cases hresult : store.attempt x with
  | mk outcome between =>
      rw [hresult] at hrun
      cases outcome with
      | ok a => cases hrun
      | error failure =>
          obtain rfl : between = after := (Prod.mk.inj hrun).2
          exact hx store between failure hresult

/-- A single change that is refused leaves the store as it was. -/
theorem commit (change : StoreCall) (useCase : UseCase Unit)
    (h : ∀ store : MemoryStore, store.attempt useCase =
      ((store.commit change).1.mapError .store, (store.commit change).2)) :
    useCase.AllOrNothing := by
  intro store after e hrun
  rw [h, MemoryStore.commit] at hrun
  cases hchange : store.changed change with
  | ok changed =>
      rw [hchange] at hrun
      cases hrun
  | error failure =>
      rw [hchange] at hrun
      exact (Prod.mk.inj hrun).2.symm

theorem writeText (path : DocPath) (text : String) : (Shelf.writeText path text).AllOrNothing :=
  commit (.writeText path text) _ fun _ => rfl

theorem create (path : DocPath) (value : Option Json) : (Shelf.create path value).AllOrNothing :=
  commit (.createText path (value.getD (.array [])).pretty) _ fun _ => rfl

theorem delete (path : DocPath) : (Shelf.delete path).AllOrNothing :=
  commit (.remove path) _ fun _ => rfl

theorem save (path : DocPath) (value : Json) : (Shelf.save path value).AllOrNothing := by
  have hask : (UseCase.ofStore (Script.perform (StoreCall.contains path))).Looks :=
    Only.ofStore (Script.only_perform rfl)
  exact after_looks hask fun wasThere => (writeText path value.pretty).map fun _ => !wasThere

/-- A change of a collection writes at the very end, whatever the change. -/
theorem mutate (path : DocPath) (change : Json → Except RecordError Mutation) :
    (Shelf.mutate path change).AllOrNothing := by
  refine after_looks (Only.load rfl) fun root => ?_
  refine after_looks (Only.ofRecords (change root)) fun mutation => ?_
  exact (writeText path mutation.root.pretty).map fun _ => mutation.record

end AllOrNothing

end UseCase

/-! ### Changes of collections -/

namespace RecordCommand

/-- The patch of an update. -/
def patch? : RecordCommand → Option Json
  | updateById _ patch | updateByIndex _ patch => some patch
  | add _ | delete _ => none

/-- A change reads its document and writes it. -/
theorem only_useCase {kind : StoreCall → Prop} (c : RecordCommand)
    (hread : kind (.readText path)) (hwrite : ∀ text, kind (.writeText path text)) :
    (c.useCase path).Only kind := by
  cases c with
  | add record => exact UseCase.Only.mutate _ hread hwrite
  | delete id => exact UseCase.Only.mutate _ hread hwrite
  | updateById id patch =>
      exact (UseCase.Only.ofRecords _).bind fun _ => UseCase.Only.mutate _ hread hwrite
  | updateByIndex index patch =>
      exact (UseCase.Only.ofRecords _).bind fun _ => UseCase.Only.mutate _ hread hwrite

theorem allOrNothing_useCase (path : DocPath) (c : RecordCommand) :
    (c.useCase path).AllOrNothing := by
  cases c with
  | add record => exact .mutate path _
  | delete id => exact .mutate path _
  | updateById id patch =>
      exact .after_looks (UseCase.Only.ofRecords _) fun members => .mutate path _
  | updateByIndex index patch =>
      exact .after_looks (UseCase.Only.ofRecords _) fun members => .mutate path _

end RecordCommand

/-! ### Requests about one document -/

/-- What can be asked about one document. -/
inductive DocumentRequest where
  | read
  | save (value : Json)
  | create (value : Option Json)
  | delete
  | validate
  | health
  | shape
  | change (command : RecordCommand)

namespace DocumentRequest

/-- What a request gives if it succeeds. -/
def Result : DocumentRequest → Type
  | read => View
  | save _ => Bool
  | create _ | delete => Unit
  | validate => ValidationResult
  | health => HealthReport
  | shape => Shape
  | change _ => Json

/-- The use case that is asked for. -/
def useCase (path : DocPath) : (r : DocumentRequest) → UseCase r.Result
  | read => Shelf.read path
  | save value => Shelf.save path value
  | create value => Shelf.create path value
  | delete => Shelf.delete path
  | validate => Shelf.validate path
  | health => Shelf.health path
  | shape => Shelf.shape path
  | change command => command.useCase path

/-- What a request can do to its document. -/
def effect : DocumentRequest → StoreCall.Effect
  | read | validate | health | shape => .nothing
  | save _ | change _ => .write
  | create _ => .create
  | delete => .remove

/-- The request is an update whose patch is no object. -/
def hasBadPatch : DocumentRequest → Bool
  | change command => command.patch?.any fun patch => patch.members?.isNone
  | _ => false

variable {r : DocumentRequest}

/-- A request calls on its document only; its calls look, or do what the request can do. -/
theorem only_useCase (path : DocPath) (r : DocumentRequest) :
    (r.useCase path).Only fun c =>
      c.path? = some path ∧ (c.effect = .nothing ∨ c.effect = r.effect) := by
  cases r with
  | read => exact .read ⟨rfl, .inl rfl⟩ ⟨rfl, .inl rfl⟩
  | save value => exact .save ⟨rfl, .inl rfl⟩ ⟨rfl, .inr rfl⟩
  | create value => exact .create ⟨rfl, .inr rfl⟩
  | delete => exact .delete ⟨rfl, .inr rfl⟩
  | validate => exact .validate ⟨rfl, .inl rfl⟩
  | health => exact .health ⟨rfl, .inl rfl⟩
  | shape => exact .shape ⟨rfl, .inl rfl⟩
  | change command => exact command.only_useCase ⟨rfl, .inl rfl⟩ fun _ => ⟨rfl, .inr rfl⟩

theorem allOrNothing_useCase (path : DocPath) (r : DocumentRequest) :
    (r.useCase path).AllOrNothing := by
  cases r with
  | read => exact .of_looks (.read rfl rfl)
  | save value => exact .save path value
  | create value => exact .create path value
  | delete => exact .delete path
  | validate => exact .of_looks (.validate rfl)
  | health => exact .of_looks (.health rfl)
  | shape => exact .of_looks (.shape rfl)
  | change command => exact command.allOrNothing_useCase path

/-! ### Paths that are refused -/

theorem attempt_mutate_of_refused (hpath : path.isDocument = false) (store : MemoryStore)
    (change : Json → Except RecordError Mutation) :
    store.attempt (Shelf.mutate path change) = (.error (.store (.invalidPath path)), store) := by
  have hload : store.attempt (Shelf.load path) = (.error (.store (.invalidPath path)), store) := by
    rw [MemoryStore.attempt_load, MemoryStore.find_eq, hpath]
    rfl
  exact MemoryStore.attempt_bind_of_error hload _

/-- An update looks at its patch first, and then at its path. -/
theorem attempt_patch_of_refused (hpath : path.isDocument = false) (store : MemoryStore)
    (patch : Json) (change : Members Json → Json → Except RecordError Mutation) :
    store.attempt (UseCase.ofRecords (Records.patch? patch) >>= fun members =>
        Shelf.mutate path (change members)) =
      (.error (if patch.members?.isNone then .record .patchNotObject
        else .store (.invalidPath path)), store) := by
  cases patch with
  | object members => exact attempt_mutate_of_refused hpath store (change members)
  | null | bool _ | number _ | string _ | array _ => rfl

/-- A request that would change a document whose path is refused is refused itself, for its path or
for its patch. -/
theorem attempt_of_refused (hpath : path.isDocument = false) (heffect : r.effect ≠ .nothing)
    (store : MemoryStore) :
    store.attempt (r.useCase path) =
      (.error (if r.hasBadPatch then .record .patchNotObject else .store (.invalidPath path)),
        store) := by
  cases r with
  | read | validate | health | shape => exact absurd rfl heffect
  | save value =>
      have hask : store.attempt (UseCase.ofStore (Script.perform (StoreCall.contains path))) =
          (.error (.store (.invalidPath path)), store) := by
        rw [MemoryStore.attempt_contains, checkPath, hpath]
        rfl
      exact MemoryStore.attempt_bind_of_error hask _
  | create value =>
      show ((MemoryStore.perform (.createText path _) store).1.mapError _,
        (MemoryStore.perform (.createText path _) store).2) = _
      rw [MemoryStore.perform_createText, hpath]
      rfl
  | delete =>
      show ((MemoryStore.perform (.remove path) store).1.mapError _,
        (MemoryStore.perform (.remove path) store).2) = _
      rw [MemoryStore.perform_remove, hpath]
      rfl
  | change command =>
      cases command with
      | add record => exact attempt_mutate_of_refused hpath store _
      | delete id => exact attempt_mutate_of_refused hpath store _
      | updateById id patch => exact attempt_patch_of_refused hpath store patch _
      | updateByIndex index patch => exact attempt_patch_of_refused hpath store patch _

end DocumentRequest

/-! ### Requests -/

/-- What can be asked of a shelf. -/
inductive Request where
  | list
  | healthOfAll
  | schemaModule (generatedAt : Option Timestamp)
  | document (path : DocPath) (request : DocumentRequest)

namespace Request

/-- What a request gives if it succeeds. -/
def Result : Request → Type
  | list => List Summary
  | healthOfAll => List (DocPath × HealthReport)
  | schemaModule _ => Shelf.SchemaModule
  | document _ request => request.Result

/-- The use case that is asked for. -/
def useCase : (r : Request) → UseCase r.Result
  | list => Shelf.list
  | healthOfAll => Shelf.healthOfAll
  | schemaModule generatedAt => Shelf.schemaModule generatedAt
  | document path request => request.useCase path

/-- The document that the request is about. -/
def path? : Request → Option DocPath
  | list | healthOfAll | schemaModule _ => none
  | document path _ => some path

/-- What the request can do to its document. -/
def effect : Request → StoreCall.Effect
  | list | healthOfAll | schemaModule _ => .nothing
  | document _ request => request.effect

variable {r : Request}

theorem looks_useCase (r : Request) (h : r.effect = .nothing) : r.useCase.Looks := by
  cases r with
  | list => exact .list rfl (fun _ => rfl) fun _ => rfl
  | healthOfAll => exact .healthOfAll rfl fun _ => rfl
  | schemaModule generatedAt => exact .schemaModule rfl fun _ => rfl
  | document path request =>
      refine Script.Only.mono (fun c hc => ?_) (request.only_useCase path)
      rcases hc.2 with hc | hc
      · exact hc
      · exact hc.trans h

/-! ### Histories -/

/-- A request that was carried out. -/
structure Step where
  before : MemoryStore
  request : Request
  result : Except ShelfError request.Result
  after : MemoryStore

/-- What comes of a request. -/
def step (store : MemoryStore) (request : Request) : Step :=
  ⟨store, request, (store.attempt request.useCase).1, (store.attempt request.useCase).2⟩

/-- What comes of requests that are carried out one after the other. -/
def history (store : MemoryStore) : List Request → List Step
  | [] => []
  | request :: rest => step store request :: history (step store request).after rest

/-- The store after some requests. -/
def afterAll (store : MemoryStore) : List Request → MemoryStore
  | [] => store
  | request :: rest => afterAll (step store request).after rest

/-- What a request keeps to. -/
structure Step.Orderly (step : Step) : Prop where
  /-- A request that fails leaves the store as it was. -/
  of_error : ∀ e, step.result = .error e → step.after = step.before
  /-- A request changes no document but its own. -/
  elsewhere : ∀ path, step.request.path? ≠ some path →
    step.after.get? path = step.before.get? path
  /-- A request that only looks changes nothing. -/
  of_looks : step.request.effect = .nothing → step.after = step.before
  /-- A path that is refused is reported, unless a patch that is no object is reported first. -/
  of_refused : ∀ path request, step.request = .document path request →
    request.effect ≠ .nothing → checkPath path ≠ .ok () →
      step.result =
        .error (if request.hasBadPatch then .record .patchNotObject else .store (.invalidPath path))

/-- The request leaves a document as it is: it is about another one, it only looks, or it fails. -/
def Step.Spares (path : DocPath) (step : Step) : Prop :=
  step.request.path? ≠ some path ∨ step.request.effect = .nothing ∨ ∃ e, step.result = .error e

theorem allOrNothing_useCase (r : Request) : r.useCase.AllOrNothing := by
  by_cases h : r.effect = .nothing
  · exact .of_looks (looks_useCase r h)
  · cases r with
    | list | healthOfAll | schemaModule _ => exact absurd rfl h
    | document path request => exact request.allOrNothing_useCase path

theorem get?_step_of_ne (store : MemoryStore) (h : r.path? ≠ some path) :
    (step store r).after.get? path = store.get? path := by
  by_cases hlooks : r.effect = .nothing
  · exact congrArg (·.get? path) ((looks_useCase r hlooks).state_attempt store)
  · cases r with
    | list | healthOfAll | schemaModule _ => exact absurd rfl hlooks
    | document own request =>
        have honly := Script.Only.mono (fun c hc => hc.1) (request.only_useCase own)
        exact MemoryStore.get?_run_of_only honly (fun heq => h (congrArg some heq)) store

/-- Whatever the store and the request. -/
theorem orderly_step (store : MemoryStore) (r : Request) : (step store r).Orderly where
  of_error e he := r.allOrNothing_useCase store _ e (Prod.ext he rfl)
  elsewhere path hpath := get?_step_of_ne store hpath
  of_looks h := (looks_useCase r h).state_attempt store
  of_refused path request hrequest heffect hpath := by
    obtain rfl : r = document path request := hrequest
    have hrefused : path.isDocument = false :=
      Bool.eq_false_iff.2 fun hdocument => hpath (checkPath_eq_ok.2 hdocument)
    exact congrArg Prod.fst (DocumentRequest.attempt_of_refused hrefused heffect store)

theorem orderly_of_mem_history {requests : List Request} {s : Step}
    (h : s ∈ history store requests) : s.Orderly := by
  induction requests generalizing store with
  | nil => cases h
  | cons request rest ih =>
      rcases List.mem_cons.1 h with rfl | h
      · exact orderly_step store request
      · exact ih h

theorem get?_of_spares (h : (step store r).Spares path) :
    (step store r).after.get? path = store.get? path := by
  have horderly := orderly_step store r
  rcases h with helsewhere | hlooks | ⟨e, he⟩
  · exact horderly.elsewhere path helsewhere
  · exact congrArg (·.get? path) (horderly.of_looks hlooks)
  · exact congrArg (·.get? path) (horderly.of_error e he)

/-- **In every history, a request that fails leaves the store as it was, a request that succeeds
changes its own document at most, and a path that is refused is reported.**  So a document that all
requests spare has the text that it had at the start. -/
theorem history_orderly (store : MemoryStore) (requests : List Request) :
    (∀ s ∈ history store requests, s.Orderly) ∧
      ∀ path, (∀ s ∈ history store requests, s.Spares path) →
        (afterAll store requests).get? path = store.get? path := by
  refine ⟨fun s hs => orderly_of_mem_history hs, ?_⟩
  intro path hspares
  induction requests generalizing store with
  | nil => rfl
  | cons request rest ih =>
      have hfirst := get?_of_spares (hspares _ List.mem_cons_self)
      have hrest := ih (step store request).after fun s hs => hspares s (List.mem_cons_of_mem _ hs)
      exact hrest.trans hfirst

/-- A collection and another document. -/
def twoDocuments : MemoryStore := .ofList [(⟨"a.json"⟩, "[]"), (⟨"b.json"⟩, "null")]

/-- A patch of a record that is not there, a patch that is no object and a text for a path that is
refused, and the removal of the other document. -/
def fourRequests : List Request :=
  [document ⟨"a.json"⟩ (.change (.updateByIndex 2 (.object []))),
    document ⟨"../a.json"⟩ (.change (.updateById 1 (.array []))),
    document ⟨"../a.json"⟩ (.save (.array [])), document ⟨"b.json"⟩ .delete]

/-- The first three requests fail, each for its own reason, and the collection is as it was. -/
theorem history_orderly_fourRequests :
    (∀ s ∈ history twoDocuments fourRequests, s.Spares ⟨"a.json"⟩) ∧
      (afterAll twoDocuments fourRequests).get? ⟨"a.json"⟩ = some "[]" ∧
      (afterAll twoDocuments fourRequests).get? ⟨"b.json"⟩ = none ∧
      (step twoDocuments (document ⟨"../a.json"⟩ (.save (.array [])))).result =
        .error (.store (.invalidPath ⟨"../a.json"⟩)) := by
  have hspares : ∀ s ∈ history twoDocuments fourRequests, s.Spares ⟨"a.json"⟩ := by
    intro s hs
    simp only [fourRequests, history, List.mem_cons, List.not_mem_nil, or_false] at hs
    rcases hs with rfl | rfl | rfl | rfl
    · exact .inr (.inr ⟨_, rfl⟩)
    · exact .inl (by decide)
    · exact .inl (by decide)
    · exact .inl (by decide)
  obtain ⟨horderly, hkept⟩ := history_orderly twoDocuments fourRequests
  have hrefused := (horderly _ (List.mem_cons_of_mem _ (List.mem_cons_of_mem _
    List.mem_cons_self))).of_refused ⟨"../a.json"⟩ (.save (.array [])) rfl nofun (by decide)
  exact ⟨hspares, hkept _ hspares, rfl, hrefused⟩

end Request

end JsonShelf
