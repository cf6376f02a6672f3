/-
**Which documents a use case reaches.**

A use case is a tree of calls, one branch for each reply that the store may give.  If every call in
the tree is about one document, the use case cannot see or change any other, whatever the store
replies.

Main definitions:

* `Script.Only`, `UseCase.Only` — every call that the script or the use case can make is of one
  kind;
* `UseCase.StaysOn` — every call that the use case can make is about one document.

Main results:

* `Script.Only.bind`, `UseCase.Only.bind` — a script stays in bounds if all its parts do;
* `UseCase.Only.read`, `UseCase.Only.mutate` and the others — the calls that each use case can make;
* `UseCase.StaysOn.read`, `UseCase.StaysOn.mutate` and the others — **the use cases for one document
  call on the store about that document only**.
-/

import JsonShelf.Proofs.Computation
import JsonShelf.Shelf.Inspection
import JsonShelf.Shelf.Records

set_option autoImplicit false

namespace JsonShelf

namespace Script

variable {Call : Type} {Reply : Call → Type} {α β : Type} {kind : Call → Prop}

/-- Every call that the script can make is of a kind, whatever the replies. -/
def Only (kind : Call → Prop) : Script Call Reply α → Prop
  | done _ => True
  | call c next => kind c ∧ ∀ reply, Only kind (next reply)

theorem Only.mono {wider : Call → Prop} (hkind : ∀ c, kind c → wider c)
    {script : Script Call Reply α} (h : Only kind script) : Only wider script := by
  induction script with
  | done result => trivial
  | call c next ih =>
      obtain ⟨hc, hnext⟩ := h
      exact ⟨hkind c hc, fun reply => ih reply (hnext reply)⟩

theorem only_perform {c : Call} (h : kind c) :
    Only kind (perform c : Script Call Reply (Reply c)) :=
  ⟨h, fun _ => trivial⟩

theorem Only.bind {script : Script Call Reply α} {f : α → Script Call Reply β}
    (h : Only kind script) (hf : ∀ a, Only kind (f a)) : Only kind (script >>= f) := by
  induction script with
  | done result => exact hf result
  | call c next ih =>
      obtain ⟨hkind, hnext⟩ := h
      exact ⟨hkind, fun reply => ih reply (hnext reply)⟩

end Script

namespace UseCase

variable {α β : Type} {path : DocPath} {kind : StoreCall → Prop}

/-- Every call that the use case can make is of a kind. -/
def Only (kind : StoreCall → Prop) (useCase : UseCase α) : Prop :=
  Script.Only kind useCase.run

namespace Only

/-! ### Parts -/

theorem done (result : Except ShelfError α) : Only kind (ExceptT.mk (Script.done result)) :=
  trivial

/-- A use case of two parts makes calls of a kind if both of them do. -/
theorem bind {x : UseCase α} {f : α → UseCase β} (hx : Only kind x) (hf : ∀ a, Only kind (f a)) :
    Only kind (x >>= f) := by
  refine Script.Only.bind hx fun result => ?_
  cases result with
  | error e => trivial
  | ok a => exact hf a

theorem ofStore {script : StoreScript (Except StoreError α)} (h : Script.Only kind script) :
    Only kind (UseCase.ofStore script) :=
  h.bind fun _ => trivial

theorem ofRecords (result : Except RecordError α) : Only kind (UseCase.ofRecords result) :=
  trivial

theorem outcome {x : UseCase α} (h : Only kind x) : Only kind (UseCase.outcome x) :=
  Script.Only.bind h fun _ => trivial

theorem mapM {f : α → UseCase β} (h : ∀ a, Only kind (f a)) (l : List α) :
    Only kind (l.mapM f) := by
  induction l with
  | nil => exact done (.ok [])
  | cons a rest ih =>
      rw [List.mapM_cons]
      exact (h a).bind fun _ => ih.bind fun _ => done _

/-! ### The calls of each use case -/

theorem readText (h : kind (.readText path)) : Only kind (Shelf.readText path) :=
  ofStore (Script.only_perform h)

theorem writeText {text : String} (h : kind (.writeText path text)) :
    Only kind (Shelf.writeText path text) :=
  ofStore (Script.only_perform h)

theorem facts (h : kind (.facts path)) : Only kind (Shelf.facts path) :=
  ofStore (Script.only_perform h)

theorem paths (h : kind .list) : Only kind Shelf.paths :=
  ofStore (Script.only_perform h)

theorem load (h : kind (.readText path)) : Only kind (Shelf.load path) := by
  refine (readText h).bind fun text => ?_
  cases Json.parse text with
  | ok value => exact done (.ok value)
  | error e => exact done (.error (.parse path e))

theorem read (hfacts : kind (.facts path)) (hread : kind (.readText path)) :
    Only kind (Shelf.read path) :=
  (facts hfacts).bind fun _ => (load hread).bind fun _ => done _

theorem shape (h : kind (.readText path)) : Only kind (Shelf.shape path) :=
  (load h).bind fun _ => done _

theorem validate (h : kind (.readText path)) : Only kind (Shelf.validate path) :=
  (readText h).bind fun _ => done _

theorem health (h : kind (.readText path)) : Only kind (Shelf.health path) :=
  (readText h).bind fun _ => done _

theorem create {value : Option Json}
    (h : kind (.createText path (value.getD (.array [])).pretty)) :
    Only kind (Shelf.create path value) :=
  ofStore (Script.only_perform h)

theorem save {value : Json} (hcontains : kind (.contains path))
    (hwrite : kind (.writeText path value.pretty)) : Only kind (Shelf.save path value) := by
  have hask : Only kind (UseCase.ofStore (Script.perform (StoreCall.contains path))) :=
    ofStore (Script.only_perform hcontains)
  exact hask.bind fun _ => (writeText hwrite).bind fun _ => done _

theorem delete (h : kind (.remove path)) : Only kind (Shelf.delete path) :=
  ofStore (Script.only_perform h)

/-- A change of a collection reads the document and writes it, whatever the change. -/
theorem mutate (change : Json → Except RecordError Mutation) (hread : kind (.readText path))
    (hwrite : ∀ text, kind (.writeText path text)) : Only kind (Shelf.mutate path change) :=
  (load hread).bind fun root =>
    (ofRecords (change root)).bind fun _ => (writeText (hwrite _)).bind fun _ => done _

/-- A use case for each of some documents makes the calls of its parts. -/
theorem forEachReadable {useCase : DocPath → UseCase α} (h : ∀ path, Only kind (useCase path))
    (paths : List DocPath) : Only kind (Shelf.forEachReadable useCase paths) := by
  induction paths with
  | nil => exact done (.ok [])
  | cons path rest ih =>
      refine (h path).outcome.bind fun result => ?_
      cases result with
      | ok a => exact ih.bind fun _ => done _
      | error e => exact ih

theorem list (hlist : kind .list) (hfacts : ∀ path, kind (.facts path))
    (hread : ∀ path, kind (.readText path)) : Only kind Shelf.list := by
  refine (paths hlist).bind fun listed => ?_
  refine (forEachReadable (fun path => ?_) listed).bind fun _ => done _
  exact (facts (hfacts path)).bind fun _ => (readText (hread path)).bind fun _ => done _

theorem healthOfAll (hlist : kind .list) (hread : ∀ path, kind (.readText path)) :
    Only kind Shelf.healthOfAll :=
  (paths hlist).bind fun listed => forEachReadable (fun path => health (hread path)) listed

theorem schemaModule {generatedAt : Option Timestamp} (hlist : kind .list)
    (hread : ∀ path, kind (.readText path)) : Only kind (Shelf.schemaModule generatedAt) := by
  refine (paths hlist).bind fun listed => ?_
  have hsource : ∀ path, Only kind (Shelf.source path) :=
    fun path => (load (hread path)).bind fun _ => done _
  refine (mapM hsource listed).bind fun sources => ?_
  cases Zod.moduleOf (generatedAt.bind Timestamp.toRfc3339?) sources with
  | ok text => exact done (.ok _)
  | error clash => exact done (.error (.clash clash))

end Only

/-- Every call that the use case can make is about the document. -/
def StaysOn (path : DocPath) (useCase : UseCase α) : Prop :=
  Script.Only (fun c => c.path? = some path) useCase.run

namespace StaysOn

theorem read : StaysOn path (Shelf.read path) := Only.read rfl rfl

theorem shape : StaysOn path (Shelf.shape path) := Only.shape rfl

theorem validate : StaysOn path (Shelf.validate path) := Only.validate rfl

theorem health : StaysOn path (Shelf.health path) := Only.health rfl

theorem create (value : Option Json) : StaysOn path (Shelf.create path value) := Only.create rfl

theorem save (value : Json) : StaysOn path (Shelf.save path value) := Only.save rfl rfl

theorem delete : StaysOn path (Shelf.delete path) := Only.delete rfl

/-- A change of a collection stays on its document, whatever the change. -/
theorem mutate (change : Json → Except RecordError Mutation) :
    StaysOn path (Shelf.mutate path change) :=
  Only.mutate change rfl fun _ => rfl

theorem addRecord (record : Json) : StaysOn path (Shelf.addRecord path record) :=
  mutate _

theorem updateRecordById (id : Int64) (patch : Json) :
    StaysOn path (Shelf.updateRecordById path id patch) :=
  Only.bind (Only.ofRecords _) fun _ => mutate _

theorem updateRecordByIndex (index : Nat) (patch : Json) :
    StaysOn path (Shelf.updateRecordByIndex path index patch) :=
  Only.bind (Only.ofRecords _) fun _ => mutate _

theorem deleteRecord (id : Int64) : StaysOn path (Shelf.deleteRecord path id) :=
  mutate _

end StaysOn

end UseCase

end JsonShelf
