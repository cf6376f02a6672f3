/-
**What is read of stored texts.**

A stored text that parses is read as the value that it writes, with facts that tell of both.  A
value that was parsed from some text is written as a text that parses to this value, so saving a
document and reading it loses nothing, and saving what was read changes nothing.

Main definitions:

* `Metadata.Describes` — the facts tell of a text and the value that it writes.

Main results:

* `Json.parse_pretty_of_parse` — a value that was parsed is written as a text of this value;
* `MemoryStore.read_of_save` — **a document that is saved is read as it was, and saving what was
  read changes nothing**.
-/

import JsonShelf.Proofs.Json.RoundTrip
import JsonShelf.Proofs.Shelf.Attempts

set_option autoImplicit false

namespace JsonShelf

/-! ### Facts -/

/-- The facts tell of a text and the value that it writes. -/
structure Metadata.Describes (facts : Metadata) (text : String) (value : Json) : Prop where
  size : facts.size = text.utf8ByteSize
  isArray : facts.isArray = value.items?.isSome
  recordCount : facts.recordCount = (value.items?.map List.length).getD 1
  error : facts.error = none

theorem Metadata.describes_describing (text : String) (modified : Option Timestamp) (value : Json) :
    (describing text.utf8ByteSize modified (some value)).Describes text value := by
  cases value <;> exact ⟨rfl, rfl, rfl, rfl⟩

/-- A value that was parsed is written as a text of this value: it holds each key once, and it nests
no deeper than a text may. -/
theorem Json.parse_pretty_of_parse {source : String} {value : Json} (h : parse source = .ok value) :
    parse value.pretty = .ok value :=
  parse_pretty (canonical_of_parse h) (nesting_le_of_parse h)

namespace MemoryStore

variable {store : MemoryStore} {path : DocPath} {text source : String} {value : Json}

/-! ### Saving and reading -/

/-- **A document that is saved is read as it was, and saving what was read changes nothing.**  This
holds of every value that was parsed from some text. -/
theorem read_of_save (store : MemoryStore) (hparse : Json.parse source = .ok value)
    (hpath : checkPath path = .ok ()) :
    ∃ saved view, store.attempt (Shelf.save path value) = (.ok (store.get? path).isNone, saved) ∧
      saved.get? path = some value.pretty ∧
      saved.attempt (Shelf.read path) = (.ok view, saved) ∧
      view.data = value ∧ view.isArray = value.items?.isSome ∧
      view.metadata.Describes value.pretty value ∧
      saved.attempt (Shelf.save path view.data) = (.ok false, saved) := by
  have hget : (store.insert path value.pretty).get? path = some value.pretty := by
    rw [get?_insert, if_pos rfl]
  have hread := attempt_read (find_of_get? hpath hget) (Json.parse_pretty_of_parse hparse)
  have hagain : (store.insert path value.pretty).attempt (Shelf.save path value) =
      (.ok false, store.insert path value.pretty) := by
    rw [attempt_save hpath, hget, insert_insert]
    rfl
  exact ⟨_, _, attempt_save hpath store value, hget, hread, rfl, rfl,
    Metadata.describes_describing _ _ _, hagain⟩

/-- A text with keys that are not in order, numbers at both ends and an escape. -/
def sampleText : String := "\x7b\"b\":[18446744073709551615,-1.50,[]],\"a\":\"\\u0041\"\x7d"

/-- Its value is saved over another document, read and saved again. -/
theorem read_of_save_sampleText :
    ∃ value saved view, Json.parse sampleText = .ok value ∧
      (ofList [(⟨"a.json"⟩, "null")]).attempt (Shelf.save ⟨"a.json"⟩ value) = (.ok false, saved) ∧
      saved.attempt (Shelf.read ⟨"a.json"⟩) = (.ok view, saved) ∧ view.data = value ∧
      saved.attempt (Shelf.save ⟨"a.json"⟩ view.data) = (.ok false, saved) := by
  have hparse : (Json.parse sampleText).toBool = true := by decide +kernel
  obtain ⟨value, hvalue⟩ := toBool_eq_true.1 hparse
  have hpath : checkPath ⟨"a.json"⟩ = .ok () := rfl
  obtain ⟨saved, view, hsave, -, hread, hdata, -, -, hagain⟩ :=
    read_of_save (ofList [(⟨"a.json"⟩, "null")]) hvalue hpath
  exact ⟨value, saved, view, hvalue, hsave, hread, hdata, hagain⟩

end MemoryStore

end JsonShelf
