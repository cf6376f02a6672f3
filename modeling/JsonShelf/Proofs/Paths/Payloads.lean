/-
**Paths in payloads.**

A path obeys three rules: it is not empty, it has forward slashes only, and it does not begin with
`./`.  A path that is made from a text obeys them.  A payload can hold any string in the place of a
path, and the string is taken as it stands, so the path that is read obeys the rules just if the
string did.

Main definitions:

* `DocPath.IsCanonical` — the rules of paths;
* `DocPath.WritesPath` — a text writes a record with a string as its path.

Main results:

* `DocPath.isCanonical_iff` — a path obeys the rules just if it is the path that its own text names;
* `DocPath.read_isCanonical_iff` — **a path that is read from a payload obeys the rules exactly when
  it is the path that the written string names**, and any string may be written there.
-/

import JsonShelf.Listing
import JsonShelf.Proofs.Computation
import JsonShelf.Proofs.Json.Payload
import JsonShelf.Proofs.Json.RoundTrip
import JsonShelf.Proofs.Paths.Arguments

set_option autoImplicit false

namespace JsonShelf.DocPath

variable {path : DocPath} {s text : String} {document : Json}

/-! ### The rules of paths -/

/-- The rules of paths: not empty, with forward slashes only and without `./` at the start. -/
structure IsCanonical (path : DocPath) : Prop where
  ne_empty : path.text ≠ ""
  backslash_notMem : '\\' ∉ path.text.toList
  dots_not_start : ¬['.', '/'] <+: path.text.toList

/-- A path that is made from a text obeys the rules. -/
theorem isCanonical_ofString (s : String) : (ofString s).IsCanonical where
  ne_empty := ofString_text_ne_empty s
  backslash_notMem := backslash_notMem_ofString s
  dots_not_start := by
    rcases ofString_eq_or s with ⟨hdot, -⟩ | htext
    · rw [hdot]
      decide
    · rw [htext]
      exact not_begins_iff.2 (dropDots_ne _)

/-- A path obeys the rules just if it is the path that its own text names. -/
theorem isCanonical_iff : path.IsCanonical ↔ path = ofString path.text := by
  constructor
  · intro h
    exact (ofString_eq_self h.ne_empty h.backslash_notMem (not_begins_iff.1 h.dots_not_start)).symm
  · intro h
    rw [h]
    exact isCanonical_ofString path.text

/-! ### Payloads with a path -/

/-- The text writes a record with the string as its path: in an object under its name, in an array
at the second place. -/
def WritesPath (text s : String) : Prop :=
  ∃ document, Json.parseRaw text = .ok document ∧
    document.fieldAt? 1 "relativePath" = some (.string s)

theorem eq_string_of_text? {value : Json} (h : value.text? = some s) : value = .string s := by
  cases value with
  | string other => rw [Option.some.inj h]
  | null | bool | number | array | object => cases h

theorem eq_string_of_ofJson? {value : Json} (h : ofJson? value = some path) :
    value = .string path.text := by
  obtain ⟨s, hs, rfl⟩ := Option.map_eq_some_iff.1 h
  exact eq_string_of_text? hs

/-- The path of a summary is the string that stands in the document. -/
theorem fieldAt?_of_summary {summary : Summary} (h : Summary.ofJson? document = some summary) :
    document.fieldAt? 1 "relativePath" = some (.string summary.path.text) := by
  unfold Summary.ofJson? at h
  obtain ⟨fields, hfields, h⟩ := Option.bind_eq_some_iff.1 h
  split at h
  · next fileName path metadata =>
    obtain ⟨name, -, h⟩ := Option.bind_eq_some_iff.1 h
    obtain ⟨s, hs, h⟩ := Option.bind_eq_some_iff.1 h
    obtain ⟨facts, -, h⟩ := Option.bind_eq_some_iff.1 h
    cases h
    obtain ⟨value, rfl, hvalue⟩ := Option.bind_eq_some_iff.1 hs
    rw [eq_string_of_text? hvalue] at hfields
    exact Json.fieldAt?_of_fields? hfields rfl rfl
  · cases h

/-- The path of a view is the string that stands in the document. -/
theorem fieldAt?_of_view {view : View} {told : Bool}
    (h : View.ofJson? document = some (view, told)) :
    document.fieldAt? 1 "relativePath" = some (.string view.path.text) := by
  unfold View.ofJson? at h
  obtain ⟨fields, hfields, h⟩ := Option.bind_eq_some_iff.1 h
  split at h
  · next fileName path data isArray metadata =>
    obtain ⟨name, -, h⟩ := Option.bind_eq_some_iff.1 h
    obtain ⟨read, hread, h⟩ := Option.bind_eq_some_iff.1 h
    obtain ⟨content, -, h⟩ := Option.bind_eq_some_iff.1 h
    obtain ⟨facts, -, h⟩ := Option.bind_eq_some_iff.1 h
    obtain ⟨flag, -, h⟩ := Option.bind_eq_some_iff.1 h
    cases h
    obtain ⟨value, rfl, hvalue⟩ := Option.bind_eq_some_iff.1 hread
    rw [eq_string_of_ofJson? hvalue] at hfields
    exact Json.fieldAt?_of_fields? hfields rfl rfl
  · cases h

/-- A text that is read as a summary writes its path. -/
theorem writesPath_of_summary {summary : Summary} (h : Summary.parse? text = some summary) :
    WritesPath text summary.path.text := by
  obtain ⟨document, hdocument, hread⟩ := Option.bind_eq_some_iff.1 h
  exact ⟨document, toOption_eq_some.1 hdocument, fieldAt?_of_summary hread⟩

/-- A text that is read as a view writes its path. -/
theorem writesPath_of_view {view : View} {told : Bool} (h : View.parse? text = some (view, told)) :
    WritesPath text view.path.text := by
  obtain ⟨document, hdocument, hread⟩ := Option.bind_eq_some_iff.1 h
  exact ⟨document, toOption_eq_some.1 hdocument, fieldAt?_of_view hread⟩

/-! ### Any string may stand there -/

/-- Facts about an empty list. -/
def emptyList : Metadata := ⟨2, 0, none, true, none⟩

/-- The document of these facts. -/
def emptyListDocument : Json :=
  .object [("size", Json.ofInt 2), ("recordCount", Json.ofInt 0), ("lastModified", .null),
    ("isArray", .bool true)]

theorem ofJson?_emptyListDocument : Metadata.ofJson? emptyListDocument = some emptyList := by
  decide +kernel

theorem nesting_emptyListDocument : emptyListDocument.nesting = 1 := by
  decide +kernel

/-- The document of a summary with the string as its path. -/
def summaryDocument (s : String) : Json :=
  .object [("filename", .string "a.json"), ("relativePath", .string s),
    ("metadata", emptyListDocument)]

/-- The document of a view with the string as its path. -/
def viewDocument (s : String) : Json :=
  .object [("filename", .string "a.json"), ("relativePath", .string s), ("data", .array []),
    ("isArray", .bool true), ("metadata", emptyListDocument)]

theorem parse?_summaryDocument (s : String) :
    Summary.parse? (summaryDocument s).pretty = some ⟨"a.json", ⟨s⟩, emptyList⟩ := by
  have hread : Summary.ofJson? (summaryDocument s) = some ⟨"a.json", ⟨s⟩, emptyList⟩ := by
    rw [Summary.ofJson?, summaryDocument, Json.fields?_object (by simp)]
    simp [Members.get?_cons, Json.required?, Json.text?, ofJson?_emptyListDocument]
  have hnesting : (summaryDocument s).nesting ≤ Json.nestingLimit := by
    simp [summaryDocument, Json.nesting, Json.nestingMembers, nesting_emptyListDocument,
      Json.nestingLimit]
  rw [Summary.parse?, Json.parseRaw_pretty hnesting]
  exact hread

theorem parse?_viewDocument (s : String) :
    View.parse? (viewDocument s).pretty =
      some (⟨"a.json", ⟨s⟩, .array [], emptyList⟩, true) := by
  have hread : View.ofJson? (viewDocument s) =
      some (⟨"a.json", ⟨s⟩, .array [], emptyList⟩, true) := by
    rw [View.ofJson?, viewDocument, Json.fields?_object (by simp)]
    simp [Members.get?_cons, Json.required?, Json.text?, ofJson?, Json.boolean?,
      ofJson?_emptyListDocument, Json.canonical, Json.canonicalItems]
  have hnesting : (viewDocument s).nesting ≤ Json.nestingLimit := by
    simp [viewDocument, Json.nesting, Json.nestingMembers, Json.nestingItems,
      nesting_emptyListDocument, Json.nestingLimit]
  rw [View.parse?, Json.parseRaw_pretty hnesting]
  exact hread

/-! ### Paths that are read -/

/-- **A path that is read from a payload obeys the rules exactly when it is the path that the
written string names.**  The string is taken as it stands, on its own and as the path of a summary
or of a view, and any string may be written there. -/
theorem read_isCanonical_iff (s text : String) :
    (ofJson? (.string s) = some ⟨s⟩ ∧ (IsCanonical ⟨s⟩ ↔ ⟨s⟩ = ofString s)) ∧
    (∀ summary, Summary.parse? text = some summary →
      ∃ written, WritesPath text written ∧ summary.path = ⟨written⟩ ∧
        (summary.path.IsCanonical ↔ summary.path = ofString written)) ∧
    (∀ view told, View.parse? text = some (view, told) →
      ∃ written, WritesPath text written ∧ view.path = ⟨written⟩ ∧
        (view.path.IsCanonical ↔ view.path = ofString written)) ∧
    (∃ text summary, Summary.parse? text = some summary ∧ summary.path = ⟨s⟩) ∧
    ∃ text view told, View.parse? text = some (view, told) ∧ view.path = ⟨s⟩ := by
  refine ⟨⟨rfl, isCanonical_iff⟩, ?_, ?_, ?_, ?_⟩
  · intro summary h
    exact ⟨summary.path.text, writesPath_of_summary h, rfl, isCanonical_iff⟩
  · intro view told h
    exact ⟨view.path.text, writesPath_of_view h, rfl, isCanonical_iff⟩
  · exact ⟨_, _, parse?_summaryDocument s, rfl⟩
  · exact ⟨_, _, _, parse?_viewDocument s, rfl⟩

/-- A summary of an empty list whose path is written with a dot and a backslash. -/
def dottedSummary : String :=
  "\x7b\"filename\":\"users.json\",\"relativePath\":\"./shop\\\\users.json\",\"metadata\":" ++
    "\x7b\"size\":2,\"recordCount\":0,\"isArray\":true\x7d\x7d"

theorem parse?_dottedSummary :
    Summary.parse? dottedSummary = some ⟨"users.json", ⟨"./shop\\users.json"⟩, emptyList⟩ := by
  decide +kernel

/-- Its path obeys the rules just if it is the path that the written string names. -/
theorem read_isCanonical_iff_dotted :
    ∃ summary s, Summary.parse? dottedSummary = some summary ∧ WritesPath dottedSummary s ∧
      summary.path = ⟨s⟩ ∧ (summary.path.IsCanonical ↔ summary.path = ofString s) := by
  obtain ⟨-, hsummary, -⟩ := read_isCanonical_iff "./shop\\users.json" dottedSummary
  obtain ⟨s, hs, hpath, hiff⟩ := hsummary _ parse?_dottedSummary
  exact ⟨_, s, parse?_dottedSummary, hs, hpath, hiff⟩

/-- It does not obey them: the path that the string names is another one. -/
theorem not_isCanonical_dotted :
    ∃ summary, Summary.parse? dottedSummary = some summary ∧ ¬summary.path.IsCanonical ∧
      ofString summary.path.text = ⟨"shop/users.json"⟩ ∧ summary.path ≠ ⟨"shop/users.json"⟩ :=
  ⟨_, parse?_dottedSummary, fun h => h.backslash_notMem (by decide), by decide, by decide⟩

end JsonShelf.DocPath
