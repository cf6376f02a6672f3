/-
**Whatever is listed can be used.**

A listing shows the paths that the standard policy lets through, of texts that parse.  Such a path
is one that every call takes, and such a text is one that every use case reads, so the use cases for
all documents leave none of them out, and only the generation of a module can fail: if fingerprints
of paths are the same.

Main definitions:

* `HealthReport.BlamesSyntax` — the report says that a text does not parse;
* `MemoryStore.Holds` — a text and the value that it writes are stored under a path;
* `MemoryStore.SummaryOf`, `MemoryStore.ReportOf`, `MemoryStore.SourceOf` — what is told of a path.

Main results:

* `HealthReport.blamesSyntax_ofText` — the syntax is blamed if the text does not parse, and only
  then;
* `MemoryStore.isDocument_of_allowsFile`, `MemoryStore.exists_holds` — what is listed can be read;
* `MemoryStore.attempt_schemaModule` — when a module can be generated;
* `MemoryStore.usable_of_listed` — **in every store, all that is listed is summarized, checked and
  covered by the generated module, unless two fingerprints are the same**.
-/

import JsonShelf.Proofs.Shelf.Stored
import JsonShelf.Proofs.Validation.Reasons
import JsonShelf.Proofs.Zod.Coverage

set_option autoImplicit false

namespace JsonShelf

/-! ### Reports that blame the syntax -/

namespace HealthReport

/-- The report says that the text does not parse. -/
def BlamesSyntax (report : HealthReport) : Prop :=
  "Fix the JSON syntax before editing this file" ∈ report.suggestions

/-- The report on a value has other reasons to complain. -/
theorem not_blamesSyntax_ofValue (value : Json) : ¬(ofValue value).BlamesSyntax := by
  rw [BlamesSyntax, suggestions_ofValue]
  split_ifs <;> decide

/-- The syntax is blamed if the text does not parse, and only then. -/
theorem blamesSyntax_ofText (text : String) :
    (ofText text).BlamesSyntax ↔ (Json.parse text).toBool = false := by
  rw [ofText]
  cases Json.parse text with
  | ok value => exact iff_of_false (not_blamesSyntax_ofValue value) Bool.false_ne_true.symm
  | error e => exact iff_of_true List.mem_cons_self rfl

end HealthReport

namespace MemoryStore

variable {store : MemoryStore} {path : DocPath} {text : String} {value : Json}
  {listed : List DocPath} {filter : ScanFilter}

/-! ### Use cases on a text of a value -/

/-- A text that the calls can reach is stored under a path, and this is the value that it writes. -/
structure Holds (store : MemoryStore) (path : DocPath) (text : String) (value : Json) : Prop where
  accepted : checkPath path = .ok ()
  stored : store.get? path = some text
  parse : Json.parse text = .ok value

/-- The summary of a document. -/
structure SummaryOf (store : MemoryStore) (path : DocPath) (summary : Summary) : Prop where
  path_eq : summary.path = path
  fileName_eq : summary.fileName = path.fileName
  describes : ∃ text value, store.Holds path text value ∧ summary.metadata.Describes text value

/-- The report on a document. -/
structure ReportOf (store : MemoryStore) (path : DocPath) (report : HealthReport) : Prop where
  of_value : ∃ text value, store.Holds path text value ∧ report = .ofValue value
  not_blamesSyntax : ¬report.BlamesSyntax

/-- What a module declares of a document. -/
structure SourceOf (store : MemoryStore) (path : DocPath) (source : Zod.Source) : Prop where
  path_eq : source.path = path
  of_value : ∃ text value, store.Holds path text value ∧ source.sample = value ∧
    source.shape = .infer value

namespace Holds

variable (h : store.Holds path text value)

include h

theorem find : store.find path = .ok text :=
  find_of_get? h.accepted h.stored

theorem attempt_readText : store.attempt (Shelf.readText path) = (.ok text, store) := by
  rw [MemoryStore.attempt_readText, h.find]
  rfl

theorem exists_summarize :
    ∃ summary, store.attempt (Shelf.summarize path) = (.ok summary, store) ∧
      store.SummaryOf path summary := by
  refine ⟨_, (attempt_bind_of_ok (attempt_facts_of_find h.find) _).trans
    (attempt_bind_of_ok h.attempt_readText _), rfl, rfl, text, value, h, ?_⟩
  rw [h.parse]
  exact Metadata.describes_describing text none value

theorem exists_health :
    ∃ report, store.attempt (Shelf.health path) = (.ok report, store) ∧
      store.ReportOf path report := by
  have hreport : HealthReport.ofText text = .ofValue value := by
    rw [HealthReport.ofText, h.parse]
  refine ⟨_, attempt_bind_of_ok h.attempt_readText _, ⟨text, value, h, hreport⟩, ?_⟩
  rw [HealthReport.blamesSyntax_ofText, h.parse]
  exact Bool.false_ne_true.symm

theorem exists_source :
    ∃ source, store.attempt (Shelf.source path) = (.ok source, store) ∧
      store.SourceOf path source := by
  have hload := attempt_load_of_find h.find h.parse
  exact ⟨_, attempt_bind_of_ok hload _, rfl, text, value, h, rfl, rfl⟩

end Holds

/-! ### What is listed -/

/-- A path that the filter lets through is one that the calls take. -/
theorem isDocument_of_allowsFile (h : filter.allowsFile path = true) : path.isDocument = true := by
  simp only [ScanFilter.allowsFile, Bool.and_eq_true] at h
  obtain ⟨⟨⟨⟨⟨⟨hextension, hinside⟩, -⟩, -⟩, -⟩, -⟩, -⟩ := h
  -- the data directory itself has no extension
  have hdot : path.text ≠ "." := by
    intro hdot
    rw [DocPath.hasJsonExtension, hdot] at hextension
    exact absurd hextension (by decide)
  simp [DocPath.isDocument, hdot, hinside, hextension]

theorem exists_ofPolicy_standard : ∃ filter, ScanFilter.ofPolicy .standard = .ok filter := by
  have hpolicy : (ScanFilter.ofPolicy .standard).toBool = true := by cbv
  exact toBool_eq_true.1 hpolicy

/-- A listing always succeeds, and what is listed holds a text of a value. -/
theorem exists_holds (h : store.Ordered) :
    ∃ listed, store.list = .ok listed ∧ listed.Nodup ∧
      ∀ path ∈ listed, ∃ text value, store.Holds path text value := by
  obtain ⟨filter, hfilter⟩ := exists_ofPolicy_standard
  obtain ⟨listed, hlist, hordered, hmem⟩ := exists_list h hfilter
  refine ⟨listed, hlist, hordered.nodup, fun path hpath => ?_⟩
  obtain ⟨text, hget, hallowed, hparses⟩ := (hmem path).1 hpath
  obtain ⟨value, hvalue⟩ := toBool_eq_true.1 hparses
  have haccepted := checkPath_eq_ok.2 (isDocument_of_allowsFile hallowed)
  exact ⟨text, value, haccepted, hget, hvalue⟩

/-! ### Generated modules -/

theorem map_path_sources {sources : List Zod.Source}
    (h : List.Forall₂ store.SourceOf listed sources) : sources.map Zod.Source.path = listed := by
  induction h with
  | nil => rfl
  | cons hfirst _ ih => rw [List.map_cons, hfirst.path_eq, ih]

/-- If no module can be made for different paths, two of their fingerprints are the same. -/
theorem exists_sameFingerprint {generatedAt : Option String} {sources : List Zod.Source}
    {clash : Zod.NameClash} (hnodup : (sources.map Zod.Source.path).Nodup)
    (h : Zod.moduleOf generatedAt sources = .error clash) :
    ∃ p ∈ sources.map Zod.Source.path, ∃ q ∈ sources.map Zod.Source.path,
      p ≠ q ∧ Zod.fingerprint p.text = Zod.fingerprint q.text := by
  by_contra hdifferent
  have hfingerprints :
      ((sources.map Zod.Source.path).map fun path => Zod.fingerprint path.text).Nodup := by
    refine (List.nodup_map_iff_inj_on hnodup).2 fun p hp q hq hsame => ?_
    by_contra hne
    exact hdifferent ⟨p, hp, q, hq, hne, hsame⟩
  obtain ⟨names, hnames⟩ := Zod.exists_assignNames_eq_ok
    (fun path _ => Zod.isMark_fingerprint path.text) hfingerprints
  rw [Zod.moduleOf, hnames] at h
  cases h

/-- A module covers all documents, or two fingerprints are the same. -/
theorem attempt_schemaModule (hlist : store.list = .ok listed) (hnodup : listed.Nodup)
    (hholds : ∀ path ∈ listed, ∃ text value, store.Holds path text value)
    (generatedAt : Option Timestamp) :
    (∃ text sources names,
      store.attempt (Shelf.schemaModule generatedAt) = (.ok ⟨text, listed⟩, store) ∧
        List.Forall₂ store.SourceOf listed sources ∧
        Zod.moduleOf (generatedAt.bind Timestamp.toRfc3339?) sources = .ok text ∧
        Zod.Covers text sources names) ∨
    ∃ clash, store.attempt (Shelf.schemaModule generatedAt) = (.error (.clash clash), store) ∧
      ∃ p ∈ listed, ∃ q ∈ listed, p ≠ q ∧ Zod.fingerprint p.text = Zod.fingerprint q.text := by
  obtain ⟨sources, hsources, hall⟩ := attempt_mapM fun path hpath => by
    obtain ⟨text, value, h⟩ := hholds path hpath
    exact h.exists_source
  have hpaths := attempt_paths hlist
  rw [Shelf.schemaModule, attempt_bind_of_ok hpaths, attempt_bind_of_ok hsources]
  cases hmodule : Zod.moduleOf (generatedAt.bind Timestamp.toRfc3339?) sources with
  | ok text =>
      obtain ⟨names, hcovers⟩ := Zod.exists_covers_of_moduleOf hmodule
      exact .inl ⟨text, sources, names, rfl, hall, hmodule, hcovers⟩
  | error clash =>
      have hmap := map_path_sources hall
      have hsame := exists_sameFingerprint (hmap.symm ▸ hnodup) hmodule
      rw [hmap] at hsame
      exact .inr ⟨clash, rfl, hsame⟩

/-! ### All documents -/

/-- **In every store, whatever is listed can be used.**  Listing succeeds and gives one summary for
each path that is listed, in order; so does the check of all documents, which blames no syntax; and
a module is generated that declares a schema and holds an entry for each of them, unless two of them
have the same fingerprint. -/
theorem usable_of_listed (h : store.Ordered) :
    ∃ listed, store.list = .ok listed ∧
      (∃ summaries, store.attempt Shelf.list = (.ok summaries, store) ∧
        List.Forall₂ store.SummaryOf listed summaries) ∧
      (∃ reports, store.attempt Shelf.healthOfAll = (.ok reports, store) ∧
        List.Forall₂ (fun path entry => entry.1 = path ∧ store.ReportOf path entry.2) listed
          reports) ∧
      ∀ generatedAt,
        (∃ text sources names,
          store.attempt (Shelf.schemaModule generatedAt) = (.ok ⟨text, listed⟩, store) ∧
            List.Forall₂ store.SourceOf listed sources ∧
            Zod.moduleOf (generatedAt.bind Timestamp.toRfc3339?) sources = .ok text ∧
            Zod.Covers text sources names) ∨
        ∃ clash, store.attempt (Shelf.schemaModule generatedAt) = (.error (.clash clash), store) ∧
          ∃ p ∈ listed, ∃ q ∈ listed, p ≠ q ∧ Zod.fingerprint p.text = Zod.fingerprint q.text := by
  obtain ⟨listed, hlist, hnodup, hholds⟩ := exists_holds h
  have hpaths := attempt_paths hlist
  refine ⟨listed, hlist, ?_, ?_, attempt_schemaModule hlist hnodup hholds⟩
  · obtain ⟨summaries, hsummaries, hall⟩ := attempt_forEachReadable fun path hpath => by
      obtain ⟨text, value, hholds⟩ := hholds path hpath
      exact hholds.exists_summarize
    refine ⟨summaries.map Prod.snd, ?_, ?_⟩
    · rw [Shelf.list, attempt_bind_of_ok hpaths, attempt_bind_of_ok hsummaries, attempt_pure]
    · exact List.forall₂_map_right_iff.2 (hall.imp fun path entry hentry => hentry.2)
  · obtain ⟨reports, hreports, hall⟩ := attempt_forEachReadable fun path hpath => by
      obtain ⟨text, value, hholds⟩ := hholds path hpath
      exact hholds.exists_health
    exact ⟨reports, (attempt_bind_of_ok hpaths _).trans hreports, hall⟩

/-- Two documents, and texts that are not listed: one does not parse, one is tool configuration, and
the paths of the others are refused. -/
def unevenShelf : MemoryStore :=
  .ofList [(⟨"users.json"⟩, "[]"), (⟨"shop/items.json"⟩, "\x7b\x7d"), (⟨"broken.json"⟩, "["),
    (⟨"package.json"⟩, "\x7b\x7d"), (⟨"../outside.json"⟩, "1"), (⟨"."⟩, "2")]

/-- The two documents have different fingerprints, so a module covers them: its registry has an
entry for each, with names that are different. -/
theorem usable_of_listed_unevenShelf :
    unevenShelf.Ordered ∧
      (∃ summaries, unevenShelf.attempt Shelf.list = (.ok summaries, unevenShelf) ∧
        List.Forall₂ unevenShelf.SummaryOf [⟨"shop/items.json"⟩, ⟨"users.json"⟩] summaries) ∧
      ∃ text items users, unevenShelf.attempt (Shelf.schemaModule none) =
          (.ok ⟨text, [⟨"shop/items.json"⟩, ⟨"users.json"⟩]⟩, unevenShelf) ∧
        items ≠ users ∧
        ("\nexport const JsonBoardFiles = \x7b\n" ++
          ("  'shop/items.json': " ++ items ++ ",\n" ++ ("  'users.json': " ++ users ++ "\n")) ++
          "\x7d as const;\n").toList <:+: text.toList := by
  have hordered : unevenShelf.Ordered := ordered_ofList _
  have hlist : unevenShelf.list = .ok [⟨"shop/items.json"⟩, ⟨"users.json"⟩] := by decide +kernel
  have hfingerprints : Zod.fingerprint "shop/items.json" ≠ Zod.fingerprint "users.json" := by
    decide +kernel
  obtain ⟨listed, hlisted, hsummaries, -, hmodule⟩ := usable_of_listed hordered
  obtain rfl := Except.ok.inj (hlist.symm.trans hlisted)
  refine ⟨hordered, hsummaries, ?_⟩
  rcases hmodule none with ⟨text, sources, names, hdone, hsources, -, hcovers⟩ |
    ⟨clash, -, p, hp, q, hq, hne, hsame⟩
  · have hregistry := hcovers.registry
    rw [map_path_sources hsources] at hregistry
    have hnames : names.length = 2 :=
      hcovers.schemas.length_eq.symm.trans hsources.length_eq.symm
    obtain ⟨items, users, rfl⟩ := List.length_eq_two.1 hnames
    exact ⟨text, items, users, hdone, by simpa using hcovers.nodup, hregistry⟩
  · simp only [List.mem_cons, List.not_mem_nil, or_false] at hp hq
    rcases hp with rfl | rfl <;> rcases hq with rfl | rfl
    · exact absurd rfl hne
    · exact absurd hsame hfingerprints
    · exact absurd hsame.symm hfingerprints
    · exact absurd rfl hne

end MemoryStore

end JsonShelf
