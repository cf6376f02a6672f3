/-
**What a generated module covers.**

A module that is generated covers every document it was made of: a line declares the schema of the
document, and the registry leads from the path of the document to this schema.  The names of the
schemas are all different, so no line takes the place of another.

Main definitions:

* `Zod.DeclaresSchema` — a line declares the schema of a document;
* `Zod.registryLines` — the lines of a registry, an entry each;
* `Zod.Covers` — a text declares the schemas of some documents and holds their registry.

Main results:

* `Zod.registry_zipWith` — the registry of some documents, written out;
* `Zod.exists_covers_of_moduleOf` — **a module that is generated covers all its documents**.
-/

import JsonShelf.Proofs.Computation
import JsonShelf.Proofs.Zod.Clashes
import JsonShelf.Zod.Module

set_option autoImplicit false

namespace JsonShelf.Zod

variable {sources : List Source} {source : Source} {names : List String} {name text : String}
  {generatedAt : Option String}

/-- A line declares the schema of a document under a name. -/
def DeclaresSchema (text : String) (source : Source) (name : String) : Prop :=
  ("\nexport const " ++ name ++ " = " ++ (ofShape source.shape [source.sample]).render ++
    ";\n").toList <:+: text.toList

/-- The lines between the braces of a registry: a path with the name of its schema each, and a comma
between two. -/
def registryLines : List (DocPath × String) → String
  | [] => ""
  | [(path, name)] => "  " ++ String.ofList (literal path.text) ++ ": " ++ name ++ "\n"
  | (path, name) :: rest =>
    "  " ++ String.ofList (literal path.text) ++ ": " ++ name ++ ",\n" ++ registryLines rest

/-- The text declares a schema for each document, all under different names, and holds a registry
with these documents and no others. -/
structure Covers (text : String) (sources : List Source) (names : List String) : Prop where
  nodup : names.Nodup
  schemas : List.Forall₂ (DeclaresSchema text) sources names
  registry : ("\nexport const JsonBoardFiles = \x7b\n" ++
    registryLines ((sources.map Source.path).zip names) ++
      "\x7d as const;\n").toList <:+: text.toList

/-! ### Schemas -/

/-- Each part of a text that is put together stands in it. -/
theorem infix_join {part : String} {parts : List String} (h : part ∈ parts) :
    part.toList <:+: (String.join parts).toList := by
  induction parts with
  | nil => cases h
  | cons first rest ih =>
      rw [String.join_cons, String.toList_append]
      rcases List.mem_cons.1 h with rfl | h
      · exact (List.prefix_append _ _).isInfix
      · exact (ih h).trans (List.suffix_append _ _).isInfix

/-- The declaration of a schema is a line after the one with the path. -/
theorem declaresSchema_schemaDeclaration (source : Source) (name : String) :
    DeclaresSchema (schemaDeclaration source name) source name := by
  refine ⟨("// Schema for: " ++ source.path.text).toList, ['\n'], ?_⟩
  simp [schemaDeclaration, Text.lined, String.join_cons, String.toList_append]

theorem declaresSchema_moduleText (h : (source, name) ∈ sources.zip names) :
    DeclaresSchema (moduleText generatedAt sources names) source name := by
  have hpart : schemaDeclaration source name ∈ List.zipWith schemaDeclaration sources names := by
    rw [← List.map_uncurry_zip_eq_zipWith]
    exact List.mem_map.2 ⟨(source, name), h, rfl⟩
  refine (declaresSchema_schemaDeclaration source name).trans ((infix_join hpart).trans ?_)
  refine ⟨(header generatedAt names ++ preamble).toList,
    (String.join (names.map validatorDeclaration) ++
      registry (List.zipWith registryEntry sources names) ++ lookupFunction ++
      typeDeclarations names).toList, ?_⟩
  simp only [moduleText, String.toList_append, List.append_assoc]

/-! ### The registry -/

/-- The entries of a registry, each made of a path and a name. -/
theorem zipWith_registryEntry (sources : List Source) (names : List String) :
    List.zipWith registryEntry sources names = ((sources.map Source.path).zip names).map
      fun entry => "  " ++ String.ofList (literal entry.1.text) ++ ": " ++ entry.2 := by
  rw [List.zip_map_left, List.map_map, ← List.map_uncurry_zip_eq_zipWith]
  rfl

/-- The entries with commas and line ends between them are the lines of the registry. -/
theorem lined_intercalate {entries : List (DocPath × String)} (hne : entries ≠ []) :
    Text.lined [",\n".intercalate (entries.map fun entry =>
      "  " ++ String.ofList (literal entry.1.text) ++ ": " ++ entry.2)] =
        registryLines entries := by
  induction entries with
  | nil => exact absurd rfl hne
  | cons first rest ih =>
      cases rest with
      | nil => simp [Text.lined, registryLines]
      | cons next rest =>
          rw [registryLines, ← ih (List.cons_ne_nil next rest)]
          · simp [Text.lined, String.append_assoc]
          · exact List.cons_ne_nil next rest

/-- The registry of some documents, written out. -/
theorem registry_zipWith (sources : List Source) (names : List String) :
    registry (List.zipWith registryEntry sources names) =
      "// File Index - for easy reference" ++ ("\nexport const JsonBoardFiles = \x7b\n" ++
        registryLines ((sources.map Source.path).zip names) ++ "\x7d as const;\n") ++ "\n" := by
  rw [registry, zipWith_registryEntry]
  generalize (sources.map Source.path).zip names = entries
  cases entries with
  | nil => rfl
  | cons first rest =>
      rw [lined_intercalate (List.cons_ne_nil first rest), List.map_cons, List.isEmpty_cons]
      refine String.toList_injective ?_
      simp [Text.lined, String.join_cons, String.toList_append]

/-! ### Modules -/

/-- **A module that is generated covers all its documents.** -/
theorem exists_covers_of_moduleOf (h : moduleOf generatedAt sources = .ok text) :
    ∃ names, Covers text sources names := by
  obtain ⟨names, hnames, h⟩ := bind_eq_ok.1 h
  cases h
  have hlength : sources.length = names.length := by
    rw [(assignNames_eq_ok.1 hnames).1, List.length_map, List.length_map]
  refine ⟨names, ?_, ?_, ?_⟩
  · refine (List.nodup_flatMap.1 (nodup_flatMap_declared hnames)).2.imp ?_
    rintro p q hdisjoint rfl
    exact hdisjoint List.mem_cons_self List.mem_cons_self
  · exact List.forall₂_iff_zip.2 ⟨hlength, fun hmem => declaresSchema_moduleText hmem⟩
  · refine ⟨(header generatedAt names ++ preamble ++
      String.join (List.zipWith schemaDeclaration sources names) ++
      String.join (names.map validatorDeclaration) ++ "// File Index - for easy reference").toList,
      ("\n" ++ lookupFunction ++ typeDeclarations names).toList, ?_⟩
    simp only [moduleText, registry_zipWith, String.toList_append, List.append_assoc]

end JsonShelf.Zod
