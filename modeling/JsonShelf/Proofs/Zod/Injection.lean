/-
**What a generated module declares.**

User data stand in comments, in literals and in keys.  Literals and keys hold no line break, and the
lines of an expression are indented, so none of them begins a declaration.  A comment holds the path
of a document as it is: what follows a line feed in a path is read as lines of the module.

Main definitions:

* `Zod.injected` — what the lines of a path after its first one declare;
* `Zod.intended` — the identifiers that a module is meant to declare.

Main results:

* `Zod.declarations_moduleText` — **what the text of a module declares**, injected lines included;
* `Zod.nodup_intended` — no identifier is meant to be declared twice;
* `Zod.declarations_iff_not_injected` — **a module declares what it is meant to, each identifier
  once, exactly when no line of a path is read as a declaration**.
-/

import JsonShelf.Proofs.Computation
import JsonShelf.Proofs.Zod.Clashes
import JsonShelf.Proofs.Zod.Declarations
import JsonShelf.Proofs.Zod.Indentation
import JsonShelf.Zod.Module
import Mathlib.Data.List.Perm.Basic

set_option autoImplicit false

namespace JsonShelf.Zod

open Text (Complete Indented lined)

variable {name : String} {names : List String} {generatedAt : Option String}

/-! ### The parts of a module -/

/-- What the lines of a path after its first one declare. -/
def injected (path : DocPath) : List String :=
  continued path.text.toList

/-- A path of one line injects nothing. -/
theorem injected_of_notMem {path : DocPath} (h : '\n' ∉ path.text.toList) : injected path = [] :=
  continued_of_notMem h

/-- The comment at the top declares nothing. -/
theorem declarations_header (hat : ∀ time ∈ generatedAt, '\n' ∉ time.toList)
    (hnames : ∀ name ∈ names, IsName name.toList) :
    declarations (header generatedAt names) = [] := by
  refine declarations_of_silent ?_
  simp only [List.forall_mem_append, and_assoc]
  refine ⟨silent_lines [_, _] (by decide), ?_, silent_lines [_, _] (by decide), ?_,
    silent_lines [_, _] (by decide)⟩
  · cases generatedAt with
    | none => exact nofun
    | some time =>
        simp only [Option.map_some, Option.toList_some, List.forall_mem_singleton]
        exact silent_ofList_append (by decide) (hat time rfl)
  · cases names with
    | nil => exact nofun
    | cons first rest =>
        have hfirst := (hnames first List.mem_cons_self).newline_notMem
        simp only [List.forall_mem_cons]
        exact ⟨silent_ofList (by decide), silent_ofList (by decide),
          silent_around (by decide) hfirst (by decide), silent_ofList (by decide),
          silent_ofList (by decide), silent_around (by decide) hfirst (by decide),
          silent_ofList (by decide), silent_ofList (by decide), silent_ofList (by decide), nofun⟩

theorem declarations_preamble : declarations preamble = ["ValidationResult"] := by
  refine (declarations_between ["import \x7b z \x7d from 'zod';", "",
    "// Type definitions for better TypeScript support"] _ ?_ ?_).trans ?_
  · exact silent_lines [_, _, _] (by decide)
  · exact silent_lines [_, _, _, _, _, _, _, _, _, _] (by decide)
  · rw [String.toList_ofList]
    rfl

theorem silent_resultLines : ∀ line ∈ resultLines, Silent line.toList :=
  silent_lines [_, _, _, _, _, _, _, _, _, _, _] (by decide)

/-- A schema is declared after whatever the lines of the path declare. -/
theorem declarations_schemaDeclaration (source : Source) (h : IsName name.toList) :
    declarations (schemaDeclaration source name) = injected source.path ++ [name] := by
  have hcomment : declarationsIn ("// Schema for: " ++ source.path.text).toList =
      injected source.path := by
    rw [String.toList_append, String.toList_ofList]
    exact declarationsIn_of_head (by decide) (by decide) _
  have hconst : declarationsIn ("export const " ++ name ++ " = " ++
      (ofShape source.shape [source.sample]).render ++ ";").toList = [name] := by
    have hindented : Indented (['=', ' '] ++
        ((ofShape source.shape [source.sample]).render ++ ";").toList) := by
      rw [render, String.toList_append, String.toList_ofList, String.toList_ofList]
      exact (Text.indented_of_notMem (by decide)).append
        ((indented_chars 0 _).append (Text.indented_of_notMem (by decide)))
    rw [String.append_assoc]
    exact declarationsIn_declaring List.mem_cons_self h rfl (by decide)
      (continued_of_indented hindented)
  have hblank : Silent "".toList := silent_ofList (by decide)
  rw [schemaDeclaration, declarations_lined, List.flatMap_cons, List.flatMap_cons,
    List.flatMap_singleton, hcomment, hconst, declarationsIn_of_silent hblank, List.append_nil]

/-- A validating function is declared. -/
theorem declarations_validatorDeclaration (h : IsName name.toList) :
    declarations (validatorDeclaration name) = [validatorName name] := by
  have hvalidator : IsName (validatorName name).toList :=
    h.of_mem_declared (mem_declared.2 (.inr (.inl rfl)))
  refine (declarations_between [] (["  const result = " ++ name ++ ".safeParse(data);"] ++
    resultLines ++ [""]) nofun ?_).trans ?_
  · simp only [List.forall_mem_append, List.forall_mem_singleton]
    exact ⟨⟨silent_around (by decide) h.newline_notMem (by decide), silent_resultLines⟩,
      silent_ofList (by decide)⟩
  · exact declarationsIn_oneLine (List.mem_cons_of_mem _ List.mem_cons_self) hvalidator rfl
      (by decide) h.newline_notMem (by decide)

/-- The entries of a registry are on lines of their own, behind blanks. -/
theorem indented_entries {entries : List String} (hne : entries ≠ [])
    (h : ∀ entry ∈ entries, ∃ rest, entry.toList = ' ' :: rest ∧ '\n' ∉ rest) :
    Indented ('\n' :: (",\n".intercalate entries).toList) := by
  have hentry : ∀ entry ∈ entries, Indented ('\n' :: entry.toList) := by
    intro entry hmem
    obtain ⟨rest, hrest, hnewline⟩ := h entry hmem
    rw [hrest]
    exact Indented.newline (.inl rfl) (Text.indented_of_notMem (by simpa using hnewline))
  clear h
  induction entries with
  | nil => exact absurd rfl hne
  | cons entry rest ih =>
      obtain ⟨hfirst, hrest⟩ := List.forall_mem_cons.1 hentry
      cases rest with
      | nil => rwa [String.intercalate_singleton]
      | cons next rest =>
          have hnext := ih (List.cons_ne_nil next rest) hrest
          have hseparator : ",\n".toList = [',', '\n'] := String.toList_ofList
          rw [String.intercalate_cons_cons, String.toList_append, String.toList_append, hseparator,
            List.append_assoc]
          exact hfirst.append (Text.indented_cons (by decide) hnext)

/-- The registry declares its own name only. -/
theorem declarations_registry {entries : List String}
    (h : ∀ entry ∈ entries, ∃ rest, entry.toList = ' ' :: rest ∧ '\n' ∉ rest) :
    declarations (registry entries) = ["JsonBoardFiles"] := by
  have hopen : declarations (lined ["// File Index - for easy reference",
      "export const JsonBoardFiles = \x7b"]) = ["JsonBoardFiles"] := by
    refine (declarations_between ["// File Index - for easy reference"] [] ?_ nofun).trans ?_
    · exact silent_lines [_] (by decide)
    · rw [String.toList_ofList]
      rfl
  have hclose : declarations (lined ["\x7d as const;", ""]) = [] :=
    declarations_of_silent (silent_lines [_, _] (by decide))
  rw [registry, String.append_assoc, declarations_append (Text.complete_lined _), hopen]
  split
  · rw [String.empty_append, hclose]
    rfl
  · next hne =>
    have hentries := indented_entries (by simpa using hne) h
    rw [declarations_append (Text.complete_lined _), hclose, declarations_lined,
      List.flatMap_singleton, declarationsIn_eq_continued, continued_of_indented hentries]
    rfl

theorem declarations_lookupFunction : declarations lookupFunction = ["validateFile"] := by
  refine (declarations_between ["// Utility function to validate any file by path"] _ ?_ ?_).trans
    ?_
  · exact silent_lines [_] (by decide)
  · refine List.forall_mem_append.2 ⟨?_, silent_resultLines⟩
    simp only [List.forall_mem_cons]
    exact ⟨silent_ofList (by decide), silent_ofList (by decide),
      silent_ofList_append (by decide) (by rw [String.toList_ofList]; decide),
      silent_ofList (by decide), silent_ofList (by decide), nofun⟩
  · rw [String.toList_ofList]
    rfl

/-- The types are declared. -/
theorem declarations_typeDeclarations (hnames : ∀ name ∈ names, IsName name.toList) :
    declarations (typeDeclarations names) = names.map typeName := by
  unfold typeDeclarations
  split
  · next h =>
    rw [List.isEmpty_iff.1 h]
    exact declarations_empty
  · have hcomment : ∀ line ∈ ["", "// Type exports for TypeScript users"], Silent line.toList :=
      silent_lines [_, _] (by decide)
    rw [declarations_lined, List.flatMap_append, flatMap_declarationsIn_eq_nil hcomment,
      List.nil_append, List.flatMap_map, ← List.flatMap_pure_eq_map]
    refine List.flatMap_congr ?_
    intro name hname
    have htype : IsName (typeName name).toList :=
      (hnames name hname).of_mem_declared (mem_declared.2 (.inr (.inr rfl)))
    have hkeyword : "export type ".toList ∈ keywords :=
      List.mem_cons_of_mem _ (List.mem_cons_of_mem _ List.mem_cons_self)
    exact declarationsIn_oneLine hkeyword htype rfl (by decide)
      (hnames name hname).newline_notMem (by decide)

/-! ### The whole module -/

/-- The schemas that a module declares, each after whatever the lines of its path declare. -/
def withInjected (sources : List Source) (names : List String) : List String :=
  (sources.zip names).flatMap fun entry => injected entry.1.path ++ [entry.2]

/-- The identifiers that a module is meant to declare. -/
def intended (names : List String) : List String :=
  ["ValidationResult"] ++ names ++ names.map validatorName ++ ["JsonBoardFiles", "validateFile"] ++
    names.map typeName

theorem complete_schemaDeclarations (sources : List Source) (names : List String) :
    Complete (String.join (List.zipWith schemaDeclaration sources names)) := by
  rw [← List.map_uncurry_zip_eq_zipWith]
  exact complete_join (List.forall_mem_map.2 fun _ _ => Text.complete_lined _)

theorem declarations_schemaDeclarations (sources : List Source)
    (hnames : ∀ name ∈ names, IsName name.toList) :
    declarations (String.join (List.zipWith schemaDeclaration sources names)) =
      withInjected sources names := by
  have hcomplete : ∀ s ∈ (sources.zip names).map (Function.uncurry schemaDeclaration),
      Complete s := List.forall_mem_map.2 fun _ _ => Text.complete_lined _
  rw [← List.map_uncurry_zip_eq_zipWith, declarations_join hcomplete, List.flatMap_map]
  refine List.flatMap_congr ?_
  rintro ⟨source, name⟩ hentry
  exact declarations_schemaDeclaration source (hnames name (List.of_mem_zip hentry).2)

theorem complete_validatorDeclarations (names : List String) :
    Complete (String.join (names.map validatorDeclaration)) :=
  complete_join (List.forall_mem_map.2 fun _ _ => Text.complete_lined _)

theorem declarations_validatorDeclarations (hnames : ∀ name ∈ names, IsName name.toList) :
    declarations (String.join (names.map validatorDeclaration)) = names.map validatorName := by
  have hcomplete : ∀ s ∈ names.map validatorDeclaration, Complete s :=
    List.forall_mem_map.2 fun _ _ => Text.complete_lined _
  rw [declarations_join hcomplete, List.flatMap_map, ← List.flatMap_pure_eq_map]
  exact List.flatMap_congr fun name hname => declarations_validatorDeclaration (hnames name hname)

/-- The path in an entry of the registry is a literal, so that the entry is one line. -/
theorem exists_registryEntry_eq (source : Source) (h : IsName name.toList) :
    ∃ rest, (registryEntry source name).toList = ' ' :: rest ∧ '\n' ∉ rest := by
  have hliteral : '\n' ∉ literal source.path.text :=
    fun hmem => absurd (not_isControl_of_mem_literal hmem) (by decide)
  have hblanks : "  ".toList = [' ', ' '] := String.toList_ofList
  have hcolon : ": ".toList = [':', ' '] := String.toList_ofList
  refine ⟨' ' :: (literal source.path.text ++ ':' :: ' ' :: name.toList), ?_, ?_⟩
  · simp only [registryEntry, String.toList_append, String.toList_ofList, hblanks, hcolon,
      List.append_assoc, List.cons_append, List.nil_append]
  · simp [hliteral, h.newline_notMem]

theorem complete_registry (entries : List String) : Complete (registry entries) := by
  refine Complete.append (Complete.append (Text.complete_lined _) ?_) (Text.complete_lined _)
  split
  · exact Text.complete_empty
  · exact Text.complete_lined _

/-- **What the text of a module declares**, injected lines included. -/
theorem declarations_moduleText (generatedAt : Option String)
    (hat : ∀ time ∈ generatedAt, '\n' ∉ time.toList) (sources : List Source)
    (hnames : ∀ name ∈ names, IsName name.toList) :
    declarations (moduleText generatedAt sources names) =
      ["ValidationResult"] ++ withInjected sources names ++ names.map validatorName ++
        ["JsonBoardFiles", "validateFile"] ++ names.map typeName := by
  have hentries : ∀ entry ∈ List.zipWith registryEntry sources names,
      ∃ rest, entry.toList = ' ' :: rest ∧ '\n' ∉ rest := by
    rw [← List.map_uncurry_zip_eq_zipWith, List.forall_mem_map]
    rintro ⟨source, name⟩ hentry
    exact exists_registryEntry_eq source (hnames name (List.of_mem_zip hentry).2)
  have hheader : Complete (header generatedAt names) := Text.complete_lined _
  have hpreamble : Complete preamble := Text.complete_lined _
  have hlookup : Complete lookupFunction := Text.complete_lined _
  simp only [moduleText, String.append_assoc]
  rw [declarations_append hheader, declarations_header hat hnames,
    declarations_append hpreamble, declarations_preamble,
    declarations_append (complete_schemaDeclarations sources names),
    declarations_schemaDeclarations sources hnames,
    declarations_append (complete_validatorDeclarations names),
    declarations_validatorDeclarations hnames,
    declarations_append (complete_registry _), declarations_registry hentries,
    declarations_append hlookup, declarations_lookupFunction, declarations_typeDeclarations hnames]
  simp

/-- No identifier is meant to be declared twice. -/
theorem nodup_intended (hnodup : (names.flatMap declared).Nodup)
    (hfixed : ∀ ident ∈ names.flatMap declared, ident ∉ reserved) : (intended names).Nodup := by
  have hperm : (intended names).Perm
      (["ValidationResult", "JsonBoardFiles", "validateFile"] ++ names.flatMap declared) := by
    have htypes := List.map_append_flatMap_perm names validatorName fun name => [typeName name]
    have hdeclared : (names.map id ++ names.flatMap fun name =>
        [validatorName name, typeName name]).Perm (names.flatMap declared) :=
      List.map_append_flatMap_perm names id _
    rw [← List.map_eq_flatMap] at htypes
    rw [List.perm_iff_count] at htypes hdeclared ⊢
    intro ident
    have ht := htypes ident
    have hd := hdeclared ident
    simp only [List.map_id, List.count_append] at ht hd
    simp only [intended, List.count_append, List.count_cons, List.count_nil]
    omega
  have hdisjoint : List.Disjoint ["ValidationResult", "JsonBoardFiles", "validateFile"]
      (names.flatMap declared) := by
    intro ident hident hmem
    exact hfixed ident hmem ((List.take_sublist 3 reserved).subset hident)
  exact hperm.nodup_iff.2 (List.nodup_append'.2 ⟨by decide, hnodup, hdisjoint⟩)

theorem withInjected_cons (source : Source) (sources : List Source) (name : String)
    (names : List String) : withInjected (source :: sources) (name :: names) =
      injected source.path ++ name :: withInjected sources names := by
  rw [withInjected, List.zip_cons_cons, List.flatMap_cons, List.append_assoc]
  rfl

theorem length_le_withInjected {sources : List Source} (h : names.length = sources.length) :
    names.length ≤ (withInjected sources names).length := by
  induction sources generalizing names with
  | nil => exact Nat.le_of_eq h
  | cons source sources ih =>
      cases names with
      | nil => exact Nat.zero_le _
      | cons name names =>
          have hrest := ih (Nat.succ.inj h)
          rw [withInjected_cons, List.length_append, List.length_cons, List.length_cons]
          omega

/-- The schemas are the intended ones exactly when no path injects a line. -/
theorem withInjected_eq_iff {sources : List Source} (h : names.length = sources.length) :
    withInjected sources names = names ↔ ∀ source ∈ sources, injected source.path = [] := by
  induction sources generalizing names with
  | nil => simp [withInjected, List.eq_nil_of_length_eq_zero h]
  | cons source sources ih =>
      cases names with
      | nil => cases h
      | cons name names =>
          have hrest := Nat.succ.inj h
          rw [withInjected_cons, List.forall_mem_cons, ← ih hrest]
          constructor
          · intro heq
            -- what is injected would make the list too long
            have hlength := congrArg List.length heq
            have hle := length_le_withInjected hrest
            rw [List.length_append, List.length_cons, List.length_cons] at hlength
            have hnone : injected source.path = [] := List.eq_nil_of_length_eq_zero (by omega)
            rw [hnone] at heq
            exact ⟨hnone, (List.cons.inj heq).2⟩
          · rintro ⟨hnone, heq⟩
            rw [hnone, heq]
            rfl

/-- **A module declares what it is meant to, each identifier once, exactly when no line of a path is
read as a declaration.**  What it declares otherwise is known as well. -/
theorem declarations_iff_not_injected (generatedAt : Option String) (sources : List Source)
    (text : String) (hat : ∀ time ∈ generatedAt, '\n' ∉ time.toList)
    (h : moduleOf generatedAt sources = .ok text) :
    ∃ names, assignNames fingerprint (sources.map Source.path) = .ok names ∧
      (intended names).Nodup ∧
      declarations text = ["ValidationResult"] ++ withInjected sources names ++
        names.map validatorName ++ ["JsonBoardFiles", "validateFile"] ++ names.map typeName ∧
      (declarations text = intended names ↔ ∀ source ∈ sources, injected source.path = []) := by
  obtain ⟨names, hnames, htext⟩ := bind_eq_ok.1 h
  obtain rfl := Except.ok.inj htext
  have hformed := isFormed_of_assignNames hnames
  have hlength : names.length = sources.length := by
    rw [(assignNames_eq_ok.1 hnames).1, List.length_map, List.length_map]
  have hfixed : ∀ ident ∈ names.flatMap declared, ident ∉ reserved := by
    intro ident hident
    obtain ⟨name, hname, hmem⟩ := List.mem_flatMap.1 hident
    exact notMem_reserved (hformed name hname) hmem
  have hdeclarations := declarations_moduleText generatedAt hat sources fun name hname =>
    (hformed name hname).isName
  refine ⟨names, hnames, nodup_intended (nodup_flatMap_declared hnames) hfixed, hdeclarations, ?_⟩
  rw [hdeclarations, intended, ← withInjected_eq_iff hlength]
  simp only [List.append_left_inj, List.append_right_inj]

/-- A path that begins like a declaration injects nothing: it stands behind the words of the
comment. -/
theorem declarations_iff_not_injected_oneLine :
    ∃ text, moduleOf none [⟨⟨"export const x.json"⟩, .null, .null⟩] = .ok text ∧
      declarations text = ["ValidationResult", "exportConstXSchema", "validateExportConstXSchema",
        "JsonBoardFiles", "validateFile", "ExportConstXSchemaType"] := by
  have hnames : assignNames fingerprint [⟨"export const x.json"⟩] = .ok ["exportConstXSchema"] := by
    decide +kernel
  have htext : moduleOf none [⟨⟨"export const x.json"⟩, .null, .null⟩] =
      .ok (moduleText none [⟨⟨"export const x.json"⟩, .null, .null⟩] ["exportConstXSchema"]) :=
    bind_eq_ok.2 ⟨_, hnames, rfl⟩
  obtain ⟨names, hother, -, -, hiff⟩ := declarations_iff_not_injected none _ _ nofun htext
  obtain rfl := Except.ok.inj (hnames.symm.trans hother)
  refine ⟨_, htext, (hiff.2 ?_).trans (by decide +kernel)⟩
  rw [List.forall_mem_singleton]
  exact injected_of_notMem (by decide +kernel)

/-- What follows a line feed in a path is declared, although the path may name a document. -/
theorem declarations_ne_intended_of_lineFeed :
    DocPath.isDocument ⟨"a\nexport const injected = 1;\nb.json"⟩ = true ∧
      ∃ names text,
        assignNames fingerprint [⟨"a\nexport const injected = 1;\nb.json"⟩] = .ok names ∧
        moduleOf none [⟨⟨"a\nexport const injected = 1;\nb.json"⟩, .null, .null⟩] = .ok text ∧
        "injected" ∈ declarations text ∧ declarations text ≠ intended names := by
  have hnames : assignNames fingerprint [⟨"a\nexport const injected = 1;\nb.json"⟩] =
      .ok ["aExportConstInjected1BSchema"] := by decide +kernel
  have hname : ∀ name ∈ ["aExportConstInjected1BSchema"], IsName name.toList :=
    fun name hmem => (isFormed_of_assignNames hnames name hmem).isName
  have hinjected : injected ⟨"a\nexport const injected = 1;\nb.json"⟩ = ["injected"] := by
    decide +kernel
  have hdeclared := declarations_moduleText none nofun
    [⟨⟨"a\nexport const injected = 1;\nb.json"⟩, .null, .null⟩] hname
  rw [withInjected_cons, hinjected] at hdeclared
  refine ⟨by decide +kernel, _, _, hnames, bind_eq_ok.2 ⟨_, hnames, rfl⟩, ?_, ?_⟩
  · rw [hdeclared]
    simp
  · rw [hdeclared]
    decide +kernel

end JsonShelf.Zod
