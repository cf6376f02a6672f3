/-
**Where the generated module is written.**

The settings name the generated module by a path that is read from the data directory.  What the
check of this path refuses are two dots between slashes of either kind, so a path that goes down
from the data directory never comes up again.  A path that starts at the root is let through,
however, and such a path is not read from the data directory at all.

Main definitions:

* `Settings.Checked` — every setting passes its own check;
* `Settings.WritesBelow` — the module is written below the data directory, by steps that lead down.

Main results:

* `Settings.checked_of_resolve` — the settings in force are checked, defaults included;
* `Settings.writesBelow_iff` — **the module stays in the data directory exactly when its path does
  not start at the root**, or spells the data directory out.
-/

import JsonShelf.Config.Settings
import JsonShelf.Proofs.Computation
import JsonShelf.Proofs.Paths.Containment

set_option autoImplicit false

namespace JsonShelf.Settings

open Paths

variable {settings : Settings} {dir : Option String} {file : ConfigFile} {path : String}

/-! ### Checks -/

/-- A check that lets a value through leaves it as it is. -/
theorem checkDir_eq_ok {checked : String} (h : checkDir path = .ok checked) : checked = path := by
  unfold checkDir at h
  split at h
  · cases h
  · exact (Except.ok.inj h).symm

theorem checkPort_eq_ok {port checked : Nat} (h : checkPort port = .ok checked) :
    checked = port := by
  unfold checkPort at h
  split at h
  · cases h
  · exact (Except.ok.inj h).symm

theorem checkSchemaOut_eq_ok {checked : String} :
    checkSchemaOut path = .ok checked ↔ checked = path ∧ Text.isAllBlank path = false ∧
      ".." ∉ Text.split (fun c => c == '/' || c == '\\') path := by
  unfold checkSchemaOut
  split
  · next hblank => simp [hblank]
  · next hblank =>
    split
    · next hdots => simp_all
    · next hdots =>
      rw [List.contains_iff_mem] at hdots
      simp only [Except.ok.injEq, hdots, not_false_eq_true, and_true, Bool.not_eq_true _ ▸ hblank]
      exact eq_comm

theorem checkPatterns_eq_ok {patterns checked : List String}
    (h : checkPatterns patterns = .ok checked) : checked = patterns := by
  obtain ⟨_, -, h⟩ := bind_eq_ok.1 h
  exact (Except.ok.inj h).symm

/-- Every setting passes its own check. -/
structure Checked (settings : Settings) : Prop where
  dir : checkDir settings.dir = .ok settings.dir
  port : checkPort settings.port = .ok settings.port
  schemaOut : checkSchemaOut settings.schemaOut = .ok settings.schemaOut
  ignore : checkPatterns settings.scan.ignore = .ok settings.scan.ignore

theorem checked_standard : Checked standard where
  dir := by decide
  port := by decide
  schemaOut := by decide
  ignore := rfl

/-- A setting in force passes its check if the default does. -/
theorem check_of_given {α : Type} {check : α → Except ConfigError α} {fallback value : α}
    {given? : Option α} (hcheck : ∀ {a b}, check a = .ok b → b = a)
    (hfallback : check fallback = .ok fallback) (h : given check fallback given? = .ok value) :
    check value = .ok value := by
  cases given? with
  | none =>
      cases h
      exact hfallback
  | some told =>
      have htold : check told = .ok value := h
      rwa [← hcheck htold] at htold

/-- The settings in force pass their checks. -/
theorem checked_of_resolve (h : resolve dir file = .ok settings) : settings.Checked := by
  obtain ⟨d, hdir, h⟩ := bind_eq_ok.1 h
  obtain ⟨port, hport, h⟩ := bind_eq_ok.1 h
  obtain ⟨schemaOut, hschemaOut, h⟩ := bind_eq_ok.1 h
  obtain ⟨ignore, hignore, h⟩ := bind_eq_ok.1 h
  cases h
  refine ⟨check_of_given checkDir_eq_ok checked_standard.dir hdir,
    check_of_given checkPort_eq_ok checked_standard.port hport,
    check_of_given (fun h => (checkSchemaOut_eq_ok.1 h).1) checked_standard.schemaOut hschemaOut,
    ?_⟩
  rwa [← checkPatterns_eq_ok hignore] at hignore

/-! ### The path of the module -/

/-- The module is written below the data directory: the components of its path are those of the
directory and then others, of which none leads up. -/
def WritesBelow (settings : Settings) (root : String) : Prop :=
  ∃ below, components (join root settings.schemaOut) = components root ++ below ∧
    Component.parent ∉ below

/-- A piece of a path without slashes of either kind is no way up if the path was let through. -/
theorem parent_notMem_steps (h : checkSchemaOut path = .ok path) :
    Component.parent ∉ (steps path.toList).map componentOf := by
  intro hmem
  obtain ⟨piece, hpiece, hparent⟩ := List.mem_map.1 hmem
  obtain rfl : piece = ['.', '.'] := by
    unfold componentOf at hparent
    split at hparent
    · assumption
    · cases hparent
  refine (checkSchemaOut_eq_ok.1 h).2.2 (List.mem_map_of_mem (f := String.ofList) ?_)
  exact Text.mem_splitOnP_or (List.mem_of_mem_filter hpiece) (by simp)

/-- Neither does the path as a whole. -/
theorem parent_notMem_components (h : checkSchemaOut path = .ok path) :
    Component.parent ∉ components path := by
  rw [components_eq_append, List.mem_append, not_or]
  refine ⟨?_, parent_notMem_steps h⟩
  unfold anchorComponent
  split <;> decide

theorem writesBelow_of_not_isAbsolute (root : String)
    (hcheck : checkSchemaOut settings.schemaOut = .ok settings.schemaOut)
    (h : isAbsolute settings.schemaOut.toList = false) : settings.WritesBelow root := by
  by_cases hroot : root = ""
  · subst hroot
    refine ⟨components settings.schemaOut, ?_, parent_notMem_components hcheck⟩
    rw [join, h]
    exact congrArg components String.empty_append
  · exact ⟨_, components_join_of_not_isAbsolute hroot h, parent_notMem_steps hcheck⟩

/-- **The module stays in the data directory exactly when its path does not start at the root**, or
spells the data directory out: for all settings that a config file and the command line lead to, and
whatever the data directory is taken from. -/
theorem writesBelow_iff (h : resolve dir file = .ok settings) (base : String) :
    settings.WritesBelow (join base settings.dir) ↔
      (isAbsolute settings.schemaOut.toList = true →
        components (join base settings.dir) <+: components settings.schemaOut) := by
  have hcheck := (checked_of_resolve h).schemaOut
  constructor
  · rintro ⟨below, hbelow, -⟩ habsolute
    rw [join, if_pos habsolute] at hbelow
    exact ⟨below, hbelow.symm⟩
  · intro hspelled
    cases habsolute : isAbsolute settings.schemaOut.toList with
    | false => exact writesBelow_of_not_isAbsolute _ hcheck habsolute
    | true =>
        obtain ⟨below, hbelow⟩ := hspelled habsolute
        refine ⟨below, ?_, ?_⟩
        · rw [join, if_pos habsolute, hbelow]
        · intro hmem
          refine parent_notMem_components hcheck ?_
          rw [← hbelow]
          exact List.mem_append_right _ hmem

/-- A config file that names the path of the module and nothing else. -/
def namingSchemaOut (path : String) : ConfigFile :=
  { ConfigFile.empty with schemaOut := some path }

/-- A path with slashes of both kinds, dots and blanks, below a data directory that ends in a
slash. -/
theorem writesBelow_iff_types :
    resolve (some "site/data/") (namingSchemaOut " types\\v1/.//schema..ts") =
        .ok ⟨"site/data/", 3000, true, " types\\v1/.//schema..ts", .standard⟩ ∧
      WritesBelow ⟨"site/data/", 3000, true, " types\\v1/.//schema..ts", .standard⟩
        (join "." "site/data/") := by
  have hresolve : resolve (some "site/data/") (namingSchemaOut " types\\v1/.//schema..ts") =
      .ok ⟨"site/data/", 3000, true, " types\\v1/.//schema..ts", .standard⟩ := by rfl
  exact ⟨hresolve, (writesBelow_iff hresolve ".").2 (by decide +kernel)⟩

/-- A path that starts at the root is let through and leads out of the data directory. -/
theorem not_writesBelow_of_root :
    ∃ settings, resolve none (namingSchemaOut "/dev/null") = .ok settings ∧
      ¬settings.WritesBelow (join "" settings.dir) := by
  refine ⟨⟨"data", 3000, true, "/dev/null", .standard⟩, by rfl, ?_⟩
  rintro ⟨below, hbelow, -⟩
  have hdata : components (join "" "data") = [.normal "data"] := by decide +kernel
  have hnull : components (join (join "" "data") "/dev/null") =
      [.root, .normal "dev", .normal "null"] := by decide +kernel
  rw [hdata, hnull] at hbelow
  cases hbelow

end JsonShelf.Settings
