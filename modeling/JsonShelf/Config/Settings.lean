/-
**Settings.**

The settings in force come from the defaults, the config file and the command line, of which each
wins over the one before.

Main definitions:

* `Settings`, `Settings.standard` — the settings in force, and the defaults;
* `ConfigError` — why there are none, with the wording;
* `Settings.resolve`, `Settings.load` — the settings from a config file.
-/

import JsonShelf.Config.File
import JsonShelf.Scan.Policy

set_option autoImplicit false

namespace JsonShelf

/-- The settings in force. -/
structure Settings where
  dir : String
  port : Nat
  opens : Bool
  schemaOut : String
  scan : ScanPolicy
  deriving DecidableEq, Repr

/-- Why there are no settings. -/
inductive ConfigError where
  | unreadable (fault : ConfigFault)
  | emptyDir
  | zeroPort
  | emptySchemaOut
  | schemaOutEscapes (path : String)
  | invalidPattern (e : Glob.PatternError)
  deriving DecidableEq, Repr

/-- What went wrong and what caused it, outermost first. -/
def ConfigError.chain : ConfigError → List String
  | unreadable fault => ["parse config", fault.message]
  | emptyDir => ["resolve config", "dir must not be empty"]
  | zeroPort => ["resolve config", "port must be between 1 and 65535"]
  | emptySchemaOut => ["resolve config", "schema_out must not be empty"]
  | schemaOutEscapes path =>
    ["resolve config", "schema_out must stay inside the data directory: " ++ path]
  | invalidPattern e => ["resolve config", "invalid scan.ignore glob: " ++ e.text, e.message]

namespace Settings

/-- The settings without config file and command line. -/
def standard : Settings := ⟨"data", 3000, true, "jsonboard.schema.ts", .standard⟩

/-- A data directory, which must not be blank. -/
def checkDir (dir : String) : Except ConfigError String :=
  if Text.isAllBlank dir then .error .emptyDir else .ok dir

/-- A port, which must not be zero. -/
def checkPort (port : Nat) : Except ConfigError Nat :=
  if port = 0 then .error .zeroPort else .ok port

/-- The path of the generated module, which must not be blank or hold two dots between slashes of
either kind. -/
def checkSchemaOut (path : String) : Except ConfigError String :=
  if Text.isAllBlank path then .error .emptySchemaOut
  else if (Text.split (fun c => c == '/' || c == '\\') path).contains ".." then
    .error (.schemaOutEscapes path)
  else .ok path

/-- Patterns that can be read. -/
def checkPatterns (patterns : List String) : Except ConfigError (List String) := do
  let _ ← (patterns.mapM Glob.Pattern.parse).mapError ConfigError.invalidPattern
  return patterns

/-- The value given, checked, or else the default. -/
def given {α : Type} (check : α → Except ConfigError α) (fallback : α) :
    Option α → Except ConfigError α
  | some value => check value
  | none => .ok fallback

/-- The settings from a config file; `dir` is the data directory from the command line. -/
def resolve (dir : Option String) (file : ConfigFile) : Except ConfigError Settings := do
  let dir ← given checkDir standard.dir (dir.or file.dir)
  let port ← given checkPort standard.port file.port
  let schemaOut ← given checkSchemaOut standard.schemaOut file.schemaOut
  let ignore ← checkPatterns file.scan.ignore
  return {
    dir, port, schemaOut
    opens := file.opens.getD standard.opens
    scan := {
      maxDepth := file.scan.maxDepth.getD standard.scan.maxDepth
      ignore
      ignoreToolConfig := file.scan.ignoreToolConfig.getD standard.scan.ignoreToolConfig } }

/-- The settings from the text of a config file. -/
def load (dir : Option String) (text : String) : Except ConfigError Settings := do
  resolve dir (← (ConfigFile.parse text).mapError ConfigError.unreadable)

end Settings

end JsonShelf
