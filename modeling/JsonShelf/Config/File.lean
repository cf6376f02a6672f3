/-
**Config files.**

A config file is a TOML document in which everything may be left out and unknown keys are ignored.

Main definitions:

* `ScanConfig`, `ConfigFile` — what a config file says;
* `ConfigFile.parse` — reads a config file;
* `ConfigFile.toJson` — what it says as a JSON document.
-/

import JsonShelf.Json.Payload
import JsonShelf.Text.Blank
import JsonShelf.Toml.Parser

set_option autoImplicit false

namespace JsonShelf

/-- What a config file says about scans. -/
structure ScanConfig where
  maxDepth : Option Nat
  ignore : List String
  ignoreToolConfig : Option Bool
  deriving DecidableEq, Repr

/-- What a config file says. -/
structure ConfigFile where
  schema : Option String
  dir : Option String
  port : Option Nat
  opens : Option Bool
  schemaOut : Option String
  scan : ScanConfig
  deriving DecidableEq, Repr

/-- Why a config file cannot be read. -/
inductive ConfigFault where
  | toml (fault : Toml.Fault)
  /-- The value of a key is of the wrong kind. -/
  | wrongKind (key : String)
  deriving DecidableEq, Repr

/-- The wording of a fault. -/
def ConfigFault.message : ConfigFault → String
  | toml fault => fault.message
  | wrongKind key => "invalid value for " ++ key

namespace ScanConfig

/-- A config file that says nothing about scans. -/
def empty : ScanConfig := ⟨none, [], none⟩

/-- A setting that may be missing. -/
def setting? {α : Type} (read : Toml → Option α) : Option Toml → Option (Option α)
  | none => some none
  | some value => (read value).map some

/-- The settings of the three keys, each there or not. -/
def ofSettings? (maxDepth ignore ignoreToolConfig : Option Toml) : Option ScanConfig := do
  return {
    maxDepth := ← setting? (Toml.natural? (2 ^ 64)) maxDepth
    ignore := (← setting? (Toml.listOf? Toml.string?) ignore).getD []
    ignoreToolConfig := ← setting? Toml.boolean? ignoreToolConfig }

/-- What a value says about scans: a table, or an array of the three settings in order. -/
def ofToml? : Toml → Option ScanConfig
  | .table entries =>
    ofSettings? (Members.get? "max_depth" entries) (Members.get? "ignore" entries)
      (Members.get? "ignore_config_files" entries)
  | .array items => ofSettings? items[0]? items[1]? items[2]?
  | _ => none

/-- What the settings say as a JSON document. -/
def toJson (scan : ScanConfig) : Json :=
  .object <| (scan.maxDepth.map fun n => ("max_depth", Json.ofInt n)).toList ++
    [("ignore", Json.texts scan.ignore)] ++
    (scan.ignoreToolConfig.map fun b => ("ignore_config_files", Json.bool b)).toList

end ScanConfig

namespace ConfigFile

/-- A config file that says nothing. -/
def empty : ConfigFile := ⟨none, none, none, none, none, .empty⟩

/-- The setting of a key, if it is there. -/
def setting {α : Type} (entries : Members Toml) (key : String) (read : Toml → Option α) :
    Except ConfigFault (Option α) :=
  match ScanConfig.setting? read (Members.get? key entries) with
  | some value => .ok value
  | none => .error (.wrongKind key)

/-- What the entries of a config file say. -/
def ofEntries (entries : Members Toml) : Except ConfigFault ConfigFile := do
  return {
    schema := ← setting entries "schema" Toml.string?
    dir := ← setting entries "dir" Toml.string?
    port := ← setting entries "port" (Toml.natural? (2 ^ 16))
    opens := ← setting entries "open" Toml.boolean?
    schemaOut := ← setting entries "schema_out" Toml.string?
    scan := (← setting entries "scan" ScanConfig.ofToml?).getD .empty }

/-- Reads a config file; one of blanks says nothing. -/
def parse (text : String) : Except ConfigFault ConfigFile := do
  if Text.isAllBlank text then return empty
  else ofEntries (← (Toml.parse text).mapError ConfigFault.toml)

/-- What a config file says as a JSON document. -/
def toJson (file : ConfigFile) : Json :=
  let text (key : String) (value : Option String) :=
    (value.map fun s => (key, Json.string s)).toList
  .object <| text "schema" file.schema ++ text "dir" file.dir ++
    (file.port.map fun n => ("port", Json.ofInt n)).toList ++
    (file.opens.map fun b => ("open", Json.bool b)).toList ++
    text "schema_out" file.schemaOut ++ [("scan", file.scan.toJson)]

end ConfigFile

end JsonShelf
