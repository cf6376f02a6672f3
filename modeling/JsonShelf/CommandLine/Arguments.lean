/-
**Command-line arguments.**

Options may stand before and after the names of commands; those of the program hold at every level,
and the one given deepest counts.

Main definitions:

* `CommandLine.Command`, `CommandLine.Invocation` — what the program is asked to do;
* `CommandLine.Usage` — why it is not asked anything;
* `CommandLine.readLevel` — the options and words of one level;
* `CommandLine.parse` — reads the arguments.
-/

import JsonShelf.Decimal.Rounding
import JsonShelf.Power

set_option autoImplicit false

namespace JsonShelf.CommandLine

/-! ### Requests -/

/-- How a report is written. -/
inductive Format where
  | text
  | json
  | markdown
  deriving DecidableEq, Repr

/-- Which record is updated. -/
inductive Target where
  | byId (id : Int64)
  | byIndex (index : Nat)
  deriving DecidableEq

/-- What the program is asked to do. -/
inductive Command where
  | files (format : Format)
  | show (file : String) (asView : Bool)
  | shape (file : String) (asJson : Bool)
  | validate (file : String) (asJson : Bool)
  | health (file : Option String) (format : Format)
  | initSchema (out : Option String)
  | create (file : String) (data : Option String)
  | save (file data : String)
  | delete (file : String)
  | addRecord (file record : String)
  | updateRecord (file : String) (target : Target) (patch : String)
  | deleteRecord (file : String) (id : Int64)
  deriving DecidableEq

/-- A command with the options of the program. -/
structure Invocation where
  /-- The data directory. -/
  dir : Option String
  /-- The path of the config file. -/
  config : String
  command : Command
  deriving DecidableEq

/-- Why the program is not asked to do anything. -/
inductive Usage where
  /-- Help or the version is asked for. -/
  | help
  | wrong (why : String)
  deriving DecidableEq, Repr

/-! ### One level -/

/-- An option: its name, and whether a value belongs to it. -/
structure Switch where
  name : String
  takesValue : Bool

/-- What may stand on a level: options, each of them once, and words.  Only the first level can be
asked for the version. -/
structure Grammar where
  switches : List Switch
  /-- How many words there may be; none for a level that ends before the first one. -/
  words : Option Nat
  tellsVersion : Bool

/-- Does the option ask for help or the version? -/
def Grammar.asks (grammar : Grammar) (name : String) : Bool :=
  name == "help" || (grammar.tellsVersion && name == "version")

/-- Does the letter ask for help or the version? -/
def Grammar.asksShort (grammar : Grammar) (letter : Char) : Bool :=
  letter == 'h' || (grammar.tellsVersion && letter == 'V')

/-- The grammar of what follows an option. -/
def Grammar.after (grammar : Grammar) (option : String) : Grammar :=
  { grammar with switches := grammar.switches.filter (·.name != option) }

/-- The options that were given, with their values. -/
abbrev Given := List (String × String)

/-- The options and words of one level, and what is left for the next one. -/
structure Level where
  given : Given
  words : List String
  left : List String

/-- The options of the program. -/
def programSwitches : List Switch :=
  [⟨"dir", true⟩, ⟨"config", true⟩, ⟨"log-level", true⟩, ⟨"log-json", false⟩]

/-- May the argument be the value of an option or a word? -/
def isPlain (argument : String) : Bool :=
  argument == "-" || argument.toList.head? != some '-'

/-- The name and the value of an option `--name=value`, after its hyphens. -/
def splitSwitch (cs : List Char) : String × Option String :=
  let (name, rest) := cs.span (· != '=')
  (String.ofList name, if rest.isEmpty then none else some (String.ofList rest.tail))

/-- Reads an option, after its hyphens; gives its name, its value and the arguments left. -/
def readSwitch (switches : List Switch) (cs : List Char) (rest : List String) :
    Except Usage ((String × String) × List String) :=
  let (name, attached) := splitSwitch cs
  match switches.find? (·.name == name), attached, rest with
  | none, _, _ => .error (.wrong ("unexpected argument --" ++ name))
  | some ⟨_, true⟩, some value, rest => .ok ((name, value), rest)
  | some ⟨_, false⟩, none, rest => .ok ((name, ""), rest)
  | some ⟨_, false⟩, some _, _ => .error (.wrong ("unexpected value for --" ++ name))
  | some ⟨_, true⟩, none, [] => .error (.wrong ("a value is required for --" ++ name))
  | some ⟨_, true⟩, none, value :: rest =>
    if isPlain value then .ok ((name, value), rest)
    else .error (.wrong ("a value is required for --" ++ name))

/-- Not as many words as there have to be. -/
def wrongWords {α : Type} : Except Usage α :=
  .error (.wrong "wrong number of arguments")

/-- Reads the options and words of a level, at most `bound` of them. -/
def readLevel (grammar : Grammar) : Nat → List String → Except Usage Level
  | 0, left => .ok ⟨[], [], left⟩
  | _, [] => .ok ⟨[], [], []⟩
  | bound + 1, argument :: rest =>
    match argument.toList with
    | ['-', '-'] =>
      -- all that follows are words, whatever they begin with
      if grammar.words.any (rest.length ≤ ·) then .ok ⟨[], rest, []⟩ else wrongWords
    | '-' :: '-' :: cs =>
      if grammar.asks (String.ofList cs) then .error .help
      else do
        let (option, rest) ← readSwitch grammar.switches cs rest
        let level ← readLevel (grammar.after option.1) bound rest
        return { level with given := option :: level.given }
    | '-' :: letter :: _ =>
      if grammar.asksShort letter then .error .help
      else .error (.wrong ("unexpected argument " ++ argument))
    | _ =>
      match grammar.words with
      | none => .ok ⟨[], [], argument :: rest⟩
      | some 0 => wrongWords
      | some (more + 1) => do
        let level ← readLevel { grammar with words := some more } bound rest
        return { level with words := argument :: level.words }

/-- Reads a level. -/
def level (grammar : Grammar) (arguments : List String) : Except Usage Level :=
  readLevel grammar (arguments.length + 1) arguments

/-! ### Commands -/

/-- Was the option given? -/
def Level.has (level : Level) (name : String) : Bool :=
  (level.given.lookup name).isSome

/-- The value of an option. -/
def Level.value? (level : Level) (name : String) : Option String :=
  level.given.lookup name

/-- The one word of a level. -/
def Level.word (level : Level) : Except Usage String :=
  match level.words with
  | [word] => .ok word
  | _ => wrongWords

/-- The two words of a level. -/
def Level.twoWords (level : Level) : Except Usage (String × String) :=
  match level.words with
  | [first, second] => .ok (first, second)
  | _ => wrongWords

/-- The format that a level asks for. -/
def Level.format (level : Level) : Except Usage Format :=
  match level.has "json", level.has "markdown" with
  | true, true => .error (.wrong "--json cannot be used with --markdown")
  | true, false => .ok .json
  | false, true => .ok .markdown
  | false, false => .ok .text

/-- Digits after an optional plus sign. -/
def natural? (cs : List Char) : Option Nat :=
  let digits := match cs with
    | '+' :: rest => rest
    | cs => cs
  if !digits.isEmpty && digits.all Char.isDigit then some (Decimal.ofDigits digits) else none

/-- A whole number with an optional sign. -/
def whole? (cs : List Char) : Option Int :=
  match cs with
  | '-' :: digits =>
    if !digits.isEmpty && digits.all Char.isDigit then some (-(Decimal.ofDigits digits : Int))
    else none
  | cs => (natural? cs).map fun n => (n : Int)

/-- An id: a whole number of 64 signed bits. -/
def readId (text : String) : Except Usage Int64 :=
  match whole? text.toList with
  | some n =>
    if -2 ^ 63 ≤ n && n < 2 ^ 63 then .ok (Int64.ofInt n)
    else .error (.wrong ("invalid value " ++ text))
  | none => .error (.wrong ("invalid value " ++ text))

/-- A place: a natural number of 64 bits. -/
def readIndex (text : String) : Except Usage Nat :=
  match natural? text.toList with
  | some n => if n < 2 ^ 64 then .ok n else .error (.wrong ("invalid value " ++ text))
  | none => .error (.wrong ("invalid value " ++ text))

/-- The record that a level names, by its id or its place. -/
def Level.target (level : Level) : Except Usage Target :=
  match level.value? "id", level.value? "index" with
  | some id, none => (readId id).map Target.byId
  | none, some index => (readIndex index).map Target.byIndex
  | _, _ => .error (.wrong "one of --id and --index is required")

/-- The value of an option that has to be there. -/
def Level.required (level : Level) (name : String) : Except Usage String :=
  match level.value? name with
  | some value => .ok value
  | none => .error (.wrong ("--" ++ name ++ " is required"))

/-- A command and the options given with it. -/
abbrev Request := Command × Given

/-- Reads a command from a level with at most so many words. -/
def command (words : Nat) (own : List Switch) (read : Level → Except Usage Command)
    (arguments : List String) : Except Usage Request := do
  let level ← level ⟨programSwitches ++ own, some words, false⟩ arguments
  return (← read level, level.given)

/-- The switch that asks for JSON. -/
def jsonSwitch : Switch := ⟨"json", false⟩

/-- The switch that asks for Markdown. -/
def markdownSwitch : Switch := ⟨"markdown", false⟩

/-- The names of the commands on records. -/
def recordNames : List String := ["add", "update", "delete", "help"]

/-- The names of all commands, each with those of the commands below it. -/
def topNames : List (String × List String) :=
  [("files", []), ("show", []), ("shape", []), ("validate", []), ("health", []),
    ("init-schema", []), ("create", []), ("save", []), ("delete", []), ("record", recordNames),
    ("help", [])]

/-- Help on the command to which some names lead. -/
def helpOn {α : Type} (names : List (String × List String)) : List String → Except Usage α
  | [] => .error .help
  | name :: rest =>
    match names.lookup name with
    | some below => helpOn (below.map fun inner => (inner, [])) rest
    | none => .error (.wrong ("unrecognized subcommand " ++ name))

/-- Reads a command on records. -/
def recordCommand (name : String) (arguments : List String) : Except Usage Request :=
  match name with
  | "add" => command 2 [] (fun level => do
      let (file, record) ← level.twoWords
      return .addRecord file record) arguments
  | "update" => command 2 [⟨"id", true⟩, ⟨"index", true⟩] (fun level => do
      let (file, patch) ← level.twoWords
      return .updateRecord file (← level.target) patch) arguments
  | "delete" => command 1 [⟨"id", true⟩] (fun level => do
      let file ← level.word
      return .deleteRecord file (← readId (← level.required "id"))) arguments
  | "help" => helpOn (recordNames.map fun inner => (inner, [])) arguments
  | _ => .error (.wrong ("unrecognized subcommand " ++ name))

/-- Reads the name of a command after the options before it. -/
def nextName (tellsVersion : Bool) (arguments : List String) :
    Except Usage (String × List String × Given) := do
  let level ← level ⟨programSwitches, none, tellsVersion⟩ arguments
  match level.left with
  | name :: rest => return (name, rest, level.given)
  | [] => throw (.wrong "a subcommand is required")

/-- Reads a command. -/
def topCommand (name : String) (arguments : List String) : Except Usage Request :=
  match name with
  | "files" => command 0 [jsonSwitch, markdownSwitch] (fun level => do
      return .files (← level.format)) arguments
  | "show" => command 1 [jsonSwitch] (fun level => do
      return .show (← level.word) (level.has "json")) arguments
  | "shape" => command 1 [jsonSwitch] (fun level => do
      return .shape (← level.word) (level.has "json")) arguments
  | "validate" => command 1 [jsonSwitch] (fun level => do
      return .validate (← level.word) (level.has "json")) arguments
  | "health" => command 1 [jsonSwitch, markdownSwitch] (fun level => do
      if level.words.isEmpty then return .health none (← level.format)
      else return .health (some (← level.word)) (← level.format)) arguments
  | "init-schema" => command 0 [⟨"out", true⟩] (fun level => do
      return .initSchema (level.value? "out")) arguments
  | "create" => command 1 [⟨"data", true⟩] (fun level => do
      return .create (← level.word) (level.value? "data")) arguments
  | "save" => command 1 [⟨"data", true⟩] (fun level => do
      return .save (← level.word) (← level.required "data")) arguments
  | "delete" => command 1 [] (fun level => do return .delete (← level.word)) arguments
  | "record" => do
    let (name, rest, given) ← nextName false arguments
    let (command, inner) ← recordCommand name rest
    return (command, inner ++ given)
  | "help" => helpOn topNames arguments
  | _ => .error (.wrong ("unrecognized subcommand " ++ name))

/-- Reads the arguments. -/
def parse (arguments : List String) : Except Usage Invocation := do
  let (name, rest, given) ← nextName true arguments
  let (command, inner) ← topCommand name rest
  let given := inner ++ given
  return {
    dir := given.lookup "dir"
    config := (given.lookup "config").getD "jsonboard.toml"
    command }

end JsonShelf.CommandLine
