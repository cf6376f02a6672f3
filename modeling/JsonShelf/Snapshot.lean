/-
**Output without its times.**

Two runs of the same work differ in the times they tell.  Output is compared after a fixed word has
taken the place of each of them.

Main definitions:

* `Snapshot.maskTimes` — a document without the times of change in it;
* `Snapshot.maskGenerationTime` — a generated module without the time of its generation.
-/

import JsonShelf.Json.Basic
import JsonShelf.Text.Blank
import JsonShelf.Text.Layout

set_option autoImplicit false

namespace JsonShelf.Snapshot

/-- The word that stands for a time. -/
def placeholder : String := "__TIMESTAMP__"

/-- The name of the member that tells a time of change. -/
def timeMember : String := "lastModified"

mutual

/-- The value with the placeholder for every time of change, at any depth.  A null time stays. -/
def maskTimes : Json → Json
  | .array items => .array (maskItems items)
  | .object members => .object (maskMembers members)
  | .null => .null
  | .bool value => .bool value
  | .number value => .number value
  | .string value => .string value

/-- `Snapshot.maskTimes` on each item. -/
def maskItems : List Json → List Json
  | [] => []
  | item :: rest => maskTimes item :: maskItems rest

/-- `Snapshot.maskTimes` on each member, with the placeholder for the value of one that tells a
time. -/
def maskMembers : List (String × Json) → List (String × Json)
  | [] => []
  | (key, value) :: rest =>
    (key, if key = timeMember ∧ value ≠ .null then .string placeholder else maskTimes value) ::
      maskMembers rest

end

/-- What stands before the time of generation in the head of a module. -/
def generationMark : String := "* Generated on:"

/-- Does the line tell the time of generation? -/
def tellsGenerationTime (line : String) : Bool :=
  generationMark.toList.isPrefixOf (line.toList.dropWhile Text.isBlank)

/-- The line with the placeholder for the time of generation. -/
def maskLine (line : String) : String :=
  if tellsGenerationTime line then " " ++ generationMark ++ " " ++ placeholder else line

/-- The module with the placeholder for the time of its generation. -/
def maskGenerationTime (text : String) : String :=
  "\n".intercalate ((Text.lines text).map maskLine) ++ if Text.endsInNewline text then "\n" else ""

end JsonShelf.Snapshot
