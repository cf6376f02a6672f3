/-
**Laying out text.**

Pieces and lines of a string, and columns filled with spaces to a width counted in characters.

Main definitions:

* `Text.split` — the pieces between separating characters;
* `Text.lines`, `Text.endsInNewline` — the lines of a text, each without its line end;
* `Text.lined` — a text made of lines;
* `Text.padEnd`, `Text.padStart` — a column filled with spaces after or before its content.

Main results:

* `Text.length_padEnd`, `Text.length_padStart` — a column is as wide as asked, or as its content.
-/

set_option autoImplicit false

namespace JsonShelf.Text

/-- The pieces of `s` between the characters that satisfy `isSeparator`; never empty. -/
def split (isSeparator : Char → Bool) (s : String) : List String :=
  (s.toList.splitOnP isSeparator).map String.ofList

/-- Does the text end in a line feed? -/
def endsInNewline (s : String) : Bool :=
  s.toList.getLast? == some '\n'

/-- A line without the carriage return that may precede its line feed. -/
def withoutReturn (line : List Char) : List Char :=
  if line.getLast? = some '\r' then line.dropLast else line

/-- The lines of a text: what stands before each line feed, less one carriage return right before
it, and what follows the last line feed unless that is empty. -/
def lines (s : String) : List String :=
  let pieces := s.toList.splitOnP (· == '\n')
  let ended := pieces.dropLast.map withoutReturn
  (match pieces.getLast? with
    | none | some [] => ended
    | some rest => ended ++ [rest]).map String.ofList

/-- Lines of text, each with its line end. -/
def lined (lines : List String) : String :=
  String.join (lines.map (· ++ "\n"))

/-- `n` spaces. -/
def spaces (n : Nat) : String :=
  String.ofList (List.replicate n ' ')

@[simp] theorem toList_spaces (n : Nat) : (spaces n).toList = List.replicate n ' ' :=
  String.toList_ofList

/-- The string followed by the spaces that fill it up to `width` characters. -/
def padEnd (width : Nat) (s : String) : String :=
  s ++ spaces (width - s.length)

/-- The string preceded by the spaces that fill it up to `width` characters. -/
def padStart (width : Nat) (s : String) : String :=
  spaces (width - s.length) ++ s

theorem length_padEnd (width : Nat) (s : String) :
    (padEnd width s).length = max width s.length := by
  simp only [padEnd, ← String.length_toList, String.toList_append, toList_spaces,
    List.length_append, List.length_replicate]
  omega

theorem length_padStart (width : Nat) (s : String) :
    (padStart width s).length = max width s.length := by
  simp only [padStart, ← String.length_toList, String.toList_append, toList_spaces,
    List.length_append, List.length_replicate]
  omega

end JsonShelf.Text
