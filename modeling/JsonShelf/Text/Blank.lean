/-
**Blank characters.**

The characters that carry the Unicode property White_Space, and the text left when they are cut
from the ends of a string.

Main definitions:

* `Text.isBlank` — the property, as a table of code points;
* `Text.trimStart`, `Text.trimEnd`, `Text.trim` — a string without its leading and trailing blanks.

Main results:

* `Text.isBlank_of_isWhitespace` — the table covers the blanks of ASCII.
-/

set_option autoImplicit false

namespace JsonShelf.Text

/-- The code points with the property White_Space. -/
def isBlank (c : Char) : Bool :=
  let n := c.toNat
  (9 ≤ n && n ≤ 13) || n == 0x20 || n == 0x85 || n == 0xA0 || n == 0x1680 ||
    (0x2000 ≤ n && n ≤ 0x200A) || n == 0x2028 || n == 0x2029 || n == 0x202F || n == 0x205F ||
    n == 0x3000

theorem isBlank_of_isWhitespace (c : Char) (h : c.isWhitespace = true) : isBlank c = true := by
  simp only [Char.isWhitespace, Bool.or_eq_true, decide_eq_true_eq] at h
  rcases h with ((rfl | rfl) | rfl) | rfl <;> rfl

/-- The string without its leading blanks. -/
def trimStart (s : String) : String :=
  String.ofList (s.toList.dropWhile isBlank)

/-- The string without its trailing blanks. -/
def trimEnd (s : String) : String :=
  String.ofList (s.toList.reverse.dropWhile isBlank).reverse

/-- The string without the blanks at either end. -/
def trim (s : String) : String :=
  trimEnd (trimStart s)

/-- A string of blanks only, the empty one among them. -/
def isAllBlank (s : String) : Bool :=
  s.toList.all isBlank

end JsonShelf.Text
