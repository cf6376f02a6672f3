/-
**Positions in a text.**

A position is a line, counted from one, and the number of bytes of that line that stand before it.

Main definitions:

* `Text.byteLength` — how many bytes the UTF-8 form of some characters takes;
* `Text.Position`, `Text.positionAt` — the position after a number of bytes.
-/

set_option autoImplicit false

namespace JsonShelf.Text

/-- The length of the UTF-8 form in bytes. -/
def byteLength (cs : List Char) : Nat :=
  cs.foldr (fun c length => c.utf8Size + length) 0

@[simp] theorem byteLength_nil : byteLength [] = 0 := rfl

@[simp] theorem byteLength_cons (c : Char) (cs : List Char) :
    byteLength (c :: cs) = c.utf8Size + byteLength cs := rfl

@[simp] theorem byteLength_append (cs ds : List Char) :
    byteLength (cs ++ ds) = byteLength cs + byteLength ds := by
  induction cs with
  | nil => simp
  | cons c cs ih => simp [ih, Nat.add_assoc]

/-- A line, counted from one, and a number of bytes on it. -/
structure Position where
  line : Nat
  column : Nat
  deriving DecidableEq, Repr

/-- The position `count` bytes after `start`; the count may end inside a character. -/
def Position.advance (start : Position) : Nat → List Char → Position
  | _, [] => start
  | count, c :: rest =>
    if count < c.utf8Size then { start with column := start.column + count }
    else if c = '\n' then advance ⟨start.line + 1, 0⟩ (count - 1) rest
    else advance { start with column := start.column + c.utf8Size } (count - c.utf8Size) rest

/-- The position after the first `count` bytes of a text. -/
def positionAt (cs : List Char) (count : Nat) : Position :=
  Position.advance ⟨1, 0⟩ count cs

end JsonShelf.Text
