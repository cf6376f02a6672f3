/-
**Glob patterns.**

A pattern is a list of parts, and matches a text if its parts match successive pieces of the bytes
of the text.  Matching follows the rests that are left when a part has matched a piece at the
front.

Main definitions:

* `Glob.Part` — the parts of a pattern;
* `Glob.Part.rests`, `Glob.restsOfAll` — what may be left after a part, and after several;
* `Glob.Pattern`, `Glob.Pattern.isMatch` — a pattern, and whether it matches a whole text.
-/

set_option autoImplicit false

namespace JsonShelf.Glob

/-- The bytes of a text. -/
abbrev Bytes := List UInt8

/-- A part of a pattern. -/
inductive Part where
  /-- A character that stands for itself. -/
  | literal (c : Char)
  /-- Any byte. -/
  | anyByte
  /-- Any bytes. -/
  | anyBytes
  /-- Two stars and a slash at the front: nothing, or anything that ends in a slash. -/
  | leadingDirs
  /-- A slash and two stars at the end: a slash and anything after it. -/
  | trailingPath
  /-- Two stars between slashes: a slash, or anything between two slashes. -/
  | innerDirs
  /-- A byte in, or not in, some ranges of characters. -/
  | oneOf (negated : Bool) (ranges : List (Char × Char))
  /-- One of several lists of parts. -/
  | alternates (branches : List (List Part))

/-- The byte of a slash. -/
def slash : UInt8 := 0x2f

/-- The ranges of bytes in a range of characters.  A character of several bytes is a set of single
bytes; only the last byte of the first character and the first byte of the last one are the ends of
a range. -/
def byteRanges (range : Char × Char) : List (UInt8 × UInt8) :=
  let (a, b) := range
  let single (bytes : Bytes) := bytes.map fun x => (x, x)
  let low := String.utf8EncodeChar a
  if a = b then single low
  else
    let high := String.utf8EncodeChar b
    single low.dropLast ++ (low.getLast?.toList.zip high.head?.toList) ++ single high.tail

/-- Is the byte in one of the ranges? -/
def inRanges (ranges : List (Char × Char)) (x : UInt8) : Bool :=
  (ranges.flatMap byteRanges).any fun (low, high) => low ≤ x && x ≤ high

/-- What is left after each slash. -/
def afterSlashes : Bytes → List Bytes
  | [] => []
  | x :: rest => if x = slash then rest :: afterSlashes rest else afterSlashes rest

/-- The ends of the bytes, from all of them to none. -/
def ends : Bytes → List Bytes
  | [] => [[]]
  | x :: rest => (x :: rest) :: ends rest

/-- What is left after a slash at the front. -/
def afterSlash : Bytes → Option Bytes
  | [] => none
  | x :: rest => if x = slash then some rest else none

/-- What is left after some bytes at the front. -/
def afterBytes : Bytes → Bytes → Option Bytes
  | [], rest => some rest
  | _ :: _, [] => none
  | x :: bytes, y :: rest => if x = y then afterBytes bytes rest else none

/-- What is left after one byte of a kind. -/
def afterByte (isKind : UInt8 → Bool) : Bytes → List Bytes
  | [] => []
  | x :: rest => if isKind x then [rest] else []

mutual

/-- Does the part match only the empty text for want of anything to match? -/
def Part.isVoid : Part → Bool
  | .alternates branches => allVoid branches
  | .literal _ | .anyByte | .anyBytes | .leadingDirs | .trailingPath | .innerDirs | .oneOf .. =>
    false

/-- Are all parts of a branch void? -/
def branchIsVoid : List Part → Bool
  | [] => true
  | part :: rest => part.isVoid && branchIsVoid rest

/-- Are all branches void? -/
def allVoid : List (List Part) → Bool
  | [] => true
  | branch :: rest => branchIsVoid branch && allVoid rest

end

mutual

/-- What may be left of the bytes after a piece at the front that the part matches.  A branch that
is void does not count, but if all are, the part matches the empty text. -/
def Part.rests : Part → Bytes → List Bytes
  | .literal c, bytes => (afterBytes (String.utf8EncodeChar c) bytes).toList
  | .anyByte, bytes => afterByte (fun _ => true) bytes
  | .anyBytes, bytes => ends bytes
  | .leadingDirs, bytes => bytes :: afterSlashes bytes
  | .trailingPath, bytes => (afterSlash bytes).toList.flatMap ends
  | .innerDirs, bytes =>
    (afterSlash bytes).toList.flatMap fun rest => rest :: afterSlashes rest
  | .oneOf negated ranges, bytes => afterByte (fun x => inRanges ranges x != negated) bytes
  | .alternates branches, bytes =>
    if allVoid branches then [bytes] else restsOfAny branches bytes

/-- What may be left of some bytes, each tried, after successive pieces that the parts match. -/
def restsOfAll : List Part → List Bytes → List Bytes
  | [], lefts => lefts
  | part :: rest, lefts => restsOfAll rest (lefts.flatMap fun left => part.rests left).eraseDups

/-- What may be left after pieces that the parts of one branch match. -/
def restsOfAny : List (List Part) → Bytes → List Bytes
  | [], _ => []
  | branch :: rest, bytes =>
    if branchIsVoid branch then restsOfAny rest bytes
    else restsOfAll branch [bytes] ++ restsOfAny rest bytes

end

/-- A pattern, with the text it was written as. -/
structure Pattern where
  text : String
  parts : List Part

/-- Is the pattern two stars and nothing else? -/
def Pattern.isAll (pattern : Pattern) : Bool :=
  match pattern.parts with
  | [.leadingDirs] => true
  | _ => false

/-- Does the pattern match the whole text?  Two stars alone match every text. -/
def Pattern.isMatch (pattern : Pattern) (text : String) : Bool :=
  pattern.isAll || (restsOfAll pattern.parts [text.toUTF8.toList]).contains []

end JsonShelf.Glob
