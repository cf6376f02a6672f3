/-
**Reading glob patterns.**

Main definitions:

* `Glob.Fault`, `Glob.PatternError` — why a text is no pattern, with the wording;
* `Glob.Pattern.parse` — the pattern that a text writes.
-/

import JsonShelf.Glob.Basic

set_option autoImplicit false

namespace JsonShelf.Glob

/-- Why a text is no pattern. -/
inductive Fault where
  | unclosedClass
  | invalidRange (low high : Char)
  | unclosedAlternates
  | unopenedAlternates
  | danglingEscape
  deriving DecidableEq, Repr

/-- The wording of a fault. -/
def Fault.message : Fault → String
  | unclosedClass => "unclosed character class; missing ']'"
  | invalidRange low high =>
    "invalid range; '" ++ String.singleton low ++ "' > '" ++ String.singleton high ++ "'"
  | unclosedAlternates =>
    "unclosed alternate group; missing '\x7d' (maybe escape '\x7b' with '[\x7b]'?)"
  | unopenedAlternates =>
    "unopened alternate group; missing '\x7b' (maybe escape '\x7d' with '[\x7d]'?)"
  | danglingEscape => "dangling '\\'"

/-- A fault in a text that was to be a pattern. -/
structure PatternError where
  text : String
  fault : Fault
  deriving DecidableEq, Repr

/-- The wording of a refusal. -/
def PatternError.message (e : PatternError) : String :=
  "error parsing glob '" ++ e.text ++ "': " ++ e.fault.message

/-! ### Classes -/

/-- The ranges with the last one ended at a character. -/
def endRange (ranges : List (Char × Char)) (high : Char) : Except Fault (List (Char × Char)) :=
  match ranges with
  | (low, _) :: rest =>
    if high < low then .error (.invalidRange low high) else .ok ((low, high) :: rest)
  | [] => .ok []

/-- The ranges of a class up to its closing bracket.  Those read so far come with the last one
first; a bracket or hyphen at the start stands for itself, and so does a hyphen at the end. -/
def classRanges (ranges : List (Char × Char)) (isFirst inRange : Bool) :
    List Char → Except Fault (List (Char × Char) × List Char)
  | [] => .error .unclosedClass
  | c :: rest =>
    if c = ']' && !isFirst then
      .ok ((if inRange then ('-', '-') :: ranges else ranges).reverse, rest)
    else if c = '-' && !isFirst && !inRange then
      classRanges ranges false true rest
    else if inRange && c != ']' then
      -- the character ends the range that the last one began
      match endRange ranges c with
      | .ok ranges => classRanges ranges false false rest
      | .error fault => .error fault
    else
      classRanges ((c, c) :: ranges) false false rest

/-- A class after its opening bracket. -/
def classPart (cs : List Char) : Except Fault (Part × List Char) :=
  let (negated, rest) := match cs with
    | '!' :: rest | '^' :: rest => (true, rest)
    | _ => (false, cs)
  (classRanges [] true false rest).map fun (ranges, rest) => (.oneOf negated ranges, rest)

/-! ### Patterns -/

/-- A group of alternates that has been opened: its finished branches, and the parts before it. -/
structure OpenGroup where
  branches : List (List Part)
  before : List Part

/-- What has been read: the parts of the branch being read, the last one first, and the groups
around it, the innermost first. -/
structure Progress where
  parts : List Part
  groups : List OpenGroup

namespace Progress

/-- One more part. -/
def push (p : Progress) (part : Part) : Progress :=
  { p with parts := part :: p.parts }

/-- A new group. -/
def openGroup (p : Progress) : Progress :=
  ⟨[], ⟨[], p.parts⟩ :: p.groups⟩

/-- A comma: it stands for itself outside a group, and begins the next branch inside one. -/
def comma (p : Progress) : Progress :=
  match p.groups with
  | [] => p.push (.literal ',')
  | group :: outer =>
    ⟨[], { group with branches := group.branches ++ [p.parts.reverse] } :: outer⟩

/-- The end of a group. -/
def closeGroup (p : Progress) : Except Fault Progress :=
  match p.groups with
  | [] => .error .unopenedAlternates
  | group :: outer =>
    .ok ⟨.alternates (group.branches ++ [p.parts.reverse]) :: group.before, outer⟩

/-- Two stars after a part, where they stand for directories: at the end, or before a slash.  They
take the place of the part before them, which is the slash, unless that stood for directories
already. -/
def directories (p : Progress) (atEnd : Bool) : Progress :=
  match p.parts with
  | .leadingDirs :: _ | .trailingPath :: _ => p
  | _ :: before => { p with parts := (if atEnd then .trailingPath else .innerDirs) :: before }
  | [] => p

/-- Two stars that stand for any bytes. -/
def twoStars (p : Progress) : Progress :=
  (p.push .anyBytes).push .anyBytes

/-- Two stars after the character `previous`; with the character read last and what is left. -/
def doubleStar (p : Progress) (previous : Option Char) (rest : List Char) :
    Progress × Char × List Char :=
  if p.parts.isEmpty then
    -- at the front of the pattern or of a branch
    match rest with
    | [] => (p.push .leadingDirs, '*', [])
    | '/' :: rest => (p.push .leadingDirs, '/', rest)
    | _ => (p.twoStars, '*', rest)
  else if previous = some '/' ||
      (!p.groups.isEmpty && (previous = some ',' || previous = some '\x7b')) then
    -- a whole name between slashes, if what follows agrees
    match rest with
    | [] => (p.directories true, '*', [])
    | c :: after =>
      if !p.groups.isEmpty && (c = ',' || c = '\x7d') then (p.directories true, '*', rest)
      else if c = '/' then (p.directories false, '/', after)
      else (p.twoStars, '*', rest)
  else
    (p.twoStars, '*', rest)

end Progress

/-- Reads the parts of a pattern, given the character read last; `bound` is at least the number of
characters left. -/
def readParts : Nat → Progress → Option Char → List Char → Except Fault Progress
  | 0, p, _, _ | _, p, _, [] => .ok p
  | bound + 1, p, previous, c :: rest =>
    match c with
    | '?' => readParts bound (p.push .anyByte) (some c) rest
    | '*' =>
      match rest with
      | '*' :: after =>
        let (p, last, left) := p.doubleStar previous after
        readParts bound p (some last) left
      | _ => readParts bound (p.push .anyBytes) (some c) rest
    | '[' =>
      match classPart rest with
      | .ok (part, left) => readParts bound (p.push part) (some ']') left
      | .error fault => .error fault
    | '\x7b' => readParts bound p.openGroup (some c) rest
    | '\x7d' =>
      match p.closeGroup with
      | .ok p => readParts bound p (some c) rest
      | .error fault => .error fault
    | ',' => readParts bound p.comma (some c) rest
    | '\\' =>
      match rest with
      | [] => .error .danglingEscape
      | d :: left => readParts bound (p.push (.literal d)) (some d) left
    | _ => readParts bound (p.push (.literal c)) (some c) rest

/-- The pattern that a text writes. -/
def Pattern.parse (text : String) : Except PatternError Pattern :=
  match readParts text.toList.length ⟨[], []⟩ none text.toList with
  | .error fault => .error ⟨text, fault⟩
  | .ok p =>
    if p.groups.isEmpty then .ok ⟨text, p.parts.reverse⟩
    else .error ⟨text, .unclosedAlternates⟩

end JsonShelf.Glob
