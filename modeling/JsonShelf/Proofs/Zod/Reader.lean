/-
**Reading generated code.**

The text of an expression is a piece of a program, and is read by the rules of the language that it
is written in: names, string literals, calls, array literals and object literals, with space between
any two of them.  Nothing is taken from the way in which the text was written, so what is read says
what the text means there.

Each reader takes the space after what it reads, so that the next one begins at a character.

Main definitions:

* `Zod.readName?`, `Zod.readLiteral?` — names and string literals;
* `Zod.readItems` — items with commas between them;
* `Zod.PropertyName`, `Zod.readObject` — object literals, whose names are plain or computed;
* `Zod.read?`, `Zod.ofText?` — the expression that a text writes.

Main results:

* `Zod.readLiteral?_literal` — **a written literal is the string that it was written for**;
* `Zod.readPropertyName?_key` — a written key is the plain name that it was written for;
* `Zod.readItems_flatMap` — items are read one after the other.
-/

import JsonShelf.Proofs.Zod.Literals
import JsonShelf.Proofs.Zod.Parts

set_option autoImplicit false

namespace JsonShelf.Zod

variable {c d close : Char} {cs r stop rest space : List Char} {bound : ℕ} {name : String}

/-! ### Tokens -/

/-- Is it space between tokens? -/
def isSpace (c : Char) : Bool :=
  c == ' ' || c == '\n' || c == '\t' || c == '\r'

/-- The text without the space at its start. -/
def skip (cs : List Char) : List Char :=
  cs.dropWhile isSpace

/-- What follows a character. -/
def expect? (c : Char) : List Char → Option (List Char)
  | [] => none
  | d :: rest => if d = c then some (skip rest) else none

/-- A name and what follows it. -/
def readName? (cs : List Char) : Option (String × List Char) :=
  let name := cs.takeWhile continuesIdentifier
  if isIdentifier name then
    some (String.ofList name, skip (cs.dropWhile continuesIdentifier))
  else none

/-- The characters of a string literal after its first quote, and what follows it. -/
def readString? : ℕ → List Char → Option (List Char × List Char)
  | 0, _ => none
  | bound + 1, cs =>
    match unescape? cs with
    | some (c, rest) => (readString? bound rest).map fun (read, rest) => (c :: read, rest)
    | none => (expect? '\'' cs).map fun rest => ([], rest)

/-- A string literal and what follows it. -/
def readLiteral? : List Char → Option (String × List Char)
  | '\'' :: rest =>
    (readString? rest.length rest).map fun (read, rest) => (String.ofList read, rest)
  | _ => none

/-! ### Literals with parts -/

/-- Items with commas between them up to the character that closes the list, and what follows. -/
def readItems {α : Type} (readItem : List Char → Option (α × List Char)) (close : Char) :
    ℕ → List Char → Option (List α × List Char)
  | 0, _ => none
  | bound + 1, cs =>
    match expect? close cs with
    | some rest => some ([], rest)
    | none => do
      let (item, rest) ← readItem cs
      match expect? ',' rest with
      | some rest => do
        let (items, rest) ← readItems readItem close bound rest
        return (item :: items, rest)
      | none => return ([item], ← expect? close rest)

/-- The name of a property in an object literal: an identifier or a string, or a string in brackets,
which is computed. -/
structure PropertyName where
  text : String
  isComputed : Bool
  deriving DecidableEq

/-- The name of a property. -/
def readPropertyName? (cs : List Char) : Option (PropertyName × List Char) :=
  if cs.head? = some '\'' then
    (readLiteral? cs).map fun (text, rest) => (⟨text, false⟩, rest)
  else if cs.head? = some '[' then do
    let (text, rest) ← readLiteral? (skip cs.tail)
    return (⟨text, true⟩, ← expect? ']' rest)
  else
    (readName? cs).map fun (text, rest) => (⟨text, false⟩, rest)

/-- A property of an object literal. -/
def readProperty? {α : Type} (readValue : List Char → Option (α × List Char)) (cs : List Char) :
    Option ((PropertyName × α) × List Char) := do
  let (name, rest) ← readPropertyName? cs
  let (value, rest) ← readValue (← expect? ':' rest)
  return ((name, value), rest)

/-- The properties of an object literal, and what follows it. -/
def readObject {α : Type} (readValue : List Char → Option (α × List Char)) (bound : ℕ)
    (cs : List Char) : Option (List (PropertyName × α) × List Char) := do
  readItems (readProperty? readValue) '\x7d' bound (← expect? '\x7b' cs)

/-! ### Expressions -/

/-- The method that is called on the library, and what follows the opening parenthesis. -/
def readCall? (cs : List Char) : Option (String × List Char) := do
  let (library, rest) ← readName? cs
  guard (library = "z")
  let (method, rest) ← readName? (← expect? '.' rest)
  return (method, ← expect? '(' rest)

/-- Is the number marked as whole?  With what follows the mark. -/
def readMark (cs : List Char) : Bool × List Char :=
  let marked := do
    let (method, rest) ← readName? (← expect? '.' cs)
    guard (method = "int")
    expect? ')' (← expect? '(' rest)
  match marked with
  | some rest => (true, rest)
  | none => (false, cs)

/-- The expression that a method without arguments makes. -/
def ofMethod? : String → Option Zod
  | "null" => some null
  | "undefined" => some undefined
  | "unknown" => some unknown
  | "string" => some string
  | "boolean" => some boolean
  | _ => none

/-- The expression that a method makes of its arguments, and what follows it. -/
def readArguments? (readValue : List Char → Option (Zod × List Char)) (bound : ℕ) (method : String)
    (cs : List Char) : Option (Zod × List Char) := do
  if method = "number" then
    let (isWhole, rest) := readMark (← expect? ')' cs)
    return (number isWhole, rest)
  else if method = "array" then
    let (element, rest) ← readValue cs
    return (array element, ← expect? ')' rest)
  else if method = "object" then
    let (properties, rest) ← readObject readValue bound cs
    return (object (properties.map fun property => (property.1.text, property.2)),
      ← expect? ')' rest)
  else if method = "union" then
    let (members, rest) ← readItems readValue ']' bound (← expect? '[' cs)
    return (union members, ← expect? ')' rest)
  else
    return (← ofMethod? method, ← expect? ')' cs)

/-- The expression at the start of a text, and what follows it; `bound` bounds how deep it nests and
how many parts each of its lists has. -/
def read? : ℕ → List Char → Option (Zod × List Char)
  | 0, _ => none
  | bound + 1, cs => do
    let (method, rest) ← readCall? cs
    readArguments? (read? bound) bound method rest

/-- The expression that a text writes. -/
def ofText? (text : List Char) : Option Zod :=
  match read? text.length text with
  | some (value, []) => some value
  | _ => none

/-! ### Tokens are read -/

theorem skip_cons (h : isSpace c = false) (cs : List Char) : skip (c :: cs) = c :: cs := by
  simp [skip, h]

theorem skip_append (hspace : ∀ c ∈ space, isSpace c = true) (cs : List Char) :
    skip (space ++ cs) = skip cs :=
  List.dropWhile_append_of_pos hspace

theorem expect?_self (c : Char) (cs : List Char) : expect? c (c :: cs) = some (skip cs) :=
  if_pos rfl

theorem expect?_of_ne (h : d ≠ c) (cs : List Char) : expect? c (d :: cs) = none :=
  if_neg h

theorem expect?_point (h : Follows cs) : expect? '.' cs = none := by
  cases cs with
  | nil => rfl
  | cons c cs =>
      refine expect?_of_ne ?_ cs
      rintro rfl
      exact h rfl

/-- A name ends where something follows that does not continue it. -/
theorem readName?_append (h : isIdentifier cs = true) (hd : continuesIdentifier d = false)
    (rest : List Char) :
    readName? (cs ++ d :: rest) = some (String.ofList cs, skip (d :: rest)) := by
  have hall := continues_of_isIdentifier h
  have htake : (cs ++ d :: rest).takeWhile continuesIdentifier = cs := by
    simp [List.takeWhile_append_of_pos hall, hd]
  have hdrop : (cs ++ d :: rest).dropWhile continuesIdentifier = d :: rest := by
    simp [List.dropWhile_append_of_pos hall, hd]
  simp only [readName?, htake, hdrop, h, if_true]

theorem length_le_body (cs : List Char) : cs.length ≤ (body cs).length := by
  induction cs with
  | nil => exact Nat.le_refl _
  | cons c cs ih =>
      have hpos : 1 ≤ (escaped c).length := by
        rcases escaped_cases c with ⟨letter, -, -, h⟩ | ⟨-, h⟩ | ⟨-, -, -, h⟩ <;> simp [h]
      simp only [body, List.flatMap_cons, List.length_append, List.length_cons] at ih ⊢
      omega

/-- A string is read to its closing quote. -/
theorem readString?_body (hb : cs.length < bound) (r : List Char) :
    readString? bound (body cs ++ '\'' :: r) = some (cs, skip r) := by
  induction cs generalizing bound with
  | nil =>
      obtain ⟨b, rfl⟩ : ∃ b, bound = b + 1 := ⟨bound - 1, by omega⟩
      rfl
  | cons c cs ih =>
      obtain ⟨b, rfl⟩ : ∃ b, bound = b + 1 := ⟨bound - 1, by omega⟩
      rw [List.length_cons] at hb
      rw [readString?, unescape?_body_append]
      simp only
      rw [ih (by omega)]
      rfl

/-- A written literal is the string that it was written for. -/
theorem readLiteral?_literal (name : String) (r : List Char) :
    readLiteral? (literal name ++ r) = some (name, skip r) := by
  have hlength := length_le_body name.toList
  have hread : readString? (body name.toList ++ '\'' :: r).length (body name.toList ++ '\'' :: r) =
      some (name.toList, skip r) := by
    refine readString?_body ?_ r
    simp only [List.length_append, List.length_cons]
    omega
  have htext : literal name ++ r = '\'' :: (body name.toList ++ '\'' :: r) := by simp [literal]
  rw [htext, readLiteral?, hread, Option.map_some]
  simp

/-- Two strings have different literals. -/
theorem literal_injective : Function.Injective literal := by
  intro a b h
  have hread := readLiteral?_literal a []
  rw [h, readLiteral?_literal, Option.some.injEq, Prod.mk.injEq] at hread
  exact hread.1.symm

/-! ### Names of properties are read -/

/-- A key begins like an identifier or with a quote. -/
theorem exists_cons_key (name : String) :
    ∃ c cs, key name = c :: cs ∧ (beginsIdentifier c = true ∨ c = '\'') := by
  rcases key_eq_or name with ⟨hident, hkey⟩ | hkey
  · cases hname : name.toList with
    | nil =>
        rw [hname] at hident
        cases hident
    | cons first others =>
        rw [hname, isIdentifier, Bool.and_eq_true] at hident
        exact ⟨first, others, hkey.trans hname, .inl hident.1⟩
  · exact ⟨'\'', _, hkey, .inr rfl⟩

/-- A written key is the plain name that it was written for. -/
theorem readPropertyName?_key (name : String) (r : List Char) :
    readPropertyName? (key name ++ ':' :: r) = some (⟨name, false⟩, ':' :: r) := by
  have hcolon : skip (':' :: r) = ':' :: r := skip_cons rfl r
  rcases key_eq_or name with ⟨hident, hkey⟩ | hkey
  · have hread := readName?_append hident (d := ':') rfl r
    obtain ⟨c, cs, htext, hc⟩ := exists_cons_key name
    rw [hkey] at htext
    have hbegins : beginsIdentifier c = true := by
      rw [htext, isIdentifier, Bool.and_eq_true] at hident
      exact hident.1
    have hquote : c ≠ '\'' := by
      rintro rfl
      cases hbegins
    have hbracket : c ≠ '[' := by
      rintro rfl
      cases hbegins
    rw [hcolon, String.ofList_toList] at hread
    rw [hkey, readPropertyName?, hread, htext]
    simp [hquote, hbracket]
  · rw [hkey, readPropertyName?, readLiteral?_literal, hcolon]
    rfl

/-! ### Lists are read -/

section Items

variable {α β : Type} {readItem : List Char → Option (β × List Char)} {first : β} {others : List β}

theorem readItems_close (close : Char) (rest : List Char) :
    readItems readItem close (bound + 1) (close :: rest) = some ([], skip rest) := by
  rw [readItems, expect?_self]

theorem readItems_last (hopen : expect? close cs = none) (hcomma : close ≠ ',')
    (hread : readItem cs = some (first, close :: rest)) :
    readItems readItem close (bound + 1) cs = some ([first], skip rest) := by
  rw [readItems, hopen]
  simp only [hread, Option.bind_eq_bind, Option.bind_some, expect?_of_ne hcomma, expect?_self]
  rfl

theorem readItems_comma (hopen : expect? close cs = none)
    (hread : readItem cs = some (first, ',' :: r))
    (hothers : readItems readItem close bound (skip r) = some (others, rest)) :
    readItems readItem close (bound + 1) cs = some (first :: others, rest) := by
  rw [readItems, hopen]
  simp only [hread, Option.bind_eq_bind, Option.bind_some, expect?_self, hothers]
  rfl

/-- Items are read one after the other, up to the character that closes the list. -/
theorem readItems_flatMap {text : α → List Char} {item : α → β}
    (hspace : ∀ c ∈ space, isSpace c = true) (hstop : skip stop = close :: rest)
    (hcomma : close ≠ ',') (hpoint : close ≠ '.') {x : α} {xs : List α}
    (htext : ∀ y ∈ x :: xs, ∃ c cs, text y = c :: cs ∧ isSpace c = false ∧ c ≠ close)
    (hread : ∀ y ∈ x :: xs, ∀ r, Follows (skip r) → readItem (text y ++ r) = some (item y, skip r))
    (hb : xs.length < bound) :
    readItems readItem close bound
        (text x ++ (xs.flatMap (fun y => ',' :: (space ++ text y)) ++ stop)) =
      some ((x :: xs).map item, skip rest) := by
  induction xs generalizing x bound with
  | nil =>
      obtain ⟨b, rfl⟩ : ∃ b, bound = b + 1 := ⟨bound - 1, by omega⟩
      obtain ⟨c, cs, hx, -, hc⟩ := htext x List.mem_cons_self
      have hlast := hread x List.mem_cons_self stop (hstop ▸ follows_cons hpoint rest)
      rw [hstop] at hlast
      refine readItems_last ?_ hcomma hlast
      rw [hx]
      exact expect?_of_ne hc _
  | cons y ys ih =>
      obtain ⟨b, rfl⟩ : ∃ b, bound = b + 1 := ⟨bound - 1, by omega⟩
      rw [List.length_cons] at hb
      obtain ⟨⟨c, cs, hx, -, hc⟩, htexts⟩ := List.forall_mem_cons.1 htext
      obtain ⟨hreadx, hreads⟩ := List.forall_mem_cons.1 hread
      obtain ⟨d, ds, hy, hd, -⟩ := htexts y List.mem_cons_self
      have hothers := ih htexts hreads (by omega : ys.length < b)
      have hlist : (y :: ys).flatMap (fun y => ',' :: (space ++ text y)) ++ stop =
          ',' :: (space ++
            (text y ++ (ys.flatMap (fun y => ',' :: (space ++ text y)) ++ stop))) := by
        simp
      rw [hlist]
      generalize ys.flatMap (fun y => ',' :: (space ++ text y)) ++ stop = after at hothers ⊢
      have hnext : skip (space ++ (text y ++ after)) = text y ++ after := by
        rw [skip_append hspace, hy]
        exact skip_cons hd _
      have hfirst := hreadx (',' :: (space ++ (text y ++ after))) (follows_cons (by decide) _)
      refine readItems_comma ?_ hfirst ?_
      · rw [hx]
        exact expect?_of_ne hc _
      · rw [hnext]
        exact hothers

end Items

end JsonShelf.Zod
