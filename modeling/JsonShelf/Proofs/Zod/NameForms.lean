/-
**The form of the names in a module.**

A name is an identifier in camel case with the word `Schema` after it, and perhaps a mark: the
fingerprint of a path after an underscore.  Whatever the path, it is made of ASCII letters, digits
and underscores, and so are the names of the function and the type that go with it.  How such an
identifier ends says where it comes from, so most clashes are ruled out by looking at the end.

Main definitions:

* `Zod.IsName` — identifiers of ASCII letters, digits and underscores;
* `Zod.IsMark` — eight lower-case hexadecimal digits;
* `Zod.IsFormed` — the names that documents can get;
* `Zod.Ends` — an ending of a name that tells it apart.

Main results:

* `Zod.IsFormed.isName` — names are identifiers;
* `Zod.isMark_fingerprint` — fingerprints are marks;
* `Zod.eq_of_shares` — **names that declare a common identifier end alike**;
* `Zod.notMem_reserved` — what a name declares is no fixed name of the module.
-/

import JsonShelf.Proofs.Text.Lines
import JsonShelf.Proofs.Zod.Literals
import JsonShelf.Zod.Names

set_option autoImplicit false

namespace JsonShelf.Zod

variable {a b name base mark ident text : String} {c : Char} {cs ds e f : List Char}

/-! ### Identifiers -/

/-- The characters are ASCII letters, digits and underscores, with no digit at the start. -/
structure IsName (cs : List Char) : Prop where
  first : ∃ c rest, cs = c :: rest ∧ (c.isAlpha = true ∨ c = '_')
  chars : ∀ c ∈ cs, c.isAlphanum = true ∨ c = '_'

theorem IsName.append (h : IsName cs) (hds : ∀ c ∈ ds, c.isAlphanum = true ∨ c = '_') :
    IsName (cs ++ ds) := by
  obtain ⟨c, rest, rfl, hc⟩ := h.first
  refine ⟨⟨c, rest ++ ds, rfl, hc⟩, ?_⟩
  intro d hd
  rcases List.mem_append.1 hd with hd | hd
  · exact h.chars d hd
  · exact hds d hd

/-- The capital of a letter is a letter, and a digit has none. -/
theorem isAlphanum_toUpper (h : c.isAlphanum = true) :
    c.toUpper.isAlphanum = true ∧ (c.isAlpha = true → c.toUpper.isAlpha = true) := by
  have hall : ∀ n : Fin 128, (Char.ofNat n).isAlphanum = true →
      (Char.ofNat n).toUpper.isAlphanum = true ∧
        ((Char.ofNat n).isAlpha = true → (Char.ofNat n).toUpper.isAlpha = true) := by
    decide +kernel
  have hlt : c.toNat < 128 := Nat.lt_trans (toNat_of_isAlphanum h).2 (by decide)
  have := hall ⟨c.toNat, hlt⟩
  rw [Char.ofNat_toNat] at this
  exact this h

theorem forall_mem_capitalize (h : ∀ c ∈ cs, c.isAlphanum = true) :
    ∀ c ∈ capitalize cs, c.isAlphanum = true := by
  cases cs with
  | nil => exact nofun
  | cons first rest =>
      obtain ⟨hfirst, hrest⟩ := List.forall_mem_cons.1 h
      exact List.forall_mem_cons.2 ⟨(isAlphanum_toUpper hfirst).1, hrest⟩

theorem isAlphanum_of_isAlpha (h : c.isAlpha = true) : c.isAlphanum = true := by
  rw [Char.isAlphanum, h, Bool.true_or]

theorem IsName.capitalize (h : IsName cs) : IsName (capitalize cs) := by
  obtain ⟨c, rest, rfl, hc⟩ := h.first
  have hrest := (List.forall_mem_cons.1 h.chars).2
  rcases hc with hc | rfl
  · have hupper := (isAlphanum_toUpper (isAlphanum_of_isAlpha hc)).2 hc
    exact ⟨⟨c.toUpper, rest, rfl, .inl hupper⟩,
      List.forall_mem_cons.2 ⟨.inl (isAlphanum_of_isAlpha hupper), hrest⟩⟩
  · exact h

theorem isAlphanum_of_mem_segments {segment : List Char} (h : segment ∈ segments cs) :
    ∀ c ∈ segment, c.isAlphanum = true := by
  intro c hc
  have := (Text.mem_and_not_of_mem_splitOnP (List.mem_filter.1 h).1 c hc).2
  simpa using this

theorem isAlphanum_of_mem_camelCase (h : c ∈ camelCase (segments cs)) : c.isAlphanum = true := by
  have hall : ∀ segment ∈ segments cs, ∀ c ∈ segment, c.isAlphanum = true :=
    fun _ => isAlphanum_of_mem_segments
  revert h hall
  cases segments cs with
  | nil => exact nofun
  | cons first rest =>
      intro h hall
      obtain ⟨hfirst, hrest⟩ := List.forall_mem_cons.1 hall
      rcases List.mem_append.1 h with h | h
      · exact hfirst c h
      · obtain ⟨segment, hsegment, hc⟩ := List.mem_flatMap.1 h
        exact forall_mem_capitalize (hrest segment hsegment) c hc

/-- An identifier made from a text is empty or a name. -/
theorem identifier_cases (text : String) :
    identifier text = "" ∨ IsName (identifier text).toList := by
  have hall : ∀ c ∈ camelCase (segments text.toList), c.isAlphanum = true :=
    fun _ => isAlphanum_of_mem_camelCase
  unfold identifier
  revert hall
  cases camelCase (segments text.toList) with
  | nil => exact fun _ => .inl rfl
  | cons c rest =>
      intro hall
      have hchars : ∀ d ∈ c :: rest, d.isAlphanum = true ∨ d = '_' := fun d hd => .inl (hall d hd)
      refine .inr ?_
      rw [String.toList_ofList]
      split
      · exact ⟨⟨'_', c :: rest, rfl, .inr rfl⟩, List.forall_mem_cons.2 ⟨.inr rfl, hchars⟩⟩
      · next hdigit =>
        have hc := hall c List.mem_cons_self
        rw [Char.isAlphanum, Bool.or_eq_true] at hc
        exact ⟨⟨c, rest, rfl, .inl (hc.resolve_right hdigit)⟩, hchars⟩

/-! ### Names -/

/-- Eight lower-case hexadecimal digits. -/
structure IsMark (mark : String) : Prop where
  length : mark.toList.length = 8
  digits : ∀ c ∈ mark.toList, c ∈ "0123456789abcdef".toList

/-- A name that a document can get: a plain one, or a plain one with a mark. -/
def IsFormed (name : String) : Prop :=
  ∃ text, name = schemaName (identifier text) ∨
    ∃ mark, IsMark mark ∧ name = schemaName (identifier text) ++ "_" ++ mark

theorem toList_schemaName (base : String) :
    (schemaName base).toList = base.toList ++ "Schema".toList := by
  rw [schemaName, String.toList_append]

theorem toList_validatorName (name : String) :
    (validatorName name).toList = "validate".toList ++ capitalize name.toList := by
  simp only [validatorName, String.toList_append, String.toList_ofList]

theorem toList_typeName (name : String) :
    (typeName name).toList = capitalize name.toList ++ "Type".toList := by
  simp only [typeName, String.toList_append, String.toList_ofList]

theorem isName_schemaName (text : String) : IsName (schemaName (identifier text)).toList := by
  have hschema : IsName "Schema".toList :=
    ⟨⟨'S', "chema".toList, rfl, .inl rfl⟩, by simp⟩
  rw [toList_schemaName]
  rcases identifier_cases text with h | h
  · rw [h]
    exact hschema
  · exact h.append hschema.chars

theorem IsMark.chars (h : IsMark mark) : ∀ c ∈ mark.toList, c.isAlphanum = true ∨ c = '_' := by
  have hall : ∀ c ∈ "0123456789abcdef".toList, c.isAlphanum = true ∨ c = '_' := by simp
  intro c hc
  exact hall c (h.digits c hc)

/-- Names are identifiers. -/
theorem IsFormed.isName (h : IsFormed name) : IsName name.toList := by
  obtain ⟨text, rfl | ⟨mark, hmark, rfl⟩⟩ := h
  · exact isName_schemaName text
  · rw [String.toList_append, String.toList_append]
    exact ((isName_schemaName text).append (by simp)).append hmark.chars

theorem mem_declared :
    ident ∈ declared name ↔ ident = name ∨ ident = validatorName name ∨ ident = typeName name := by
  simp [declared]

theorem IsName.of_mem_declared (h : IsName name.toList) (hmem : ident ∈ declared name) :
    IsName ident.toList := by
  rcases mem_declared.1 hmem with rfl | rfl | rfl
  · exact h
  · have hvalidate : IsName "validate".toList :=
      ⟨⟨'v', "alidate".toList, rfl, .inl rfl⟩, by simp⟩
    rw [toList_validatorName]
    exact hvalidate.append h.capitalize.chars
  · rw [toList_typeName]
    exact h.capitalize.append (by simp)

theorem length_capitalize (cs : List Char) : (capitalize cs).length = cs.length := by
  cases cs <;> rfl

/-- The identifiers that a name declares are different. -/
theorem nodup_declared (name : String) : (declared name).Nodup := by
  have hvalidator : (validatorName name).toList.length = 8 + name.toList.length := by
    rw [toList_validatorName, List.length_append, length_capitalize]
    rfl
  have htype : (typeName name).toList.length = name.toList.length + 4 := by
    rw [toList_typeName, List.length_append, length_capitalize]
    rfl
  have h₁ : name ≠ validatorName name := fun h => by rw [← h] at hvalidator; omega
  have h₂ : name ≠ typeName name := fun h => by rw [← h] at htype; omega
  have h₃ : validatorName name ≠ typeName name := fun h => by rw [h] at hvalidator; omega
  simp [declared, h₁, h₂, h₃]

/-! ### Endings -/

/-- The name ends so, after something else, and the ending is not that of a type. -/
structure Ends (name : String) (e : List Char) : Prop where
  suffix : e <:+ name.toList
  shorter : e.length < name.toList.length
  long : 4 ≤ e.length
  noType : ¬"Type".toList <:+ e

theorem Ends.of_suffix (h : Ends name e) (hf : f <:+ e) (hlong : 4 ≤ f.length) : Ends name f where
  suffix := hf.trans h.suffix
  shorter := Nat.lt_of_le_of_lt hf.length_le h.shorter
  long := hlong
  noType htype := h.noType (htype.trans hf)

/-- A plain name ends as the word `Schema` does. -/
theorem ends_schemaName (base : String) : Ends (schemaName base) "hema".toList where
  suffix := by
    rw [toList_schemaName]
    exact (List.suffix_append "Sc".toList "hema".toList).trans (List.suffix_append _ _)
  shorter := by
    have hschema : "Schema".toList.length = 6 := rfl
    rw [toList_schemaName, List.length_append, hschema]
    show 4 < _
    omega
  long := Nat.le_refl 4
  noType := by decide

/-- A marked name ends in its mark. -/
theorem ends_mark (hmark : IsMark mark) (base : String) :
    Ends (schemaName base ++ "_" ++ mark) ('_' :: mark.toList) where
  suffix := by
    rw [String.append_assoc, String.toList_append, String.toList_append]
    exact List.suffix_append _ _
  shorter := by
    have hname : 4 < (schemaName base).toList.length := (ends_schemaName base).shorter
    have hunderscore : "_".toList.length = 1 := rfl
    simp only [String.toList_append, List.length_append, List.length_cons]
    omega
  long := by
    rw [List.length_cons, hmark.length]
    omega
  noType htype := by
    have hmem : 'T' ∈ '_' :: mark.toList := htype.subset (by decide)
    rcases List.mem_cons.1 hmem with h | h
    · exact absurd h (by decide)
    · exact absurd (hmark.digits _ h) (by decide)

theorem suffix_capitalize (h : e <:+ cs) (hlt : e.length < cs.length) : e <:+ capitalize cs := by
  obtain ⟨front, rfl⟩ := h
  cases front with
  | nil => simp at hlt
  | cons c front => exact List.suffix_append (c.toUpper :: front) e

/-- What a name declares ends as the name does, or so with the ending of a type. -/
theorem Ends.of_mem_declared (h : Ends name e) (hmem : ident ∈ declared name) :
    e <:+ ident.toList ∨ e ++ "Type".toList <:+ ident.toList := by
  have hcapital := suffix_capitalize h.suffix h.shorter
  rcases mem_declared.1 hmem with rfl | rfl | rfl
  · exact .inl h.suffix
  · rw [toList_validatorName]
    exact .inl (hcapital.trans (List.suffix_append _ _))
  · rw [toList_typeName]
    obtain ⟨front, hfront⟩ := hcapital
    exact .inr ⟨front, by rw [← hfront, List.append_assoc]⟩

theorem eq_of_suffix (he : e <:+ cs) (hf : f <:+ cs) (hlength : e.length = f.length) : e = f :=
  (List.suffix_of_suffix_length_le he hf (Nat.le_of_eq hlength)).eq_of_length hlength

theorem Ends.not_suffix (he : Ends name e) (h : e <:+ cs) (htype : f ++ "Type".toList <:+ cs) :
    False :=
  he.noType (List.suffix_of_suffix_length_le ((List.suffix_append _ _).trans htype) h he.long)

theorem shares_iff : shares a b = true ↔ ∃ ident ∈ declared a, ident ∈ declared b := by
  simp [shares]

/-- **Names that declare a common identifier end alike.** -/
theorem eq_of_shares (ha : Ends a e) (hb : Ends b f) (hlength : e.length = f.length)
    (h : shares a b = true) : e = f := by
  obtain ⟨ident, hidenta, hidentb⟩ := shares_iff.1 h
  rcases ha.of_mem_declared hidenta with he | he <;>
    rcases hb.of_mem_declared hidentb with hf | hf
  · exact eq_of_suffix he hf hlength
  · exact (ha.not_suffix he hf).elim
  · exact (hb.not_suffix hf he).elim
  · exact List.append_cancel_right (eq_of_suffix he hf (by simpa using hlength))

/-! ### Fixed names -/

/-- The names that every module declares or imports. -/
def reserved : List String :=
  ["ValidationResult", "JsonBoardFiles", "validateFile", "z"]

/-- What a name declares is no fixed name of the module. -/
theorem notMem_reserved (h : IsFormed name) (hmem : ident ∈ declared name) : ident ∉ reserved := by
  intro hreserved
  obtain ⟨text, rfl | ⟨mark, hmark, rfl⟩⟩ := h
  · have hall : ∀ ident ∈ reserved, ¬"hema".toList <:+ ident.toList ∧
        ¬"Type".toList <:+ ident.toList := by decide
    obtain ⟨hschema, htype⟩ := hall ident hreserved
    rcases (ends_schemaName _).of_mem_declared hmem with hends | hends
    · exact hschema hends
    · exact htype ((List.suffix_append _ _).trans hends)
  · -- there is an underscore before the mark, and in no fixed name
    have hall : ∀ ident ∈ reserved, '_' ∉ ident.toList := by decide
    refine hall ident hreserved ?_
    rcases (ends_mark hmark _).of_mem_declared hmem with hends | hends
    · exact hends.subset List.mem_cons_self
    · exact hends.subset List.mem_cons_self

/-! ### Fingerprints -/

theorem length_compress {value block : List UInt32} (h : value.length = 8) :
    (Sha256.compress value block).length = 8 := by
  rw [Sha256.compress, List.length_zipWith, h]
  rfl

theorem length_compressAll (count : Nat) {value words : List UInt32} (h : value.length = 8) :
    (Sha256.compressAll count value words).length = 8 := by
  induction count generalizing value words with
  | zero => exact h
  | succ count ih => exact ih (length_compress h)

theorem hexChar_mem {n : Nat} (h : n < 16) : Json.hexChar n ∈ "0123456789abcdef".toList := by
  have hall : ∀ n : Fin 16, Json.hexChar n ∈ "0123456789abcdef".toList := by decide
  exact hall ⟨n, h⟩

/-- Fingerprints are marks. -/
theorem isMark_fingerprint (text : String) : IsMark (fingerprint text) := by
  have hlength : (Sha256.hash text.toUTF8.toList).length = 8 := length_compressAll _ rfl
  obtain ⟨word, words, hhash⟩ := List.exists_cons_of_length_eq_add_one hlength
  have hword : (Sha256.hexWord word).length = 8 := by
    rw [Sha256.hexWord, List.length_map, List.length_reverse, List.length_range]
  have hchars : (fingerprint text).toList = Sha256.hexWord word := by
    rw [fingerprint, String.toList_ofList, Sha256.hexDigest, String.toList_ofList, hhash,
      List.flatMap_cons, List.take_append_of_le_length (Nat.le_of_eq hword.symm),
      List.take_of_length_le (Nat.le_of_eq hword)]
  refine ⟨hchars ▸ hword, ?_⟩
  rw [hchars]
  intro c hc
  obtain ⟨i, -, rfl⟩ := List.mem_map.1 hc
  exact hexChar_mem (Nat.mod_lt _ (by decide))

end JsonShelf.Zod
