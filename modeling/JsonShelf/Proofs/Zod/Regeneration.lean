/-
**Generating a module again.**

The time of generation stands on a line of its own near the top of a module, and nowhere else.  So
whatever the documents are called, two modules of the same documents agree in all other lines, and
masking the time makes them equal.  A line of a path that looks like the line of the time is masked
too, in both modules alike.

Main definitions:

* `Zod.opening`, `Zod.timeLine` — the first lines of a module, and the line that tells the time.

Main results:

* `Zod.exists_moduleText_eq` — a module around the line of its time;
* `Zod.lines_around_timeLine`, `Zod.maskGenerationTime_around_timeLine` — the lines of such a text,
  and what masking leaves of it;
* `Zod.moduleOf_regenerated` — **at another time only the line of the time changes**.
-/

import JsonShelf.Proofs.Computation
import JsonShelf.Proofs.Text.Lines
import JsonShelf.Snapshot
import JsonShelf.Zod.Module

set_option autoImplicit false

namespace JsonShelf.Zod

open Snapshot (generationMark maskGenerationTime maskLine placeholder tellsGenerationTime)
open Text (endsInNewline lined lines pieces)

variable {time : String}

/-! ### The line of the time -/

/-- The lines before the time of generation. -/
def opening : List String := ["/**", " * JsonBoard Auto-Generated Schema File"]

/-- The line that tells the time of generation. -/
def timeLine (time : String) : String := " * Generated on: " ++ time

theorem toList_timeLine (time : String) :
    (timeLine time).toList = " * Generated on: ".toList ++ time.toList :=
  String.toList_append

theorem exists_header_eq (names : List String) :
    ∃ back, ∀ time, header (some time) names = lined (opening ++ timeLine time :: back) := by
  cases names with
  | nil => exact ⟨_, fun time => rfl⟩
  | cons first rest => exact ⟨_, fun time => rfl⟩

/-- What stands around the line of the time does not depend on the time. -/
theorem exists_moduleText_eq (sources : List Source) (names : List String) :
    ∃ back, ∀ time, moduleText (some time) sources names =
      lined (opening ++ [timeLine time]) ++ back := by
  obtain ⟨explanation, hheader⟩ := exists_header_eq names
  have hsplit : ∀ time, header (some time) names =
      lined (opening ++ [timeLine time]) ++ lined explanation := by
    intro time
    rw [hheader, ← Text.lined_append, List.append_assoc, List.singleton_append]
  simp only [moduleText, hsplit, String.append_assoc]
  exact ⟨_, fun time => rfl⟩

theorem tellsGenerationTime_timeLine (time : String) :
    tellsGenerationTime (timeLine time) = true := by
  have hmark : generationMark.toList <+: (timeLine time).toList.dropWhile Text.isBlank := by
    rw [toList_timeLine]
    exact ⟨' ' :: time.toList, rfl⟩
  exact List.isPrefixOf_iff_prefix.2 hmark

theorem maskLine_timeLine (time : String) :
    maskLine (timeLine time) = " " ++ generationMark ++ " " ++ placeholder :=
  if_pos (tellsGenerationTime_timeLine time)

/-! ### Texts around it -/

/-- A text that can stand on one line: without a line feed and without a carriage return. -/
def OneLine (s : String) : Prop := '\n' ∉ s.toList ∧ '\r' ∉ s.toList

instance : DecidablePred OneLine := fun s =>
  inferInstanceAs (Decidable ('\n' ∉ s.toList ∧ '\r' ∉ s.toList))

theorem OneLine.timeLine (h : OneLine time) : OneLine (timeLine time) := by
  rw [OneLine, toList_timeLine, List.mem_append, List.mem_append]
  exact ⟨not_or.2 ⟨by decide, h.1⟩, not_or.2 ⟨by decide, h.2⟩⟩

/-- The line of the time is one of the lines of the text. -/
theorem lines_around_timeLine (h : OneLine time) (back : String) :
    lines (lined (opening ++ [timeLine time]) ++ back) =
      opening ++ timeLine time :: lines back := by
  have hopening : ∀ line ∈ opening, OneLine line := by decide
  have hall : ∀ line ∈ opening ++ [timeLine time], OneLine line :=
    List.forall_mem_append.2 ⟨hopening, List.forall_mem_singleton.2 h.timeLine⟩
  rw [Text.lines_lined_append_of_notMem hall, List.append_assoc, List.singleton_append]

/-- Masking leaves nothing of the time. -/
theorem maskGenerationTime_around_timeLine (h : OneLine time) (back : String) :
    maskGenerationTime (lined (opening ++ [timeLine time]) ++ back) =
      "\n".intercalate ((opening ++ timeLine placeholder :: lines back).map maskLine) ++
        if ('\n' :: back.toList).getLast? == some '\n' then "\n" else "" := by
  have hending : lined (opening ++ [timeLine time]) = lined opening ++ timeLine time ++ "\n" := by
    rw [Text.lined_append, String.append_assoc]
    simp [lined]
  rw [maskGenerationTime, lines_around_timeLine h, List.map_append, List.map_cons,
    maskLine_timeLine, hending, Text.endsInNewline_append, List.map_append, List.map_cons,
    maskLine_timeLine]

/-! ### Two modules of the same documents -/

theorem moduleOf_eq_map (generatedAt : Option String) (sources : List Source) :
    moduleOf generatedAt sources =
      (assignNames fingerprint (sources.map Source.path)).map (moduleText generatedAt sources) := by
  rw [moduleOf]
  cases assignNames fingerprint (sources.map Source.path) <;> rfl

/-- **At another time only the line of the time changes.**  Modules of the same documents are made
or refused alike, whatever the time; all their lines agree but the one that tells it, and they are
equal once it is masked. -/
theorem moduleOf_regenerated (sources : List Source) (time other : String) (h : OneLine time)
    (hother : OneLine other) :
    (moduleOf (some time) sources).map maskGenerationTime =
        (moduleOf (some other) sources).map maskGenerationTime ∧
      ∀ text, moduleOf (some time) sources = .ok text →
        ∃ front back again, moduleOf (some other) sources = .ok again ∧
          lines text = front ++ timeLine time :: back ∧
          lines again = front ++ timeLine other :: back := by
  rw [moduleOf_eq_map, moduleOf_eq_map]
  cases assignNames fingerprint (sources.map Source.path) with
  | error clash =>
      simp only [Except.map]
      exact ⟨trivial, nofun⟩
  | ok names =>
      obtain ⟨back, hmodule⟩ := exists_moduleText_eq sources names
      simp only [Except.map, hmodule, maskGenerationTime_around_timeLine h,
        maskGenerationTime_around_timeLine hother, true_and]
      intro text htext
      obtain rfl := Except.ok.inj htext
      exact ⟨opening, lines back, _, rfl, lines_around_timeLine h back,
        lines_around_timeLine hother back⟩

/-- A document whose path holds a line that looks like the line of the time. -/
def lookalike : Source := ⟨⟨"a\n * Generated on: never\nb.json"⟩, .null, .null⟩

/-- Its modules of two times differ, and masking makes them equal. -/
theorem moduleOf_regenerated_lookalike :
    ∃ text again, moduleOf (some "2025-01-01T00:00:00Z") [lookalike] = .ok text ∧
      moduleOf (some "2025-07-11T09:12:35Z") [lookalike] = .ok again ∧ text ≠ again ∧
      maskGenerationTime text = maskGenerationTime again := by
  obtain ⟨hmasked, hlines⟩ := moduleOf_regenerated [lookalike] "2025-01-01T00:00:00Z"
    "2025-07-11T09:12:35Z" (by decide) (by decide)
  have hnames : assignNames fingerprint [lookalike.path] = .ok ["aGeneratedOnNeverBSchema"] := by
    decide +kernel
  have htext : ∀ time, moduleOf (some time) [lookalike] =
      .ok (moduleText (some time) [lookalike] ["aGeneratedOnNeverBSchema"]) := by
    intro time
    rw [moduleOf_eq_map, List.map_singleton, hnames]
    rfl
  obtain ⟨front, back, again, hagain, hfirst, hsecond⟩ := hlines _ (htext _)
  refine ⟨_, again, htext _, hagain, ?_, ?_⟩
  · rintro rfl
    rw [hfirst] at hsecond
    have hline := (List.cons.inj (List.append_cancel_left hsecond)).1
    exact absurd hline (by decide)
  · rw [htext, hagain] at hmasked
    exact Except.ok.inj hmasked

end JsonShelf.Zod
