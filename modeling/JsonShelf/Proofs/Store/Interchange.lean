/-
**One store in the place of the other.**

Calls are made one after the other on an empty data directory and on an empty store in memory.  If
their paths are refused or made of names, none of which is empty or a dot, and if none of these
paths leads through the file of another, then all the replies are the same, but for the times of
change.

Main definitions:

* `Store.accepted`, `Store.Suits` — the paths of some calls that are not refused, and what is asked
  of them;
* `Store.repliesTo` — the replies to some calls.

Main results:

* `Store.Mirrors.of_empty` — an empty directory mirrors an empty store;
* `Store.Mirrors.run_repliesTo` — the replies from any two stores that mirror each other;
* `Store.replies_interchange` — **the replies of an empty data directory are those of an empty store
  in memory**.
-/

import JsonShelf.Proofs.Paths.Spelling
import JsonShelf.Proofs.Store.Mirror

set_option autoImplicit false

namespace JsonShelf

open Paths (IsStep)
open Scan (pathOf)

namespace Store

variable {root : String} {directory : DirectoryStore} {calls : List StoreCall} {fs : FileSystem}
  {memory : MemoryStore} {base names : List String} {used : List String → Prop} {path : DocPath}

/-! ### Paths in use -/

/-- The paths of some calls that are not refused. -/
def accepted (calls : List StoreCall) : List DocPath :=
  (calls.filterMap StoreCall.path?).filter fun path => (checkPath path).toBool

/-- Some calls suit the two stores. -/
structure Suits (root : String) (calls : List StoreCall) : Prop where
  /-- Their paths have been read from texts. -/
  spelled : ∀ path ∈ accepted calls, ∃ s, path = .ofString s
  /-- They are made of names. -/
  plain : ∀ path ∈ accepted calls, ∀ name ∈ path.names, name ≠ "" ∧ name ≠ "."
  /-- None of them leads through the file of another. -/
  apart : ∀ path ∈ accepted calls, ∀ other ∈ accepted calls, path.names <+: other.names →
    path = other
  /-- The system takes their names. -/
  taken : ∀ path ∈ accepted calls,
    (Paths.join root path.text).utf8ByteSize ≤ FileSystem.longestPath ∧
      ∀ name ∈ path.names, name.utf8ByteSize ≤ FileSystem.longestName ∧ '\x00' ∉ name.toList

/-- The names in the paths in use. -/
def InUse (calls : List StoreCall) (names : List String) : Prop :=
  ∃ path ∈ accepted calls, names = path.names

theorem mem_accepted (c : StoreCall) (hc : c ∈ calls) (hpath : c.path? = some path)
    (hcheck : checkPath path = .ok ()) : path ∈ accepted calls := by
  refine List.mem_filter.2 ⟨List.mem_filterMap.2 ⟨c, hc, hpath⟩, ?_⟩
  rw [hcheck]
  rfl

theorem checkPath_of_mem_accepted (h : path ∈ accepted calls) : checkPath path = .ok () := by
  obtain ⟨_, hcheck⟩ := toBool_eq_true.1 (List.mem_filter.1 h).2
  exact hcheck

namespace Suits

theorem isStep (h : Suits root calls) (hpath : path ∈ accepted calls) :
    ∀ name ∈ path.names, IsStep name := by
  obtain ⟨s, rfl⟩ := h.spelled path hpath
  exact DocPath.isStep_of_mem_names (checkPath_eq_ok.1 (checkPath_of_mem_accepted hpath))
    (h.plain _ hpath)

theorem separate (h : Suits root calls) : Separate root (InUse calls) := by
  refine ⟨?_, ?_, ?_⟩
  · rintro _ ⟨path, hpath, rfl⟩
    obtain ⟨hlength, htaken⟩ := h.taken path hpath
    have hsteps := h.isStep hpath
    refine ⟨hsteps, fun name hname => (htaken name hname).1,
      fun name hname => (htaken name hname).2, ?_⟩
    rwa [← Scan.join_pathOf root hsteps path.names_ne_nil, ← DocPath.eq_pathOf_names hsteps]
  · rintro _ ⟨path, -, rfl⟩
    exact path.names_ne_nil
  · rintro _ _ ⟨path, hpath, rfl⟩ ⟨other, hother, rfl⟩ hprefix
    rw [h.apart path hpath other hother hprefix]

end Suits

/-! ### Runs -/

/-- The replies to some calls, made one after the other, without the times of change in them. -/
def repliesTo : List StoreCall → StoreScript (List ((c : StoreCall) × c.Reply))
  | [] => return []
  | c :: rest => do
    let reply ← Script.perform c
    let others ← repliesTo rest
    return ⟨c, c.timeless reply⟩ :: others

theorem run_repliesTo_cons {σ : Type} (handle : (c : StoreCall) → σ → c.Reply × σ) (c : StoreCall)
    (rest : List StoreCall) (state : σ) :
    Script.run handle (repliesTo (c :: rest)) state =
      (⟨c, c.timeless (handle c state).1⟩ ::
        (Script.run handle (repliesTo rest) (handle c state).2).1,
        (Script.run handle (repliesTo rest) (handle c state).2).2) := by
  have hcall : Script.run handle (Script.perform c) state =
      ((handle c state).1, (handle c state).2) := rfl
  rw [repliesTo, Script.run_bind_of_run hcall, Script.run_bind]
  rfl

namespace Mirrors

/-- An empty directory mirrors an empty store. -/
theorem of_empty (hsep : Separate root used) (h : fs.locate root = .ok (base, .directory [])) :
    Mirrors .empty fs root base used := by
  obtain ⟨_, -, -, hbase⟩ := FileSystem.exists_of_locate h
  have hnothing : ∀ names, names ≠ [] → fs.kindAt (base ++ names) = none := by
    intro names hnil
    obtain ⟨name, rest, rfl⟩ := List.exists_cons_of_ne_nil hnil
    rw [FileSystem.kindAt, Files.Node.kindAt, Files.Node.find?_append, hbase]
    exact Files.Node.isLeaf_empty name rest
  refine ⟨FileSystem.leadsTo_of_locate h, ?_, ?_, MemoryStore.Ordered.empty, ?_⟩
  · intro names hnames
    rw [hnothing names (hsep.ne_nil names hnames)]
    exact .inr ⟨MemoryStore.get?_empty _, rfl⟩
  · intro names kind hnil hkind
    rw [hnothing names hnil] at hkind
    cases hkind
  · intro path text hget
    rw [MemoryStore.get?_empty] at hget
    cases hget

/-- The replies from two stores that mirror each other, whatever the calls on paths in use. -/
theorem run_repliesTo (h : Mirrors memory fs directory.root base used)
    (hsep : Separate directory.root used)
    (hfilter : ScanFilter.ofPolicy .standard = .ok directory.filter)
    (hcalls : ∀ c ∈ calls, ∀ path, c.path? = some path → checkPath path = .ok () →
      ∃ names, used names ∧ path = pathOf names) :
    (Script.run directory.perform (repliesTo calls) fs).1 = (memory.run (repliesTo calls)).1 ∧
      Mirrors (memory.run (repliesTo calls)).2 (Script.run directory.perform (repliesTo calls) fs).2
        directory.root base used := by
  unfold MemoryStore.run
  induction calls generalizing memory fs with
  | nil => exact ⟨rfl, h⟩
  | cons c rest ih =>
      obtain ⟨hreply, hafter⟩ := h.agree hsep hfilter c (hcalls c List.mem_cons_self)
      obtain ⟨hreplies, hend⟩ := ih hafter fun c hc => hcalls c (List.mem_cons_of_mem _ hc)
      rw [run_repliesTo_cons, run_repliesTo_cons, hreply, hreplies]
      exact ⟨rfl, hend⟩

end Mirrors

/-- **The replies of an empty data directory are those of an empty store in memory**, whatever the
calls, as long as their paths are refused or made of names and no path leads through the file of
another. -/
theorem replies_interchange (directory : DirectoryStore) (calls : List StoreCall)
    (hfilter : ScanFilter.ofPolicy .standard = .ok directory.filter)
    (hroot : fs.locate directory.root = .ok (base, .directory []))
    (h : Suits directory.root calls) :
    (fs.run (directory.interpret (repliesTo calls))).1 =
      (MemoryStore.empty.run (repliesTo calls)).1 := by
  have hstart := Mirrors.of_empty h.separate hroot
  have hcalls : ∀ c ∈ calls, ∀ path, c.path? = some path → checkPath path = .ok () →
      ∃ names, InUse calls names ∧ path = pathOf names := by
    intro c hc path hpath hcheck
    have hmem := mem_accepted c hc hpath hcheck
    exact ⟨path.names, ⟨path, hmem, rfl⟩, DocPath.eq_pathOf_names (h.isStep hmem)⟩
  rw [DirectoryStore.run_interpret]
  exact (hstart.run_repliesTo h.separate hfilter hcalls).1

/-- A file system with an empty data directory. -/
def emptySystem : FileSystem :=
  ⟨.directory [("site", .directory [("data", .directory [])])], ["site"], [], ⟨0, 0, 0⟩⟩

/-- Calls that make files in directories of their own, take one of them away and try to leave the
data directory. -/
def sampleCalls : List StoreCall :=
  [.createText (.ofString "shop/new/items.json") "[1]",
    .createText (.ofString "shop/new/items.json") "[]",
    .writeText (.ofString "./shop\\users.json") "\"é\"",
    .facts (.ofString "shop/users.json"), .list,
    .remove (.ofString "shop/new/items.json"), .remove (.ofString "shop/new/items.json"),
    .readText (.ofString "blog/posts.json"), .contains (.ofString "../users.json"), .list]

/-- The replies to these calls. -/
theorem replies_interchange_sample : ∃ filter, ScanFilter.ofPolicy .standard = .ok filter ∧
    Suits "./data" sampleCalls ∧
    (emptySystem.run (DirectoryStore.interpret ⟨"./data", filter⟩ (repliesTo sampleCalls))).1 =
      (MemoryStore.empty.run (repliesTo sampleCalls)).1 := by
  have hpolicy : (ScanFilter.ofPolicy .standard).toBool = true := by cbv
  obtain ⟨filter, hfilter⟩ := toBool_eq_true.1 hpolicy
  have haccepted : accepted sampleCalls = [⟨"shop/new/items.json"⟩, ⟨"shop/new/items.json"⟩,
      ⟨"shop/users.json"⟩, ⟨"shop/users.json"⟩, ⟨"shop/new/items.json"⟩, ⟨"shop/new/items.json"⟩,
      ⟨"blog/posts.json"⟩] := by decide +kernel
  have hspelled : ∀ path ∈ accepted sampleCalls, path = .ofString path.text := by
    rw [haccepted]
    decide +kernel
  have hsuits : Suits "./data" sampleCalls := by
    refine ⟨fun path hpath => ⟨path.text, hspelled path hpath⟩, ?_, ?_, ?_⟩ <;> rw [haccepted]
    · decide +kernel
    · decide +kernel
    · decide +kernel
  have hlocate : emptySystem.locate "./data" = .ok (["site", "data"], .directory []) := by rfl
  exact ⟨filter, hfilter, hsuits,
    replies_interchange ⟨"./data", filter⟩ sampleCalls hfilter hlocate hsuits⟩

end Store

end JsonShelf
