/-
**Computations that may fail.**

A computation of several parts succeeds exactly when all its parts do, and a script of such parts is
run part by part.  Proofs take a computation apart with these facts instead of unfolding it.

Main results:

* `bind_eq_ok`, `map_eq_ok`, `mapError_eq_ok`, `toOption_eq_some` — when a computation succeeds, and
  with what;
* `mem_iff_of_mapM` — the same of a computation for each member of a list;
* `Script.bind_assoc` — scripts form a monad that keeps its laws;
* `Script.run_mapM`, `Script.run_filterM` — scripts for the members of a list, none of which changes
  the state;
* `Script.snd_run_bind`, `Script.run_mapM_fst`, `Script.run_filterM_fst` — the same, told by the
  state alone;
* `Script.run_map`, `Script.interpret_map` — a function of the result of a script;
* `Script.run_except_bind` — a script that may fail is run part by part;
* `Script.run_interpret` — running a script through its interpretation in another kind of calls.
-/

import JsonShelf.Script
import Mathlib.Tactic.Basic

set_option autoImplicit false

namespace JsonShelf

variable {ε ε' α β : Type}

theorem bind_eq_ok {x : Except ε α} {f : α → Except ε β} {b : β} :
    (x >>= f) = .ok b ↔ ∃ a, x = .ok a ∧ f a = .ok b := by
  cases x with
  | error e => exact ⟨nofun, fun ⟨_, h, _⟩ => nomatch h⟩
  | ok a => exact ⟨fun h => ⟨a, rfl, h⟩, fun ⟨_, ha, h⟩ => by cases ha; exact h⟩

theorem map_eq_ok {x : Except ε α} {f : α → β} {b : β} :
    x.map f = .ok b ↔ ∃ a, x = .ok a ∧ f a = b := by
  cases x with
  | error e => exact ⟨nofun, fun ⟨_, h, _⟩ => nomatch h⟩
  | ok a =>
      refine ⟨fun h => ⟨a, rfl, Except.ok.inj h⟩, ?_⟩
      rintro ⟨_, ha, rfl⟩
      cases ha
      rfl

theorem mapError_eq_ok {x : Except ε α} {f : ε → ε'} {a : α} :
    x.mapError f = .ok a ↔ x = .ok a := by
  cases x with
  | error e => exact ⟨nofun, nofun⟩
  | ok b => exact ⟨fun h => congrArg _ (Except.ok.inj h), fun h => congrArg _ (Except.ok.inj h)⟩

theorem toOption_eq_some {x : Except ε α} {a : α} : x.toOption = some a ↔ x = .ok a := by
  cases x with
  | error e => exact ⟨nofun, nofun⟩
  | ok b => exact ⟨fun h => congrArg _ (Option.some.inj h), fun h => congrArg _ (Except.ok.inj h)⟩

theorem toBool_eq_true {x : Except ε α} : x.toBool = true ↔ ∃ a, x = .ok a := by
  cases x with
  | error e => exact ⟨nofun, nofun⟩
  | ok a => exact ⟨fun _ => ⟨a, rfl⟩, fun _ => rfl⟩

theorem toBool_eq_false {x : Except ε α} : x.toBool = false ↔ ∃ e, x = .error e := by
  cases x with
  | error e => exact ⟨fun _ => ⟨e, rfl⟩, fun _ => rfl⟩
  | ok a => exact ⟨nofun, nofun⟩

/-- What comes of the members of a list, if all of them succeed. -/
theorem mem_iff_of_mapM {f : α → Except ε β} {l : List α} {bs : List β} {b : β}
    (h : l.mapM f = .ok bs) : b ∈ bs ↔ ∃ a ∈ l, f a = .ok b := by
  induction l generalizing bs with
  | nil =>
      cases h
      simp
  | cons a rest ih =>
      rw [List.mapM_cons] at h
      obtain ⟨first, hfirst, h⟩ := bind_eq_ok.1 h
      obtain ⟨others, hothers, h⟩ := bind_eq_ok.1 h
      cases h
      rw [List.mem_cons, ih hothers]
      simp [hfirst, eq_comm]

namespace Script

variable {Call Call' σ γ : Type} {Reply : Call → Type} {Reply' : Call' → Type}

theorem bind_done_right (script : Script Call Reply α) : (script >>= done) = script := by
  induction script with
  | done result => rfl
  | call c next ih => exact congrArg (call c) (funext ih)

theorem bind_assoc (script : Script Call Reply α) (f : α → Script Call Reply β)
    (g : β → Script Call Reply γ) : (script >>= f >>= g) = script >>= fun a => f a >>= g := by
  induction script with
  | done result => rfl
  | call c next ih => exact congrArg (call c) (funext ih)

instance : LawfulMonad (Script Call Reply) :=
  LawfulMonad.mk' (Script Call Reply) bind_done_right (fun _ _ => rfl) bind_assoc

/-! ### Parts that leave the state as it is -/

theorem run_bind_of_run {handle : (c : Call) → σ → Reply c × σ} {script : Script Call Reply α}
    {state after : σ} {a : α} (h : run handle script state = (a, after))
    (f : α → Script Call Reply β) :
    run handle (script >>= f) state = run handle (f a) after := by
  rw [run_bind, h]

/-- Scripts that leave the state as it is give the results that each gives from this state. -/
theorem run_mapM {handle : (c : Call) → σ → Reply c × σ} {f : α → Script Call Reply β} {state : σ}
    {g : α → β} {l : List α} (h : ∀ a ∈ l, run handle (f a) state = (g a, state)) :
    run handle (l.mapM f) state = (l.map g, state) := by
  induction l with
  | nil => rfl
  | cons a rest ih =>
      have hrest := ih fun b hb => h b (List.mem_cons_of_mem a hb)
      rw [List.mapM_cons, run_bind_of_run (h a List.mem_cons_self), run_bind_of_run hrest]
      rfl

theorem run_filterM {handle : (c : Call) → σ → Reply c × σ} {f : α → Script Call Reply Bool}
    {state : σ} {p : α → Bool} {l : List α} (h : ∀ a ∈ l, run handle (f a) state = (p a, state)) :
    run handle (l.filterM f) state = (l.filter p, state) := by
  have hauxiliary : ∀ kept, run handle (List.filterAuxM f l kept) state =
      ((l.filter p).reverse ++ kept, state) := by
    induction l with
    | nil => exact fun kept => rfl
    | cons a rest ih =>
        intro kept
        have hrest := ih fun b hb => h b (List.mem_cons_of_mem a hb)
        rw [List.filterAuxM, run_bind_of_run (h a List.mem_cons_self), hrest, List.filter_cons]
        cases p a <;> simp
  rw [List.filterM, run_bind_of_run (hauxiliary []), List.append_nil, List.reverse_reverse]
  rfl

/-- A script whose parts leave the state as it is does so too. -/
theorem snd_run_bind {handle : (c : Call) → σ → Reply c × σ} {state : σ}
    {script : Script Call Reply α} {f : α → Script Call Reply β}
    (h : (run handle script state).2 = state) (hf : ∀ a, (run handle (f a) state).2 = state) :
    (run handle (script >>= f) state).2 = state := by
  rw [run_bind, h]
  exact hf _

theorem run_mapM_fst {handle : (c : Call) → σ → Reply c × σ} {state : σ}
    {f : α → Script Call Reply β} (h : ∀ a, (run handle (f a) state).2 = state) (l : List α) :
    run handle (l.mapM f) state = (l.map fun a => (run handle (f a) state).1, state) :=
  run_mapM fun a _ => Prod.ext rfl (h a)

theorem run_filterM_fst {handle : (c : Call) → σ → Reply c × σ} {state : σ}
    {f : α → Script Call Reply Bool} (h : ∀ a, (run handle (f a) state).2 = state) (l : List α) :
    run handle (l.filterM f) state = (l.filter fun a => (run handle (f a) state).1, state) :=
  run_filterM fun a _ => Prod.ext rfl (h a)

/-! ### Scripts that may fail -/

/-- A script that may fail is run part by part, up to the part that fails. -/
theorem run_except_bind (handle : (c : Call) → σ → Reply c × σ)
    (x : ExceptT ε (Script Call Reply) α) (f : α → ExceptT ε (Script Call Reply) β) (state : σ) :
    run handle (x >>= f).run state =
      match run handle x.run state with
      | (.ok a, after) => run handle (f a).run after
      | (.error e, after) => (.error e, after) := by
  have hbind := run_bind handle x.run
    (fun r => match r with | .ok a => (f a).run | .error e => Pure.pure (.error e)) state
  rw [ExceptT.run_bind]
  generalize run handle x.run state = r at hbind ⊢
  obtain ⟨result, after⟩ := r
  cases result with
  | ok a => exact hbind
  | error e => exact hbind

/-! ### Scripts that carry out calls -/

theorem interpret_map {m : Type → Type} [Monad m] [LawfulMonad m]
    (handle : (c : Call) → m (Reply c)) (f : α → β) (script : Script Call Reply α) :
    interpret handle (f <$> script) = f <$> interpret handle script := by
  rw [map_eq_pure_bind, map_eq_pure_bind, interpret_bind]
  rfl

theorem run_map (handle : (c : Call) → σ → Reply c × σ) (f : α → β)
    (script : Script Call Reply α) (state : σ) :
    run handle (f <$> script) state =
      (f (run handle script state).1, (run handle script state).2) := by
  rw [map_eq_pure_bind, run_bind]
  rfl

/-- A script of calls that scripts of other calls carry out. -/
theorem run_interpret (handle : (c : Call') → σ → Reply' c × σ)
    (carryOut : (c : Call) → Script Call' Reply' (Reply c)) (script : Script Call Reply α)
    (state : σ) :
    run handle (interpret carryOut script) state =
      run (fun c => run handle (carryOut c)) script state := by
  induction script generalizing state with
  | done result => rfl
  | call c next ih =>
      rw [interpret, run_bind]
      exact ih _ _

end Script

end JsonShelf
