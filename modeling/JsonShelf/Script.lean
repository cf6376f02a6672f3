/-
**Scripts of calls.**

A script asks its surroundings for things, one call after the other, and each reply decides how it
goes on.  What the calls do is up to a handler.

Main definitions:

* `Script` — a result, or a call and what follows each reply;
* `Script.run` — runs a script where calls change a state;
* `Script.interpret` — runs a script in a monad, such as that of scripts of other calls.

Main results:

* `Script.run_bind`, `Script.interpret_bind` — a script is run part by part.
-/

set_option autoImplicit false

namespace JsonShelf

/-- A result, or a call and what follows each reply. -/
inductive Script (Call : Type) (Reply : Call → Type) (α : Type) where
  | done (result : α)
  | call (c : Call) (next : Reply c → Script Call Reply α)

namespace Script

variable {Call : Type} {Reply : Call → Type} {α β : Type}

/-- One script after another, which depends on the result of the first. -/
def bind : Script Call Reply α → (α → Script Call Reply β) → Script Call Reply β
  | done result, f => f result
  | call c next, f => call c fun reply => bind (next reply) f

instance : Monad (Script Call Reply) where
  pure := done
  bind := bind

/-- The script of one call, with the reply as its result. -/
def perform (c : Call) : Script Call Reply (Reply c) :=
  call c done

/-- Runs a script from a state that each call may change. -/
def run {σ : Type} (handle : (c : Call) → σ → Reply c × σ) : Script Call Reply α → σ → α × σ
  | done result, state => (result, state)
  | call c next, state =>
    let (reply, state) := handle c state
    run handle (next reply) state

/-- Runs a script in a monad that carries out the calls. -/
def interpret {m : Type → Type} [Monad m] (handle : (c : Call) → m (Reply c)) :
    Script Call Reply α → m α
  | done result => Pure.pure result
  | call c next => do interpret handle (next (← handle c))

@[simp] theorem bind_done (result : α) (f : α → Script Call Reply β) :
    (done result >>= f) = f result := rfl

@[simp] theorem bind_call (c : Call) (next : Reply c → Script Call Reply α)
    (f : α → Script Call Reply β) :
    (call c next >>= f) = call c fun reply => next reply >>= f := rfl

theorem run_bind {σ : Type} (handle : (c : Call) → σ → Reply c × σ)
    (script : Script Call Reply α) (f : α → Script Call Reply β) (state : σ) :
    run handle (script >>= f) state =
      run handle (f (run handle script state).1) (run handle script state).2 := by
  induction script generalizing state with
  | done result => rfl
  | call c next ih => exact ih _ _

theorem interpret_bind {m : Type → Type} [Monad m] [LawfulMonad m]
    (handle : (c : Call) → m (Reply c)) (script : Script Call Reply α)
    (f : α → Script Call Reply β) :
    interpret handle (script >>= f) =
      interpret handle script >>= fun a => interpret handle (f a) := by
  induction script with
  | done result => simp [interpret]
  | call c next ih => simp [interpret, ih]

end Script

end JsonShelf
