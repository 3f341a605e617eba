import Mathlib.Logic.Function.Basic
import Mathlib.Tactic.Common

/-!
# Coroutines over an effect signature

A cooperative task is a tree of effects: it either returns, or performs one effect and goes on
with the response. The tree says what the task does and in which order; what an effect means is
left to the system that runs it (`Coro.Machine`).

* `Coro E R α` — programs over effects `E`, where `R e` is the type of responses to `e`.
* `Coro.Performs P p` — every effect that `p` can perform satisfies `P`.
* `ExceptT X (Coro E R)` is the form a coroutine with exceptions takes; `attempt` and
  `finallyDo` are its two control structures besides `tryCatch`.

The trees are well founded, so a coroutine performs finitely many effects along every run.
-/

/-- A program that returns a value or performs an effect and continues with its response. -/
inductive Coro (E : Type) (R : E → Type) (α : Type) : Type where
  /-- Return a value. -/
  | ret (a : α) : Coro E R α
  /-- Perform `e` and continue with the response. -/
  | op (e : E) (k : R e → Coro E R α) : Coro E R α

namespace Coro

variable {E : Type} {R : E → Type} {X α β : Type}

/-- Run `p`, then `f` on its result. -/
protected def bind : Coro E R α → (α → Coro E R β) → Coro E R β
  | ret a, f => f a
  | op e k, f => op e fun r => (k r).bind f

instance : Monad (Coro E R) where
  pure := ret
  bind := Coro.bind

/-- The program that performs one effect and returns the response. -/
def perform (e : E) : Coro E R (R e) := op e ret

/-- A bind goes on behind the effect. -/
@[simp] theorem op_bind (e : E) (k : R e → Coro E R α) (f : α → Coro E R β) :
    (op e k >>= f) = op e fun r => k r >>= f := rfl

/-- Returning is a right unit. -/
private theorem bind_ret (p : Coro E R α) : p.bind ret = p := by
  induction p with
  | ret a => rfl
  | op e k ih => exact congrArg (op e) (funext ih)

/-- Binds associate. -/
private theorem bind_assoc' {γ : Type} (p : Coro E R α) (f : α → Coro E R β)
    (g : β → Coro E R γ) : (p.bind f).bind g = p.bind fun a => (f a).bind g := by
  induction p with
  | ret a => rfl
  | op e k ih => exact congrArg (op e) (funext ih)

instance : LawfulMonad (Coro E R) :=
  LawfulMonad.mk' (Coro E R) bind_ret (fun _ _ => rfl) bind_assoc'

/-! ## Which effects a program performs -/

/-- Every effect that `p` can perform, on any responses, satisfies `P`. -/
def Performs (P : E → Prop) : Coro E R α → Prop
  | ret _ => True
  | op e k => P e ∧ ∀ r, (k r).Performs P

/-- Two programs one after the other perform what either does. -/
theorem Performs.bind {P : E → Prop} {p : Coro E R α} {f : α → Coro E R β}
    (hp : p.Performs P) (hf : ∀ a, (f a).Performs P) : (p >>= f).Performs P := by
  induction p with
  | ret a => exact hf a
  | op e k ih => exact ⟨hp.1, fun r => ih r (hp.2 r)⟩

/-- Every program performs effects of some kind. -/
theorem performs_true (p : Coro E R α) : p.Performs fun _ => True := by
  induction p with
  | ret a => trivial
  | op e k ih => exact ⟨trivial, ih⟩

/-- A weaker condition on the effects. -/
theorem Performs.mono {P P' : E → Prop} {p : Coro E R α} (h : ∀ e, P e → P' e)
    (hp : p.Performs P) : p.Performs P' := by
  induction p with
  | ret a => trivial
  | op e k ih => exact ⟨h e hp.1, fun r => ih r (hp.2 r)⟩

/-- A program performs effects for which everything holds. -/
theorem Performs.of_forall {P : E → Prop} (h : ∀ e, P e) (p : Coro E R α) : p.Performs P := by
  induction p with
  | ret a => trivial
  | op e k ih => exact ⟨h e, fun r => ih r⟩

/-- Two conditions on the effects hold together. -/
theorem Performs.and {P P' : E → Prop} {p : Coro E R α} (hp : p.Performs P)
    (hp' : p.Performs P') : p.Performs fun e => P e ∧ P' e := by
  induction p with
  | ret a => trivial
  | op e k ih => exact ⟨⟨hp.1, hp'.1⟩, fun r => ih r (hp.2 r) (hp'.2 r)⟩

/-! ## Exceptions -/

/-- Run `p` and return how it ended, without raising. -/
def attempt (p : ExceptT X (Coro E R) α) : ExceptT X (Coro E R) (Except X α) :=
  ExceptT.mk (Except.ok <$> p.run)

/-- Run `p`, then `fin` on every way out of `p`, and end as `p` ended. -/
def finallyDo (p : ExceptT X (Coro E R) α) (fin : Coro E R Unit) : ExceptT X (Coro E R) α :=
  ExceptT.mk do
    let res ← p.run
    fin
    pure res

/-- Run `f` on the elements of a list from left to right; an exception ends the loop. -/
def forEach {ι : Type} (xs : List ι) (f : ι → ExceptT X (Coro E R) Unit) :
    ExceptT X (Coro E R) Unit :=
  match xs with
  | [] => pure ()
  | x :: rest => do
    f x
    forEach rest f

/-! ### Which effects a program with exceptions performs -/

/-- `Performs` for programs with exceptions. -/
def PerformsE (P : E → Prop) (p : ExceptT X (Coro E R) α) : Prop := p.run.Performs P

section PerformsE

variable {P : E → Prop}

/-- Returning performs nothing. -/
theorem performsE_pure (a : α) : PerformsE P (pure a : ExceptT X (Coro E R) α) := trivial

/-- Raising performs nothing. -/
theorem performsE_throw (x : X) :
    PerformsE P (throw x : ExceptT X (Coro E R) α) := trivial

/-- A single effect. -/
theorem performsE_lift {e : E} (h : P e) :
    PerformsE P (ExceptT.lift (perform e) : ExceptT X (Coro E R) (R e)) :=
  ⟨h, fun _ => trivial⟩

/-- A program that returns how it ended. -/
theorem performsE_mk {p : Coro E R (Except X α)} (h : p.Performs P) :
    PerformsE P (ExceptT.mk p) := h

/-- Two programs one after the other; the second one runs if the first one does not raise. -/
theorem performsE_bind {p : ExceptT X (Coro E R) α} {f : α → ExceptT X (Coro E R) β}
    (hp : PerformsE P p) (hf : ∀ a, PerformsE P (f a)) : PerformsE P (p >>= f) := by
  rw [PerformsE, ExceptT.run_bind]
  refine Performs.bind hp fun res => ?_
  cases res with
  | ok a => exact hf a
  | error x => trivial

/-- A program with a handler of its exceptions. -/
theorem performsE_tryCatch {p : ExceptT X (Coro E R) α}
    {handler : X → ExceptT X (Coro E R) α} (hp : PerformsE P p)
    (hhandler : ∀ x, PerformsE P (handler x)) : PerformsE P (tryCatch p handler) := by
  refine Performs.bind (p := p.run) hp fun res => ?_
  cases res with
  | ok a => trivial
  | error x => exact hhandler x

/-- A program whose exceptions are caught. -/
theorem performsE_attempt {p : ExceptT X (Coro E R) α} (hp : PerformsE P p) :
    PerformsE P (attempt p) :=
  Performs.bind (p := p.run) hp fun _ => trivial

/-- A program with what it does on every way out. -/
theorem performsE_finallyDo {p : ExceptT X (Coro E R) α} {fin : Coro E R Unit}
    (hp : PerformsE P p) (hfin : fin.Performs P) : PerformsE P (finallyDo p fin) :=
  Performs.bind (p := p.run) hp fun _ => Performs.bind hfin fun _ => trivial

/-- A loop performs what its body does. -/
theorem performsE_forEach {ι : Type} {xs : List ι} {f : ι → ExceptT X (Coro E R) Unit}
    (hf : ∀ x, PerformsE P (f x)) : PerformsE P (forEach xs f) := by
  induction xs with
  | nil => exact performsE_pure ()
  | cons x rest ih => exact performsE_bind (hf x) fun _ => ih

/-- A weaker condition on the effects. -/
theorem PerformsE.mono {P' : E → Prop} {p : ExceptT X (Coro E R) α} (h : ∀ e, P e → P' e)
    (hp : PerformsE P p) : PerformsE P' p :=
  Performs.mono h hp

end PerformsE

end Coro
