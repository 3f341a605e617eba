import MatrixDispatcher.Coro.Machine

/-!
# Contracts

What a task may promise of the data it sends, from what it relies on in the data it receives. A
contract has no state: it suits facts about values that stay true once they are true, such as that
an identifier is well formed, which pass from a response through the program into a later effect.

* `Contract` — promises about effects, and what is relied on in their responses.
* `Contract.Keeps` — a program keeps the contract; `Contract.KeepsE` is the form for programs with
  exceptions, about which nothing is known when they raise.
* `Roles` — every task of a machine plays a role and its fiber stays good for it;
  `Roles.reachable` and `Roles.about` are the invariants that this gives.
-/

namespace Coro

variable {T E : Type} {R : E → Type} {A W X α β : Type}

/-- Promises about effects, and what is relied on in the responses. -/
structure Contract (E : Type) (R : E → Type) where
  promises : E → Prop
  relies : (e : E) → R e → Prop

namespace Contract

variable (K : Contract E R)

/-- As long as the responses are as relied on, `p` performs effects as promised and returns a
result with `Q`. -/
def Keeps : Coro E R α → (α → Prop) → Prop
  | .ret a, Q => Q a
  | .op e k, Q => K.promises e ∧ ∀ r, K.relies e r → Keeps (k r) Q

/-- `Keeps` for programs with exceptions; `Q` is about results only. -/
def KeepsE (p : ExceptT X (Coro E R) α) (Q : α → Prop) : Prop :=
  K.Keeps p.run fun res => ∀ a, res = .ok a → Q a

variable {K} {Q Q' : α → Prop}

theorem Keeps.mono {p : Coro E R α} (hQ : ∀ a, Q a → Q' a) (h : K.Keeps p Q) : K.Keeps p Q' := by
  induction p with
  | ret a => exact hQ a h
  | op e k ih => exact ⟨h.1, fun r hr => ih r (h.2 r hr)⟩

theorem Keeps.bind {p : Coro E R α} {f : α → Coro E R β} {Q' : β → Prop} (hp : K.Keeps p Q)
    (hf : ∀ a, Q a → K.Keeps (f a) Q') : K.Keeps (p >>= f) Q' := by
  induction p with
  | ret a => exact hf a hp
  | op e k ih => exact ⟨hp.1, fun r hr => ih r (hp.2 r hr)⟩

/-- A program that keeps the promises whatever the responses are. -/
theorem Keeps.of_performs {p : Coro E R α} (h : p.Performs K.promises) :
    K.Keeps p fun _ => True := by
  induction p with
  | ret a => trivial
  | op e k ih => exact ⟨h.1, fun r _ => ih r (h.2 r)⟩

/-- A program that keeps a contract that relies on nothing. -/
theorem Keeps.performs {p : Coro E R α} (hrelies : ∀ e r, K.relies e r) (h : K.Keeps p Q) :
    p.Performs K.promises := by
  induction p with
  | ret a => trivial
  | op e k ih => exact ⟨h.1, fun r => ih r (h.2 r (hrelies e r))⟩

/-! ### Programs with exceptions -/

namespace KeepsE

theorem mono {p : ExceptT X (Coro E R) α} (hQ : ∀ a, Q a → Q' a) (h : K.KeepsE p Q) :
    K.KeepsE p Q' :=
  Keeps.mono (fun _ hres a heq => hQ a (hres a heq)) h

theorem of_performs {p : ExceptT X (Coro E R) α} (h : PerformsE K.promises p) :
    K.KeepsE p fun _ => True :=
  (Keeps.of_performs h).mono fun _ _ _ _ => trivial

theorem pure {a : α} (h : Q a) : K.KeepsE (Pure.pure a : ExceptT X (Coro E R) α) Q := by
  rintro _ ⟨⟩
  exact h

theorem throw {x : X} : K.KeepsE (MonadExcept.throw x : ExceptT X (Coro E R) α) Q := by
  rintro _ ⟨⟩

/-- The response to one effect. -/
theorem lift {e : E} (h : K.promises e) :
    K.KeepsE (ExceptT.lift (perform e) : ExceptT X (Coro E R) (R e)) (K.relies e) :=
  ⟨h, fun r hr a heq => by cases heq; exact hr⟩

theorem bind {p : ExceptT X (Coro E R) α} {f : α → ExceptT X (Coro E R) β} {Q' : β → Prop}
    (hp : K.KeepsE p Q) (hf : ∀ a, Q a → K.KeepsE (f a) Q') : K.KeepsE (p >>= f) Q' := by
  rw [KeepsE, ExceptT.run_bind]
  refine Keeps.bind hp fun res hres => ?_
  cases res with
  | ok a => exact hf a (hres a rfl)
  | error x => rintro _ ⟨⟩

/-- A program that keeps the promises by itself, then another one. -/
theorem bind_performs {p : ExceptT X (Coro E R) α} {f : α → ExceptT X (Coro E R) β}
    {Q' : β → Prop} (hp : PerformsE K.promises p) (hf : ∀ a, K.KeepsE (f a) Q') :
    K.KeepsE (p >>= f) Q' :=
  (of_performs hp).bind fun a _ => hf a

theorem tryCatch {p : ExceptT X (Coro E R) α} {handler : X → ExceptT X (Coro E R) α}
    (hp : K.KeepsE p Q) (hhandler : ∀ x, K.KeepsE (handler x) Q) :
    K.KeepsE (MonadExcept.tryCatch p handler) Q := by
  refine Keeps.bind (p := p.run) hp fun res hres => ?_
  cases res with
  | ok a => exact hres
  | error x => exact hhandler x

theorem finallyDo {p : ExceptT X (Coro E R) α} {fin : Coro E R Unit} (hp : K.KeepsE p Q)
    (hfin : fin.Performs K.promises) : K.KeepsE (Coro.finallyDo p fin) Q :=
  Keeps.bind (p := p.run) hp fun _ hres => (Keeps.of_performs hfin).bind fun _ _ => hres

/-- A loop over a list whose elements are known. -/
theorem forEach {ι : Type} {f : ι → ExceptT X (Coro E R) Unit} {xs : List ι}
    (h : ∀ x ∈ xs, K.KeepsE (f x) fun _ => True) : K.KeepsE (Coro.forEach xs f) fun _ => True := by
  induction xs with
  | nil => exact pure trivial
  | cons x rest ih =>
    refine (h x List.mem_cons_self).bind fun _ _ => ?_
    exact ih fun y hy => h y (List.mem_cons_of_mem x hy)

end KeepsE

/-! ### Fibers -/

/-- Every round of the fiber keeps the contract. -/
def Binds (K : Contract E R) (fiber : Fiber E R) : Prop :=
  K.Keeps fiber.prog (fun _ => True) ∧ ∀ s, K.Keeps (fiber.next s) fun _ => True

theorem Binds.once {p : Coro E R Unit} (h : K.Keeps p fun _ => True) : K.Binds (Fiber.once p) :=
  ⟨h.bind fun _ _ => trivial, fun _ => trivial⟩

end Contract

/-! ## Machines whose tasks play roles -/

open Machine

variable [DecidableEq T]

/-- Every task plays a role, for which its fiber is good; the fiber stays so as long as the steps
are allowed. -/
structure Roles (S : Machine T E R A W) (allow : W → Event T E A → Prop) (ι : Type) where
  /-- In this world, the task plays the role. -/
  plays : W → T → ι → Prop
  good : ι → Fiber E R → Prop
  inv : W → Prop
  effect : ∀ {w w' : W} {t a i e r} {σ : Type} {k : R e → Coro E R (Option σ)}
    {next : σ → Coro E R (Option σ)}, inv w → plays w t i → good i ⟨σ, .op e k, next⟩ →
    allow w (.effect t e a) → S.exec t a e w = some (r, w') →
    good i ⟨σ, k r, next⟩ ∧ inv w' ∧ ∀ u j, plays w u j → plays w' u j
  round : ∀ {i} {σ : Type} {s : σ} {next : σ → Coro E R (Option σ)},
    good i ⟨σ, .ret (some s), next⟩ → good i ⟨σ, next s, next⟩
  env : ∀ {w w' a}, inv w → allow w (.env a) → S.env a w = some w' →
    inv w' ∧ ∀ u j, plays w u j → plays w' u j
  start : ∀ {w w' t fiber a}, inv w → allow w (.start a) → S.start a w = some (t, fiber, w') →
    (∃ i, plays w' t i ∧ good i fiber) ∧ inv w' ∧ ∀ u j, plays w u j → plays w' u j
  crash : ∀ {w w' a}, inv w → allow w (.crash a) → S.crash a w = some w' → inv w'

namespace Roles

variable {S : Machine T E R A W} {allow : W → Event T E A → Prop} {ι : Type}
  (P : Roles S allow ι)

/-- The world and all tasks are as they should be. -/
structure Kept (c : Config T E R W) : Prop where
  inv : P.inv c.world
  tasks : ∀ t fiber, c.tasks t = some fiber → ∃ i, P.plays c.world t i ∧ P.good i fiber

variable {P}

omit [DecidableEq T] in
theorem kept_ofWorld {w : W} (h : P.inv w) : P.Kept (.ofWorld w) :=
  ⟨h, fun _ _ htask => by cases htask⟩

/-- The tasks after one of them has changed. -/
private theorem tasks_update {c : Config T E R W} (h : P.Kept c) {w : W} {t : T}
    {fiber : Option (Fiber E R)} (hplays : ∀ u j, P.plays c.world u j → P.plays w u j)
    (hfiber : ∀ f, fiber = some f → ∃ i, P.plays w t i ∧ P.good i f) (u : T) (f : Fiber E R)
    (hu : Function.update c.tasks t fiber u = some f) : ∃ i, P.plays w u i ∧ P.good i f := by
  by_cases hut : u = t
  · subst hut
    rw [Function.update_self] at hu
    exact hfiber f hu
  · rw [Function.update_of_ne hut] at hu
    obtain ⟨i, hi, hgood⟩ := h.tasks u f hu
    exact ⟨i, hplays u i hi, hgood⟩

/-- A step keeps everything as it should be. -/
theorem Kept.step {c c' : Config T E R W} {l : Label T A} (h : P.Kept c)
    (hallow : allow c.world (event c l)) (hstep : S.step c l = some c') : P.Kept c' := by
  cases l with
  | task t a =>
    rw [Machine.step] at hstep
    split at hstep
    case isFalse => cases hstep
    split at hstep
    · cases hstep
    · -- the task ends
      obtain rfl := Option.some.inj hstep
      exact ⟨h.inv, tasks_update h (fun _ _ => id) (by rintro _ ⟨⟩)⟩
    · next htask =>
      -- the task goes into its next round
      obtain rfl := Option.some.inj hstep
      obtain ⟨i, hi, hgood⟩ := h.tasks t _ htask
      refine ⟨h.inv, tasks_update h (fun _ _ => id) ?_⟩
      rintro _ ⟨⟩
      exact ⟨i, hi, P.round hgood⟩
    · next htask =>
      split at hstep
      · cases hstep
      · next hexec =>
        obtain rfl := Option.some.inj hstep
        obtain ⟨i, hi, hgood⟩ := h.tasks t _ htask
        rw [event, htask] at hallow
        obtain ⟨hgood', hinv, hplays⟩ := P.effect h.inv hi hgood hallow hexec
        refine ⟨hinv, tasks_update h hplays ?_⟩
        rintro _ ⟨⟩
        exact ⟨i, hplays t i hi, hgood'⟩
  | env a =>
    obtain ⟨w, hw, rfl⟩ : ∃ w, S.env a c.world = some w ∧ { c with world := w } = c' := by
      simpa [Machine.step] using hstep
    obtain ⟨hinv, hplays⟩ := P.env h.inv hallow hw
    refine ⟨hinv, fun t fiber htask => ?_⟩
    obtain ⟨i, hi, hgood⟩ := h.tasks t fiber htask
    exact ⟨i, hplays t i hi, hgood⟩
  | start a =>
    rw [Machine.step] at hstep
    split at hstep
    · cases hstep
    next hw =>
    split at hstep
    · cases hstep
    · obtain rfl := Option.some.inj hstep
      obtain ⟨hfiber, hinv, hplays⟩ := P.start h.inv hallow hw
      refine ⟨hinv, tasks_update h hplays ?_⟩
      rintro _ ⟨⟩
      exact hfiber
  | crash a =>
    obtain ⟨w, hw, rfl⟩ : ∃ w, S.crash a c.world = some w ∧ .ofWorld w = c' := by
      simpa [Machine.step] using hstep
    exact kept_ofWorld (P.crash h.inv hallow hw)

/-- In every configuration reached everything is as it should be. -/
theorem Kept.reachable {c₀ c : Config T E R W} (h : P.Kept c₀) (hreach : S.Reachable allow c₀ c) :
    P.Kept c := by
  induction hreach with
  | refl => exact h
  | step l _ hallow hstep ih => exact ih.step hallow hstep

end Roles

/-- Tasks that are bound by the contracts of their roles. -/
structure Contracts (S : Machine T E R A W) (allow : W → Event T E A → Prop) (ι : Type) where
  contract : ι → Contract E R
  plays : W → T → ι → Prop
  inv : W → Prop
  effect : ∀ {w w' t a i e r}, inv w → plays w t i → (contract i).promises e →
    allow w (.effect t e a) → S.exec t a e w = some (r, w') →
    (contract i).relies e r ∧ inv w' ∧ ∀ u j, plays w u j → plays w' u j
  env : ∀ {w w' a}, inv w → allow w (.env a) → S.env a w = some w' →
    inv w' ∧ ∀ u j, plays w u j → plays w' u j
  start : ∀ {w w' t fiber a}, inv w → allow w (.start a) → S.start a w = some (t, fiber, w') →
    (∃ i, plays w' t i ∧ (contract i).Binds fiber) ∧ inv w' ∧ ∀ u j, plays w u j → plays w' u j
  crash : ∀ {w w' a}, inv w → allow w (.crash a) → S.crash a w = some w' → inv w'

namespace Contracts

variable {S : Machine T E R A W} {allow : W → Event T E A → Prop} {ι : Type}
  (P : Contracts S allow ι)

/-- Fibers that are bound stay bound. -/
def roles : Roles S allow ι where
  plays := P.plays
  good i fiber := (P.contract i).Binds fiber
  inv := P.inv
  effect := by
    intro w w' t a i e r σ k next hinv hplays hbinds hallow hexec
    obtain ⟨hrelies, hinv', hplays'⟩ := P.effect hinv hplays hbinds.1.1 hallow hexec
    exact ⟨⟨hbinds.1.2 r hrelies, hbinds.2⟩, hinv', hplays'⟩
  round h := ⟨h.2 _, h.2⟩
  env := P.env
  start := P.start
  crash := P.crash

omit [DecidableEq T] in
/-- A task that is about to perform an effect does as its role promises. -/
theorem about {c : Config T E R W} (h : P.roles.Kept c) {t : T} {e : E} (habout : c.About t e) :
    ∃ i, P.plays c.world t i ∧ (P.contract i).promises e := by
  obtain ⟨-, fiber, k, hfiber, hop⟩ := habout
  obtain ⟨i, hplays, hbinds⟩ := h.tasks t fiber hfiber
  have hkeeps := hbinds.1
  rw [hop] at hkeeps
  exact ⟨i, hplays, hkeeps.1⟩

end Contracts

end Coro
