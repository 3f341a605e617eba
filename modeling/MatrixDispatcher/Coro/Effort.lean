import MatrixDispatcher.Coro.Machine
import Mathlib.Algebra.Order.BigOperators.Group.Finset

/-!
# Tasks that run once, and how long they take

A task that runs its program once, and performs at most `n` effects in it, makes at most `n + 1`
steps. If all the tasks of a configuration are such tasks, then the steps that they can make
together are bounded, whatever the schedule and the responses are, as long as no task is started.

* `EndsWithin` — the program ends after at most `n` effects.
* `Machine.length_le_of_run` — the bound on schedules.
-/

namespace Coro

variable {T E : Type} {R : E → Type} {A W α β : Type}

/-- The program ends after at most `n` effects, with a result that satisfies `P`. -/
def EndsWithin (P : α → Prop) : Nat → Coro E R α → Prop
  | _, .ret a => P a
  | 0, .op _ _ => False
  | n + 1, .op _ k => ∀ r, (k r).EndsWithin P n

namespace EndsWithin

variable {P : α → Prop} {Q : β → Prop} {p : Coro E R α} {m n : Nat}

theorem mono (h : p.EndsWithin P m) (hle : m ≤ n) : p.EndsWithin P n := by
  induction p generalizing m n with
  | ret a => cases m <;> cases n <;> exact h
  | op e k ih =>
    cases m with
    | zero => exact h.elim
    | succ m =>
      cases n with
      | zero => cases hle
      | succ n => exact fun r => ih r (h r) (Nat.le_of_succ_le_succ hle)

theorem bind {f : α → Coro E R β} (hp : p.EndsWithin P m) (hf : ∀ a, P a → (f a).EndsWithin Q n) :
    (p >>= f).EndsWithin Q (m + n) := by
  induction p generalizing m with
  | ret a =>
    have ha : P a := by cases m <;> exact hp
    exact (hf a ha).mono (Nat.le_add_left n m)
  | op e k ih =>
    cases m with
    | zero => exact hp.elim
    | succ m =>
      rw [Nat.succ_add]
      exact fun r => ih r (hp r)

/-- What a program that is at an effect does next. -/
theorem of_op {e : E} {k : R e → Coro E R α} (h : (op e k).EndsWithin P n) :
    ∃ m, n = m + 1 ∧ ∀ r, (k r).EndsWithin P m := by
  cases n with
  | zero => exact h.elim
  | succ m => exact ⟨m, rfl, h⟩

end EndsWithin

namespace Machine

variable [DecidableEq T] {S : Machine T E R A W}

/-- The tasks of `c` are among `live`, run once, and task `t` makes fewer than `f t` more
effects. -/
def Budget (c : Config T E R W) (live : Finset T) (f : T → Nat) : Prop :=
  ∀ t fiber, c.tasks t = some fiber →
    t ∈ live ∧ ∃ n, f t = n + 1 ∧ fiber.prog.EndsWithin (· = none) n

omit [DecidableEq T] in
theorem Budget.mono {c : Config T E R W} {live live' : Finset T} {f f' : T → Nat}
    (h : Budget c live f) (hlive : live ⊆ live') (hle : ∀ t, f t ≤ f' t) : Budget c live' f' := by
  intro t fiber ht
  obtain ⟨hmem, n, hn, hends⟩ := h t fiber ht
  have hpos : n + 1 ≤ f' t := hn ▸ hle t
  obtain ⟨m, hm⟩ := Nat.exists_eq_add_of_lt hpos
  exact ⟨hlive hmem, n + m, by omega, hends.mono (Nat.le_add_right n m)⟩

/-- A step of a task is taken from its budget. -/
theorem Budget.step {c c' : Config T E R W} {live : Finset T} {f : T → Nat} {t : T} {a : A}
    (h : Budget c live f) (hstep : S.step c (.task t a) = some c') :
    ∃ f', Budget c' live f' ∧ (∀ u, f' u ≤ f u) ∧ ∑ u ∈ live, f' u < ∑ u ∈ live, f u := by
  -- the budget of `t` gets smaller, and those of the others stay
  have hless : ∀ n, t ∈ live → n < f t → (∀ u, Function.update f t n u ≤ f u) ∧
      ∑ u ∈ live, Function.update f t n u < ∑ u ∈ live, f u := by
    intro n ht hn
    have hle : ∀ u, Function.update f t n u ≤ f u := fun u => by
      by_cases hut : u = t
      · subst hut
        rw [Function.update_self]
        exact hn.le
      · rw [Function.update_of_ne hut]
    exact ⟨hle, Finset.sum_lt_sum (fun u _ => hle u) ⟨t, ht, by rwa [Function.update_self]⟩⟩
  have hothers : ∀ {n : Nat} {tasks : T → Option (Fiber E R)}, (∀ u, u ≠ t → tasks u = c.tasks u) →
      (∀ fiber, tasks t = some fiber → t ∈ live ∧ ∃ m, n = m + 1 ∧
        fiber.prog.EndsWithin (· = none) m) →
      ∀ u fiber, tasks u = some fiber → u ∈ live ∧ ∃ m, Function.update f t n u = m + 1 ∧
        fiber.prog.EndsWithin (· = none) m := by
    intro n tasks hsame hself u fiber hu
    by_cases hut : u = t
    · subst hut
      rw [Function.update_self]
      exact hself fiber hu
    · rw [Function.update_of_ne hut]
      exact h u fiber (hsame u hut ▸ hu)
  rw [Machine.step] at hstep
  split at hstep
  · split at hstep
    · cases hstep
    · next htask =>
      cases hstep
      obtain ⟨ht, n, hn, -⟩ := h t _ htask
      refine ⟨Function.update f t 0, hothers (fun u hu => Function.update_of_ne hu _ _) ?_,
        hless 0 ht (by omega)⟩
      intro fiber hnone
      change Function.update c.tasks t none t = some fiber at hnone
      rw [Function.update_self] at hnone
      cases hnone
    · next htask =>
      -- a program that ends with another round runs more than once
      obtain ⟨ht, n, hn, hends⟩ := h t _ htask
      cases n <;> cases hends
    · next e k next htask =>
      split at hstep
      · cases hstep
      · next r w hexec =>
        cases hstep
        obtain ⟨ht, n, hn, hends⟩ := h t _ htask
        obtain ⟨m, rfl, hk⟩ := hends.of_op
        refine ⟨Function.update f t (m + 1), hothers (fun u hu => Function.update_of_ne hu _ _) ?_,
          hless _ ht (by omega)⟩
        intro fiber hsome
        change Function.update c.tasks t (some ⟨_, k r, next⟩) t = some fiber at hsome
        rw [Function.update_self] at hsome
        cases hsome
        exact ⟨ht, m, rfl, hk r⟩
  · cases hstep

/-- The steps that the tasks of a configuration make are bounded by their budgets. -/
theorem length_le_of_run {c c' : Config T E R W} {live : Finset T} {f : T → Nat}
    (h : Budget c live f) {labels : List (Label T A)}
    (htasks : ∀ l ∈ labels, ∃ t a, l = .task t a)
    (hrun : S.run (fun _ _ => True) c labels = some c') :
    labels.length ≤ ∑ t ∈ live, f t := by
  induction labels generalizing c f with
  | nil => exact Nat.zero_le _
  | cons l labels ih =>
    obtain ⟨t, a, rfl⟩ := htasks l List.mem_cons_self
    rw [run, if_pos trivial] at hrun
    split at hrun
    · cases hrun
    · next c₁ hstep =>
      obtain ⟨f', hbudget, -, hless⟩ := h.step hstep
      have hrest := ih hbudget (fun l hl => htasks l (List.mem_cons_of_mem _ hl)) hrun
      rw [List.length_cons]
      omega

/-! ## Tasks that can go on -/

/-- The task that has the processor is at an effect that does not await, or at its end. -/
theorem Reachable.running {allow : W → Event T E A → Prop} {w₀ : W} {c : Config T E R W}
    (h : S.Reachable allow (.ofWorld w₀) c) {t : T} (ht : c.running = some t) :
    ∃ fiber, c.tasks t = some fiber ∧ fiber.holdsProcessor S.awaits = true := by
  -- a task that has gone on
  have hresume : ∀ {c : Config T E R W} {u : T} {fiber : Fiber E R} {w : W},
      (c.resume S u fiber w).running = some t →
      ∃ fiber', (c.resume S u fiber w).tasks t = some fiber' ∧
        fiber'.holdsProcessor S.awaits = true := by
    intro c u fiber w hrun
    rw [Config.resume] at hrun
    dsimp only at hrun
    split at hrun
    · next hholds =>
      cases hrun
      exact ⟨fiber, Function.update_self .., hholds⟩
    · cases hrun
  induction h with
  | refl => cases ht
  | @step c c' l _ _ hstep ih =>
    cases l with
    | task u a =>
      rw [Machine.step] at hstep
      split at hstep
      · split at hstep
        · cases hstep
        · cases hstep
          cases ht
        · cases hstep
          exact hresume ht
        · split at hstep
          · cases hstep
          · cases hstep
            exact hresume ht
      · cases hstep
    | env a =>
      obtain ⟨w, -, rfl⟩ := Option.map_eq_some_iff.mp hstep
      exact ih ht
    | start a =>
      rw [Machine.step] at hstep
      split at hstep
      · cases hstep
      · next u fiber w hstart =>
        split at hstep
        · cases hstep
        · next hnone =>
          cases hstep
          obtain ⟨fiber', htask, hholds⟩ := ih ht
          refine ⟨fiber', ?_, hholds⟩
          have htu : t ≠ u := by
            rintro rfl
            rw [hnone] at htask
            cases htask
          exact (Function.update_of_ne htu _ _).trans htask
    | crash a =>
      obtain ⟨w, -, rfl⟩ := Option.map_eq_some_iff.mp hstep
      cases ht

/-- A task that may move can make a step, unless its next effect is not possible. -/
theorem exists_step {c : Config T E R W} {t : T} {fiber : Fiber E R} (hfree : c.Free t)
    (htask : c.tasks t = some fiber)
    (hop : ∀ e, c.About t e → ∃ a r w, S.exec t a e c.world = some (r, w)) (a : A) :
    ∃ a c', S.step c (.task t a) = some c' := by
  obtain ⟨State, prog, next⟩ := fiber
  cases prog with
  | ret o =>
    refine ⟨a, ?_⟩
    rw [Machine.step, if_pos hfree, htask]
    cases o <;> exact ⟨_, rfl⟩
  | op e k =>
    obtain ⟨a', r, w, hexec⟩ := hop e ⟨hfree, _, k, htask, rfl⟩
    exact ⟨a', _, step_op hfree htask hexec⟩

end Machine

end Coro
