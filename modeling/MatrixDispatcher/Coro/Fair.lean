import MatrixDispatcher.Coro.Effort
import MatrixDispatcher.Coro.Progress

/-!
# Endless runs and fairness

An endless run of a machine is fair if the task with the processor goes on, and if nobody is passed
over for ever who can go on each time that nobody has the processor. Programs are finite, so in a
fair run a task whose steps are not held up by others comes to the end of its round, and the
processor becomes free again and again.

* `Arrives` — what a program comes to, whatever the responses are.
* `Run` — an endless run; `Run.Fair` — the two kinds of fairness.
* `Run.exists_idle` — the processor becomes free.
* `Run.moves_of_ready`, `Run.arrives`, `Run.completes`, `Run.ends` — tasks that are not held up go
  on, come to what their programs come to, complete their rounds and end.
* `exists_fair` — a finite run that leads to a fair endless one is the beginning of one.
-/

namespace Coro

variable {T E : Type} {R : E → Type} {A W α β : Type}

/-! ## What a program comes to -/

/-- Whatever the responses are, the program comes to an effect at which it `stops`, or it ends with
a result that satisfies `P`. -/
def Arrives (stops : E → Bool) (P : α → Prop) : Coro E R α → Prop
  | .ret a => P a
  | .op e k => stops e = true ∨ ∀ r, (k r).Arrives stops P

namespace Arrives

variable {stops : E → Bool} {P : α → Prop} {Q : β → Prop} {p : Coro E R α}

theorem bind {f : α → Coro E R β} (hp : p.Arrives stops P)
    (hf : ∀ a, P a → (f a).Arrives stops Q) : (p >>= f).Arrives stops Q := by
  induction p with
  | ret a => exact hf a hp
  | op e k ih => exact hp.imp_right fun hk r => ih r (hk r)

/-- Nothing is said of the result. -/
theorem anyhow (p : Coro E R α) : p.Arrives stops fun _ => True := by
  induction p with
  | ret a => trivial
  | op e k ih => exact .inr ih

/-- A program that does not stop at its first effect. -/
theorem of_op {e : E} {k : R e → Coro E R α} (h : (op e k).Arrives stops P)
    (hstop : stops e = false) (r : R e) : (k r).Arrives stops P :=
  (h.resolve_left fun hstops => by simp [hstop] at hstops) r

end Arrives

/-- The task ends with the round that it is in. -/
def Fiber.EndsNow (fiber : Fiber E R) : Prop := fiber.prog.Arrives (fun _ => false) (· = none)

/-- In none of the rounds to come is the task able to complete the round and to go into the next
one without giving up the processor. -/
def Fiber.Yields (awaits : E → Bool) (fiber : Fiber E R) : Prop :=
  ∀ s, (fiber.next s).Arrives awaits (· = none)

theorem Fiber.endsNow_once (p : Coro E R Unit) : (Fiber.once p).EndsNow :=
  (Arrives.anyhow p).bind fun _ _ => rfl

namespace Machine

variable [DecidableEq T] {S : Machine T E R A W}

/-! ## Single steps -/

/-- A step of another task leaves a task where it stands. -/
theorem tasks_of_step {c c' : Config T E R W} {l : Label T A} {t : T} {fiber : Fiber E R}
    (hstep : S.step c l = some c') (htask : c.tasks t = some fiber)
    (hother : ∀ a, l ≠ .task t a) (hcrash : ∀ a, l ≠ .crash a) : c'.tasks t = some fiber := by
  cases l with
  | task u a =>
    -- The task that moves is another one.
    have hut : t ≠ u := by
      rintro rfl
      exact hother a rfl
    rw [Machine.step] at hstep
    split at hstep
    case isFalse => cases hstep
    split at hstep
    · cases hstep
    · obtain rfl := Option.some.inj hstep
      exact (Function.update_of_ne hut _ _).trans htask
    · obtain rfl := Option.some.inj hstep
      exact (Function.update_of_ne hut _ _).trans htask
    · split at hstep
      · cases hstep
      · obtain rfl := Option.some.inj hstep
        exact (Function.update_of_ne hut _ _).trans htask
  | env a =>
    obtain ⟨w, -, rfl⟩ := Option.map_eq_some_iff.mp hstep
    exact htask
  | start a =>
    rw [Machine.step] at hstep
    split at hstep
    · cases hstep
    next u fiber' w _ =>
    split at hstep
    · cases hstep
    next hnone =>
    obtain rfl := Option.some.inj hstep
    have hut : t ≠ u := by
      rintro rfl
      rw [hnone] at htask
      cases htask
    exact (Function.update_of_ne hut _ _).trans htask
  | crash a => exact absurd rfl (hcrash a)

/-- What a task does in a step of its own. -/
inductive Went (S : Machine T E R A W) (c : Config T E R W) (t : T) (a : A) :
    Fiber E R → Config T E R W → Prop
  /-- The task ends. -/
  | ended {σ : Type} {next : σ → Coro E R (Option σ)} :
    Went S c t a ⟨σ, .ret none, next⟩
      { c with tasks := Function.update c.tasks t none, running := none }
  /-- The task goes into its next round. -/
  | round {σ : Type} {s : σ} {next : σ → Coro E R (Option σ)} :
    Went S c t a ⟨σ, .ret (some s), next⟩ (c.resume S t ⟨σ, next s, next⟩ c.world)
  /-- The task performs its next effect. -/
  | performed {σ : Type} {e : E} {k : R e → Coro E R (Option σ)} {next : σ → Coro E R (Option σ)}
      {r : R e} {w : W} (hexec : S.exec t a e c.world = some (r, w)) :
    Went S c t a ⟨σ, .op e k, next⟩ (c.resume S t ⟨σ, k r, next⟩ w)

theorem went_of_step {c c' : Config T E R W} {t : T} {a : A} {fiber : Fiber E R}
    (hstep : S.step c (.task t a) = some c') (htask : c.tasks t = some fiber) :
    c.Free t ∧ Went S c t a fiber c' := by
  rw [Machine.step] at hstep
  split at hstep
  case isFalse => cases hstep
  next hfree =>
  refine ⟨hfree, ?_⟩
  rw [htask] at hstep
  obtain ⟨State, prog, next⟩ := fiber
  cases prog with
  | ret o =>
    cases o with
    | none =>
      obtain rfl := Option.some.inj hstep
      exact .ended
    | some s =>
      obtain rfl := Option.some.inj hstep
      exact .round
  | op e k =>
    dsimp only at hstep
    split at hstep
    · cases hstep
    · next hexec =>
      obtain rfl := Option.some.inj hstep
      exact .performed hexec

/-- The processor is not taken from a task. -/
theorem running_of_step {c c' : Config T E R W} {l : Label T A} {t : T}
    (hstep : S.step c l = some c') (hrunning : c.running = some t) :
    c'.running = some t ∨ c'.running = none := by
  -- Only the task that has the processor is free to go on, and it gives it up at its awaits.
  have hresume : ∀ {u : T} {fiber : Fiber E R} {w : W}, c.Free u →
      (c.resume S u fiber w).running = some t ∨ (c.resume S u fiber w).running = none := by
    intro u fiber w hfree
    obtain rfl : u = t := by
      rcases hfree with hnone | hsome
      · simp [hnone] at hrunning
      · exact Option.some.inj (hsome.symm.trans hrunning)
    by_cases hholds : fiber.holdsProcessor S.awaits = true
    · exact .inl (by simp [Config.resume, hholds])
    · exact .inr (by simp [Config.resume, hholds])
  cases l with
  | task u a =>
    cases htask : c.tasks u with
    | none => simp [Machine.step, htask] at hstep
    | some fiber =>
      obtain ⟨hfree, hwent⟩ := went_of_step hstep htask
      cases hwent with
      | ended => exact .inr rfl
      | round => exact hresume hfree
      | performed _ => exact hresume hfree
  | env a =>
    obtain ⟨w, -, rfl⟩ := Option.map_eq_some_iff.mp hstep
    exact .inl hrunning
  | start a =>
    rw [Machine.step] at hstep
    split at hstep
    · cases hstep
    split at hstep
    · cases hstep
    obtain rfl := Option.some.inj hstep
    exact .inl hrunning
  | crash a =>
    obtain ⟨w, -, rfl⟩ := Option.map_eq_some_iff.mp hstep
    exact .inr rfl

/-- What is true of the tasks that start, and stays true from effect to effect and from round to
round, is true of all tasks. -/
theorem Reachable.fibers {allow : W → Event T E A → Prop} {Q : T → Fiber E R → Prop}
    {I : W → Prop} {w₀ : W} {c : Config T E R W}
    (hop : ∀ {t σ e k next}, Q t ⟨σ, .op e k, next⟩ → ∀ r, Q t ⟨σ, k r, next⟩)
    (hround : ∀ {t σ s next}, Q t ⟨σ, .ret (some s), next⟩ → Q t ⟨σ, next s, next⟩)
    (hstart : ∀ {a w t fiber w'}, I w → S.start a w = some (t, fiber, w') → Q t fiber)
    (hI : ∀ c, S.Reachable allow (.ofWorld w₀) c → I c.world)
    (h : S.Reachable allow (.ofWorld w₀) c) :
    ∀ t fiber, c.tasks t = some fiber → Q t fiber := by
  induction h with
  | refl =>
    intro t fiber htask
    cases htask
  | @step c c' l hreach _ hstep ih =>
    -- The task that goes on has `Q`, and the others keep it.
    have hresume : ∀ {u : T} {fiber : Fiber E R} {w : W}, Q u fiber →
        ∀ t fiber', (c.resume S u fiber w).tasks t = some fiber' → Q t fiber' := by
      intro u fiber w hQ t fiber' htask
      by_cases hut : t = u
      · subst hut
        obtain rfl : fiber = fiber' := by simpa [Config.resume] using htask
        exact hQ
      · exact ih t fiber' (by simpa [Config.resume, hut] using htask)
    cases l with
    | task u a =>
      cases hu : c.tasks u with
      | none => simp [Machine.step, hu] at hstep
      | some fiber =>
        obtain ⟨-, hwent⟩ := went_of_step hstep hu
        cases hwent with
        | ended =>
          intro t fiber' htask
          by_cases hut : t = u
          · subst hut
            simp at htask
          · exact ih t fiber' (by simpa [hut] using htask)
        | round => exact hresume (hround (ih u _ hu))
        | performed _ => exact hresume (hop (ih u _ hu) _)
    | env a =>
      obtain ⟨w, -, rfl⟩ := Option.map_eq_some_iff.mp hstep
      exact ih
    | start a =>
      rw [Machine.step] at hstep
      split at hstep
      · cases hstep
      next u fiber w hw =>
      split at hstep
      · cases hstep
      obtain rfl := Option.some.inj hstep
      intro t fiber' htask
      by_cases hut : t = u
      · subst hut
        obtain rfl : fiber = fiber' := by simpa using htask
        exact hstart (hI c hreach) hw
      · exact ih t fiber' (by simpa [hut] using htask)
    | crash a =>
      obtain ⟨w, -, rfl⟩ := Option.map_eq_some_iff.mp hstep
      intro t fiber htask
      cases htask

/-! ## Endless runs -/

/-- An endless run in which every step is allowed. -/
structure Run (S : Machine T E R A W) (allow : W → Event T E A → Prop) where
  /-- The configuration before the step with this number. -/
  conf : Nat → Config T E R W
  /-- The step with this number. -/
  label : Nat → Label T A
  allowed : ∀ n, allow (conf n).world (event (conf n) (label n))
  step : ∀ n, S.step (conf n) (label n) = some (conf (n + 1))

namespace Run

variable {allow : W → Event T E A → Prop} (r : Run S allow)

/-- The step with this number is one of the task. -/
def Moves (t : T) (n : Nat) : Prop := ∃ a, r.label n = .task t a

/-- With the step of this number the task performs the effect. -/
def Performs (t : T) (e : E) (n : Nat) : Prop :=
  ∃ a res, S.exec t a e (r.conf n).world = some (res, (r.conf (n + 1)).world)

/-- With the step of this number the task starts. -/
def Starts (t : T) (n : Nat) : Prop :=
  ∃ a fiber w, r.label n = .start a ∧ S.start a (r.conf n).world = some (t, fiber, w)

/-- The process never dies. -/
def Lives : Prop := ∀ n a, r.label n ≠ .crash a

/-- The event loop is fair to the tasks, where `ready` says which tasks can go on. -/
structure Fair (ready : Config T E R W → T → Prop) : Prop where
  /-- The task that has the processor goes on. -/
  processor : ∀ n t, (r.conf n).running = some t → ∃ m ≥ n, r.Moves t m
  /-- A task that can go on each time that nobody has the processor goes on. -/
  turn : ∀ n t, (∀ m ≥ n, (r.conf m).running = none → ready (r.conf m) t) →
    ∃ m ≥ n, r.Moves t m ∨ r.Starts t m

variable {r} {ready : Config T E R W → T → Prop} {t : T} {fiber : Fiber E R} {m n : Nat}

theorem reachable (r : Run S allow) (h : m ≤ n) :
    S.Reachable allow (r.conf m) (r.conf n) := by
  induction n, h using Nat.le_induction with
  | base => exact .refl
  | succ n _ ih => exact .step _ ih (r.allowed n) (r.step n)

theorem reached {w₀ : W} (h : S.Reachable allow (.ofWorld w₀) (r.conf 0)) (n : Nat) :
    S.Reachable allow (.ofWorld w₀) (r.conf n) :=
  h.trans (r.reachable (Nat.zero_le n))

/-- A task that does not move stays where it stands. -/
theorem stands (hlives : r.Lives) (htask : (r.conf n).tasks t = some fiber) (h : n ≤ m)
    (hstill : ∀ k, n ≤ k → k < m → ¬ r.Moves t k) : (r.conf m).tasks t = some fiber := by
  induction m, h using Nat.le_induction with
  | base => exact htask
  | succ m h ih =>
    refine tasks_of_step (r.step m) (ih fun k hk hkm => hstill k hk (by omega)) ?_ (hlives m)
    exact fun a heq => hstill m h (Nat.lt_succ_self m) ⟨a, heq⟩

/-- The next step of a task is made from where it stands. -/
theorem next_move (hlives : r.Lives) (htask : (r.conf n).tasks t = some fiber)
    (hmoves : ∃ m ≥ n, r.Moves t m) :
    ∃ m ≥ n, (r.conf m).tasks t = some fiber ∧ r.Moves t m := by
  classical
  obtain ⟨hn, hmove⟩ := Nat.find_spec hmoves
  refine ⟨Nat.find hmoves, hn, stands hlives htask hn fun k hk hlt hmoves' => ?_, hmove⟩
  exact Nat.find_min hmoves hlt ⟨hk, hmoves'⟩

/-- What the next step of a task makes of it. -/
theorem next_went (hlives : r.Lives) (htask : (r.conf n).tasks t = some fiber)
    (hmoves : ∃ m ≥ n, r.Moves t m) :
    ∃ m ≥ n, ∃ a, (r.conf m).tasks t = some fiber ∧
      Went S (r.conf m) t a fiber (r.conf (m + 1)) := by
  obtain ⟨m, hm, htask', a, hlabel⟩ := next_move hlives htask hmoves
  have hstep := r.step m
  rw [hlabel] at hstep
  exact ⟨m, hm, a, htask', (went_of_step hstep htask').2⟩

/-! ### The processor becomes free -/

section

variable {w₀ : W} (hreach : S.Reachable allow (.ofWorld w₀) (r.conf 0)) (hlives : r.Lives)
  (hfair : r.Fair ready)

include hreach hlives hfair

/-- A task that has the processor for ever does not complete a round in which it would have to
give it up. -/
theorem not_running_of_arrives {σ : Type} {next : σ → Coro E R (Option σ)}
    {p : Coro E R (Option σ)} (hp : p.Arrives S.awaits (· = none))
    (htask : (r.conf n).tasks t = some ⟨σ, p, next⟩) :
    ¬ ∀ m ≥ n, (r.conf m).running = some t := by
  induction p generalizing n with
  | ret o =>
    intro hrunning
    obtain rfl : o = none := hp
    obtain ⟨m, hm, a, -, hwent⟩ := next_went hlives htask (hfair.processor n t (hrunning n le_rfl))
    have hidle : (r.conf (m + 1)).running = none := by
      generalize r.conf (m + 1) = c' at hwent
      cases hwent
      rfl
    simp [hrunning (m + 1) (by omega)] at hidle
  | op e k ih =>
    intro hrunning
    -- the task keeps the processor, so the effect does not await
    obtain ⟨fiber', htask', hholds⟩ :=
      Reachable.running (r.reached hreach n) (hrunning n le_rfl)
    obtain rfl := Option.some.inj (htask.symm.trans htask')
    have hstop : S.awaits e = false := by simpa [Fiber.holdsProcessor] using hholds
    obtain ⟨m, hm, a, -, hwent⟩ := next_went hlives htask (hfair.processor n t (hrunning n le_rfl))
    have hnext : ∃ res, (r.conf (m + 1)).tasks t = some ⟨σ, k res, next⟩ := by
      generalize r.conf (m + 1) = c' at hwent
      cases hwent with
      | performed _ => exact ⟨_, Function.update_self ..⟩
    obtain ⟨res, hnext⟩ := hnext
    exact ih res (hp.of_op hstop res) hnext fun k hk => hrunning k (by omega)

/-- No task has the processor for ever, if none goes round in its loop without giving it up. -/
theorem exists_idle (hyields : ∀ n t fiber, (r.conf n).tasks t = some fiber →
    fiber.Yields S.awaits) (n : Nat) : ∃ m ≥ n, (r.conf m).running = none := by
  by_contra! hbusy
  obtain ⟨t, ht⟩ := Option.ne_none_iff_exists'.mp (hbusy n le_rfl)
  have hrunning : ∀ m ≥ n, (r.conf m).running = some t := by
    intro m hm
    induction m, hm using Nat.le_induction with
    | base => exact ht
    | succ m hm ih =>
      exact (running_of_step (r.step m) ih).resolve_right (hbusy (m + 1) (by omega))
  obtain ⟨⟨σ, p, next⟩, htask, -⟩ := Reachable.running (r.reached hreach n) ht
  have hnext : ∀ s, (next s).Arrives S.awaits (· = none) := hyields n t _ htask
  clear ht hbusy
  -- the rest of the round, and then the next one
  induction p generalizing n with
  | ret o =>
    cases o with
    | none => exact not_running_of_arrives hreach hlives hfair (p := .ret none) rfl htask hrunning
    | some s =>
      obtain ⟨m, hm, a, -, hwent⟩ :=
        next_went hlives htask (hfair.processor n t (hrunning n le_rfl))
      have hround : (r.conf (m + 1)).tasks t = some ⟨σ, next s, next⟩ := by
        generalize r.conf (m + 1) = c' at hwent
        cases hwent with
        | round => exact Function.update_self ..
      exact not_running_of_arrives hreach hlives hfair (hnext s) hround fun k hk =>
        hrunning k (by omega)
  | op e k ih =>
    obtain ⟨m, hm, a, -, hwent⟩ := next_went hlives htask (hfair.processor n t (hrunning n le_rfl))
    have hrest : ∃ res, (r.conf (m + 1)).tasks t = some ⟨σ, k res, next⟩ := by
      generalize r.conf (m + 1) = c' at hwent
      cases hwent with
      | performed _ => exact ⟨_, Function.update_self ..⟩
    obtain ⟨res, hrest⟩ := hrest
    exact ih res (m + 1) (fun k hk => hrunning k (by omega)) hrest

end

/-! ### Tasks that are not held up -/

section

variable (hlives : r.Lives) (hfair : r.Fair ready)

include hlives hfair

/-- A task that can go on from where it stands, each time that nobody has the processor, moves. -/
theorem moves_of_ready (htask : (r.conf n).tasks t = some fiber)
    (hready : ∀ m ≥ n, (r.conf m).running = none → (r.conf m).tasks t = some fiber →
      ready (r.conf m) t) : ∃ m ≥ n, r.Moves t m := by
  by_contra! hstill
  have hstands : ∀ m ≥ n, (r.conf m).tasks t = some fiber := fun m hm =>
    stands hlives htask hm fun k hk _ => hstill k hk
  obtain ⟨m, hm, hmoves | ⟨a, fiber', w, hlabel, hstart⟩⟩ :=
    hfair.turn n t fun m hm hidle => hready m hm hidle (hstands m hm)
  · exact hstill m hm hmoves
  · -- a task that runs does not start
    have hstep := r.step m
    rw [hlabel, Machine.step, hstart] at hstep
    simp [hstands m hm] at hstep

omit hlives in
/-- A task that can start, each time that nobody has the processor, starts. -/
theorem starts_of_ready (hready : ∀ m ≥ n, (r.conf m).running = none →
    (r.conf m).tasks t = none → ready (r.conf m) t) : ∃ m ≥ n, (r.conf m).tasks t ≠ none := by
  by_contra! hnever
  obtain ⟨m, hm, ⟨a, hlabel⟩ | ⟨a, fiber', w, hlabel, hstart⟩⟩ :=
    hfair.turn n t fun m hm hidle => hready m hm hidle (hnever m hm)
  · have hstep := r.step m
    rw [hlabel, Machine.step] at hstep
    simp [hnever m hm] at hstep
  · have hstep := r.step m
    rw [hlabel, Machine.step, hstart] at hstep
    simp only [hnever m hm, Option.some.injEq] at hstep
    have hnone := hnever (m + 1) (by omega)
    rw [← hstep] at hnone
    simp at hnone

omit hfair in
/-- A task whose steps are not held up comes to what its program comes to. -/
theorem arrives {σ : Type} {next : σ → Coro E R (Option σ)} {p : Coro E R (Option σ)}
    {stops : E → Bool} {P : Option σ → Prop} (hp : p.Arrives stops P)
    (hmoves : ∀ m ≥ n, (r.conf m).tasks t ≠ none → ∃ k ≥ m, r.Moves t k)
    (htask : (r.conf n).tasks t = some ⟨σ, p, next⟩) :
    (∃ m ≥ n, ∃ e, stops e = true ∧ r.Performs t e m) ∨
      ∃ m ≥ n, ∃ o, P o ∧ (r.conf m).tasks t = some ⟨σ, .ret o, next⟩ := by
  -- By induction on the program: every step of the task is one effect of it.
  induction p generalizing n with
  | ret o => exact .inr ⟨n, le_rfl, o, hp, htask⟩
  | op e k ih =>
    obtain ⟨m, hm, a, -, hwent⟩ := next_went hlives htask (hmoves n le_rfl (by simp [htask]))
    have hrest : ∃ res, S.exec t a e (r.conf m).world = some (res, (r.conf (m + 1)).world) ∧
        (r.conf (m + 1)).tasks t = some ⟨σ, k res, next⟩ := by
      generalize r.conf (m + 1) = c' at hwent
      cases hwent with
      | performed hexec => exact ⟨_, hexec, Function.update_self ..⟩
    obtain ⟨res, hexec, hrest⟩ := hrest
    by_cases hstop : stops e = true
    · exact .inl ⟨m, hm, e, hstop, a, res, hexec⟩
    · -- the rest of the program
      refine (ih res (hp.of_op (by simpa using hstop) res) (fun k hk => hmoves k (by omega))
        hrest).imp ?_ ?_
      · rintro ⟨m', hm', hperforms⟩
        exact ⟨m', by omega, hperforms⟩
      · rintro ⟨m', hm', hend⟩
        exact ⟨m', by omega, hend⟩

omit hfair in
/-- A task whose steps are not held up comes to the end of its round. -/
theorem completes {σ : Type} {next : σ → Coro E R (Option σ)} {p : Coro E R (Option σ)}
    {P : Option σ → Prop} (hp : p.Arrives (fun _ => false) P)
    (hmoves : ∀ m ≥ n, (r.conf m).tasks t ≠ none → ∃ k ≥ m, r.Moves t k)
    (htask : (r.conf n).tasks t = some ⟨σ, p, next⟩) :
    ∃ m ≥ n, ∃ o, P o ∧ (r.conf m).tasks t = some ⟨σ, .ret o, next⟩ := by
  rcases arrives hlives hp hmoves htask with ⟨m, hm, e, hstop, -⟩ | hend
  · cases hstop
  · exact hend

omit hfair in
/-- A task whose steps are not held up ends, if it goes into no other round. -/
theorem ends (hends : fiber.EndsNow)
    (hmoves : ∀ m ≥ n, (r.conf m).tasks t ≠ none → ∃ k ≥ m, r.Moves t k)
    (htask : (r.conf n).tasks t = some fiber) : ∃ m ≥ n, (r.conf m).tasks t = none := by
  obtain ⟨σ, p, next⟩ := fiber
  obtain ⟨m, hm, o, rfl, hret⟩ := completes hlives hends hmoves htask
  obtain ⟨k, hk, a, -, hwent⟩ := next_went hlives hret (hmoves m hm (by simp [hret]))
  refine ⟨k + 1, by omega, ?_⟩
  generalize r.conf (k + 1) = c' at hwent
  cases hwent
  exact Function.update_self ..

end

/-! ### Fair runs exist -/

/-- The run that makes one and the same step again and again. -/
def stay {c : Config T E R W} {l : Label T A} (hallow : allow c.world (event c l))
    (hstep : S.step c l = some c) : Run S allow where
  conf _ := c
  label _ := l
  allowed _ := hallow
  step _ := hstep

/-- A run with one more step before it. -/
def cons (r : Run S allow) {c : Config T E R W} {l : Label T A}
    (hallow : allow c.world (event c l)) (hstep : S.step c l = some (r.conf 0)) : Run S allow where
  conf
    | 0 => c
    | n + 1 => r.conf n
  label
    | 0 => l
    | n + 1 => r.label n
  allowed
    | 0 => hallow
    | n + 1 => r.allowed n
  step
    | 0 => hstep
    | n + 1 => r.step n

omit [DecidableEq T] in
/-- A step from the tail is one of the whole. -/
private theorem later {P : Nat → Prop} {n : Nat} (h : ∃ m ≥ n, P (m + 1)) :
    ∃ m ≥ n, P m := by
  obtain ⟨m, hm, hP⟩ := h
  exact ⟨m + 1, by omega, hP⟩

theorem Fair.cons {c : Config T E R W} {l : Label T A} (hfair : r.Fair ready)
    (hcrash : ∀ a, l ≠ .crash a) (hallow : allow c.world (event c l))
    (hstep : S.step c l = some (r.conf 0)) : (r.cons hallow hstep).Fair ready where
  processor n t hrunning := by
    cases n with
    | zero =>
      -- the task itself makes the first step, or it still has the processor after it
      by_cases hlabel : ∃ a, l = .task t a
      · exact ⟨0, le_rfl, hlabel⟩
      refine later (P := (r.cons hallow hstep).Moves t) (hfair.processor 0 t ?_)
      replace hrunning : c.running = some t := hrunning
      cases l with
      | task u a =>
        have hfree : c.Free u := by
          rw [Machine.step] at hstep
          split at hstep
          · assumption
          · cases hstep
        rcases hfree with hnone | hsome
        · simp [hnone] at hrunning
        · obtain rfl := Option.some.inj (hsome.symm.trans hrunning)
          exact absurd ⟨a, rfl⟩ hlabel
      | env a =>
        obtain ⟨w, -, heq⟩ := Option.map_eq_some_iff.mp hstep
        rw [← heq]
        exact hrunning
      | start a =>
        rw [Machine.step] at hstep
        split at hstep
        · cases hstep
        split at hstep
        · cases hstep
        rw [← Option.some.inj hstep]
        exact hrunning
      | crash a => exact absurd rfl (hcrash a)
    | succ n =>
      obtain ⟨m, hm, hmoves⟩ := hfair.processor n t hrunning
      exact ⟨m + 1, by omega, hmoves⟩
  turn n t hready := by
    cases n with
    | zero =>
      exact later (P := fun m => (r.cons hallow hstep).Moves t m ∨ (r.cons hallow hstep).Starts t m)
        (hfair.turn 0 t fun m _ hidle => hready (m + 1) (by omega) hidle)
    | succ n =>
      obtain ⟨m, hm, hturn⟩ := hfair.turn n t fun m hm hidle => hready (m + 1) (by omega) hidle
      exact ⟨m + 1, by omega, hturn⟩

/-- A run in which nobody can go on any more is fair. -/
theorem fair_stay {c : Config T E R W} {l : Label T A} (hidle : c.running = none)
    (hnobody : ∀ t, ¬ ready c t) (hallow : allow c.world (event c l))
    (hstep : S.step c l = some c) : (stay hallow hstep).Fair ready where
  processor n t hrunning := by
    replace hrunning : c.running = some t := hrunning
    simp [hidle] at hrunning
  turn n t hready := absurd (hready n le_rfl hidle) (hnobody t)

end Run

/-- A run that leads to a fair one is the beginning of a fair one. -/
theorem exists_fair {allow : W → Event T E A → Prop} {ready : Config T E R W → T → Prop}
    (hcrash : ∀ {w a}, ¬ allow w (.crash a)) {c c' : Config T E R W}
    (h : S.Reachable allow c c') (r : Run S allow) (hr : r.conf 0 = c') (hlives : r.Lives)
    (hfair : r.Fair ready) : ∃ r : Run S allow, r.conf 0 = c ∧ r.Lives ∧ r.Fair ready := by
  induction h generalizing r with
  | refl => exact ⟨r, hr, hlives, hfair⟩
  | @step c c' l hreach hallow hstep ih =>
    subst hr
    have hlabel : ∀ a, l ≠ .crash a := by
      rintro a rfl
      exact hcrash hallow
    refine ih (r.cons hallow hstep) rfl (fun n a => ?_) (hfair.cons hlabel hallow hstep)
    cases n with
    | zero => exact hlabel a
    | succ n => exact hlives n a

end Machine

end Coro
