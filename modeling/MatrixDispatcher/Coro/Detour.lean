import MatrixDispatcher.Coro.Log

/-!
# Detours

Two programs that are the same up to detours. A detour begins with a question, which the one
program gets answered as it may be and the other one with *no*; the first program then may go
through some calls before the two meet again.

* `Detours` — the question, and the effects that a detour consists of.
* `Detours.Beside` — a program with detours beside the program without them, with its rules.
* `Beside.trace` — what the first program does outside of its detours, the second one does too.
* `Detours.Bypass` — two worlds of a machine that are alike up to what detours do.
* `Bypass.leads` — if the others stand still while a task is inside a call, a run with detours has
  a run without them beside it, under the same schedule.
-/

namespace Coro

variable {T E : Type} {R : E → Type} {A W X α β : Type}

/-- The effects of detours. -/
structure Detours (E : Type) (R : E → Type) where
  /-- Effects that both programs make. -/
  outside : E → Prop
  ask : E
  /-- The answer for which there is no detour. -/
  no : R ask
  outside_ne : ∀ {e}, outside e → e ≠ ask
  /-- Effects of a detour during which the task keeps the processor. -/
  quick : E → Prop
  /-- Calls to another program. -/
  call : E → Bool
  /-- The responses to calls that a detour copes with. -/
  copes : (e : E) → R e → Prop
  /-- After a call, the task waits for its turn. -/
  land : E
  landed : R land

/-- Where a program is. -/
inductive Detours.Place where
  | outside
  | inside
  /-- Inside, after a call. -/
  | landing

namespace Detours

variable (D : Detours E R)

/-- The first program is at this place and the second one outside; from there they do the same up
to detours, and return results related by `Q`. -/
inductive Beside (Q : α → β → Prop) : Place → Coro E R α → Coro E R β → Prop
  | ret {a b} (h : Q a b) : Beside Q .outside (.ret a) (.ret b)
  | op {e k k'} (he : D.outside e) (h : ∀ r, Beside Q .outside (k r) (k' r)) :
    Beside Q .outside (.op e k) (.op e k')
  | ask {k k'} (h : ∀ r, Beside Q .inside (k r) (k' D.no)) :
    Beside Q .outside (.op D.ask k) (.op D.ask k')
  | quick {e k q} (he : D.quick e) (h : ∀ r, Beside Q .inside (k r) q) :
    Beside Q .inside (.op e k) q
  | call {e k q} (he : D.call e = true) (h : ∀ r, D.copes e r → Beside Q .landing (k r) q) :
    Beside Q .inside (.op e k) q
  | land {k q} (h : Beside Q .inside (k D.landed) q) : Beside Q .landing (.op D.land k) q
  | passed {p q} (h : Beside Q .outside p q) : Beside Q .inside p q

variable {D}

namespace Beside

variable {γ δ : Type} {Q : α → β → Prop} {Q' : γ → δ → Prop} {s : Place} {p : Coro E R α}
  {q : Coro E R β}

theorem mono {Q' : α → β → Prop} (hQ : ∀ a b, Q a b → Q' a b) (h : D.Beside Q s p q) :
    D.Beside Q' s p q := by
  induction h with
  | ret h => exact .ret (hQ _ _ h)
  | op he _ ih => exact .op he ih
  | ask _ ih => exact .ask ih
  | quick he _ ih => exact .quick he ih
  | call he _ ih => exact .call he ih
  | land _ ih => exact .land ih
  | passed _ ih => exact .passed ih

theorem bind {f : α → Coro E R γ} {g : β → Coro E R δ} (h : D.Beside Q s p q)
    (hf : ∀ a b, Q a b → D.Beside Q' .outside (f a) (g b)) :
    D.Beside Q' s (p >>= f) (q >>= g) := by
  induction h with
  | ret h => exact hf _ _ h
  | op he _ ih => exact .op he ih
  | ask _ ih => exact .ask ih
  | quick he _ ih => exact .quick he ih
  | call he _ ih => exact .call he ih
  | land _ ih => exact .land ih
  | passed _ ih => exact .passed ih

/-- A program that makes no detour is beside itself. -/
theorem refl {p : Coro E R α} (h : p.Performs D.outside) : D.Beside Eq .outside p p := by
  induction p with
  | ret a => exact .ret rfl
  | op e k ih => exact .op h.1 fun r => ih r (h.2 r)

/-! ### Programs with exceptions -/

variable {p q : ExceptT X (Coro E R) α} {P : Except X α → Except X α → Prop}
  {P' : Except X γ → Except X γ → Prop}

theorem bindE {f g : α → ExceptT X (Coro E R) γ} (hP' : ∀ x, P' (.error x) (.error x))
    (h : D.Beside Eq s p.run q.run) (hf : ∀ a, D.Beside P' .outside (f a).run (g a).run) :
    D.Beside P' s (p >>= f).run (q >>= g).run := by
  rw [ExceptT.run_bind, ExceptT.run_bind]
  refine h.bind fun res res' hres => ?_
  subst hres
  cases res with
  | ok a => exact hf a
  | error x => exact .ret (hP' x)

/-- A program that makes no detour, then another one. -/
theorem bind_refl {f g : α → ExceptT X (Coro E R) γ} (hP' : ∀ x, P' (.error x) (.error x))
    (hp : PerformsE D.outside p) (h : ∀ a, D.Beside P' .outside (f a).run (g a).run) :
    D.Beside P' .outside (p >>= f).run (p >>= g).run :=
  bindE hP' (refl (p := p.run) hp) h

theorem finallyDo {fin : Coro E R Unit} (h : D.Beside P s p.run q.run)
    (hfin : fin.Performs D.outside) :
    D.Beside P s (Coro.finallyDo p fin).run (Coro.finallyDo q fin).run :=
  h.bind fun _ _ hres => (refl hfin).bind fun _ _ _ => .ret hres

/-! ### Traces -/

/-- The responses to the calls of detours are as they should be. -/
def Copes (D : Detours E R) (es : List (Call E R)) : Prop :=
  ∀ c ∈ es, (D.call c.eff = true → D.copes c.eff c.response) ∧
    (c.eff = D.land → c = ⟨D.land, D.landed⟩)

/-- What the first program does outside of its detours, the second one does too. -/
theorem trace {V : E → Bool} (hask : V D.ask = false) (hquick : ∀ e, D.quick e → V e = false)
    (hcall : ∀ e, D.call e = true → V e = false) (hland : V D.land = false) {p : Coro E R α}
    {q : Coro E R β} (h : D.Beside Q s p q) {es : List (Call E R)} {a : α} (htrace : p.Trace es a)
    (hcopes : Copes D es) :
    ∃ es' b, q.Trace es' b ∧ Q a b ∧
      es'.filter (fun c => V c.eff) = es.filter (fun c => V c.eff) ∧
      ∀ c ∈ es', c.eff = D.ask → c = ⟨D.ask, D.no⟩ := by
  -- By induction on how the two programs go side by side.
  induction h generalizing es with
  | ret h =>
    obtain ⟨rfl, rfl⟩ := htrace
    exact ⟨[], _, ⟨rfl, rfl⟩, h, rfl, nofun⟩
  | op he _ ih =>
    obtain ⟨r, es, rfl, htrace⟩ := htrace
    obtain ⟨es', b, htrace', hab, hsame, hno⟩ :=
      ih r htrace fun c hc => hcopes c (List.mem_cons_of_mem _ hc)
    refine ⟨⟨_, r⟩ :: es', b, ⟨r, es', rfl, htrace'⟩, hab, ?_, ?_⟩
    · rw [List.filter_cons, List.filter_cons, hsame]
    · intro c hc heq
      rcases List.mem_cons.mp hc with rfl | hc
      · exact absurd heq (D.outside_ne he)
      · exact hno c hc heq
  | ask _ ih =>
    obtain ⟨r, es, rfl, htrace⟩ := htrace
    obtain ⟨es', b, htrace', hab, hsame, hno⟩ :=
      ih r htrace fun c hc => hcopes c (List.mem_cons_of_mem _ hc)
    refine ⟨⟨_, D.no⟩ :: es', b, ⟨D.no, es', rfl, htrace'⟩, hab, ?_, ?_⟩
    · rw [List.filter_cons_of_neg (by simp [hask]), List.filter_cons_of_neg (by simp [hask]), hsame]
    · intro c hc heq
      rcases List.mem_cons.mp hc with rfl | hc
      · rfl
      · exact hno c hc heq
  -- On the detour only the first program acts, and none of it is seen by `V`.
  | quick he _ ih =>
    obtain ⟨r, es, rfl, htrace⟩ := htrace
    rw [List.filter_cons_of_neg (by simp [hquick _ he])]
    exact ih r htrace fun c hc => hcopes c (List.mem_cons_of_mem _ hc)
  | call he _ ih =>
    obtain ⟨r, es, rfl, htrace⟩ := htrace
    rw [List.filter_cons_of_neg (by simp [hcall _ he])]
    exact ih r ((hcopes _ List.mem_cons_self).1 he) htrace fun c hc =>
      hcopes c (List.mem_cons_of_mem _ hc)
  | land _ ih =>
    obtain ⟨r, es, rfl, htrace⟩ := htrace
    have hlanded := (hcopes _ List.mem_cons_self).2 rfl
    cases hlanded
    rw [List.filter_cons_of_neg (by simp [hland])]
    exact ih htrace fun c hc => hcopes c (List.mem_cons_of_mem _ hc)
  | passed _ ih => exact ih htrace hcopes

end Beside

/-! ## Machines -/

open Machine

/-- A fiber with detours beside a fiber without them. -/
inductive FiberBeside (D : Detours E R) (s : Place) : Fiber E R → Fiber E R → Prop
  | mk {σ : Type} {p q : Coro E R (Option σ)} {next next' : σ → Coro E R (Option σ)}
    (h : D.Beside Eq s p q) (hnext : ∀ x, D.Beside Eq .outside (next x) (next' x)) :
    FiberBeside D s ⟨σ, p, next⟩ ⟨σ, q, next'⟩

/-- A task that runs a program once. -/
theorem FiberBeside.once {p q : Coro E R Unit} (h : D.Beside Eq .outside p q) :
    D.FiberBeside .outside (Fiber.once p) (Fiber.once q) :=
  ⟨h.bind fun _ _ _ => .ret rfl, fun _ => .ret rfl⟩

variable [DecidableEq T]

/-- The schedule leads from one configuration to another while the others stand still as long as a
task, `busy`, is inside a call. -/
def Undisturbed (D : Detours E R) (S : Machine T E R A W) (calm : A → Prop) (busy : Option T)
    (c : Config T E R W) : List (Label T A) → Config T E R W → Prop
  | [], c' => c' = c
  | .task t a :: ls, c' => (busy = none ∨ busy = some t) ∧
      ∃ c₁, S.step c (.task t a) = some c₁ ∧
        Undisturbed D S calm
          (if (c.next t).any D.call || (c₁.next t).any D.call then some t else none) c₁ ls c'
  | .env a :: ls, c' => calm a ∧ ∃ c₁, S.step c (.env a) = some c₁ ∧
      Undisturbed D S calm busy c₁ ls c'
  | .start a :: ls, c' => ∃ c₁, S.step c (.start a) = some c₁ ∧
      Undisturbed D S calm busy c₁ ls c'
  | .crash _ :: _, _ => False

/-- `Undisturbed`, evaluated: the configuration that the schedule leads to. -/
def undisturbed? (D : Detours E R) (S : Machine T E R A W) (calm : A → Bool) :
    Option T → Config T E R W → List (Label T A) → Option (Config T E R W)
  | _, c, [] => some c
  | busy, c, .task t a :: ls =>
    if busy = none ∨ busy = some t then
      (S.step c (.task t a)).bind fun c₁ => D.undisturbed? S calm
        (if (c.next t).any D.call || (c₁.next t).any D.call then some t else none) c₁ ls
    else none
  | busy, c, .env a :: ls =>
    if calm a then (S.step c (.env a)).bind fun c₁ => D.undisturbed? S calm busy c₁ ls else none
  | busy, c, .start a :: ls => (S.step c (.start a)).bind fun c₁ => D.undisturbed? S calm busy c₁ ls
  | _, _, .crash _ :: _ => none

theorem undisturbed_of_eval {D : Detours E R} {S : Machine T E R A W} {calm : A → Bool}
    {busy : Option T} {c c' : Config T E R W} {ls : List (Label T A)}
    (h : D.undisturbed? S calm busy c ls = some c') :
    D.Undisturbed S (fun a => calm a = true) busy c ls c' := by
  -- By induction on the schedule.
  induction ls generalizing busy c with
  | nil => exact (Option.some.inj h).symm
  | cons l ls ih =>
    cases l with
    | task t a =>
      rw [undisturbed?] at h
      split at h
      · next hbusy =>
        obtain ⟨c₁, hstep, hrest⟩ := Option.bind_eq_some_iff.mp h
        exact ⟨hbusy, c₁, hstep, ih hrest⟩
      · cases h
    | env a =>
      rw [undisturbed?] at h
      split at h
      · next hcalm =>
        obtain ⟨c₁, hstep, hrest⟩ := Option.bind_eq_some_iff.mp h
        exact ⟨hcalm, c₁, hstep, ih hrest⟩
      · cases h
    | start a =>
      obtain ⟨c₁, hstep, hrest⟩ := Option.bind_eq_some_iff.mp h
      exact ⟨c₁, hstep, ih hrest⟩
    | crash a => cases h

/-- Worlds that are alike up to what detours do. -/
structure Bypass (D : Detours E R) (S : Machine T E R A W) (calm : A → Prop) where
  alike : W → W → Prop
  awaits_ask : S.awaits D.ask = false
  awaits_quick : ∀ {e}, D.quick e → S.awaits e = false
  awaits_call : ∀ {e}, D.call e = true → S.awaits e = true
  awaits_land : S.awaits D.land = true
  outside : ∀ {w w₁ w' t a e r}, alike w w' → D.outside e → S.exec t a e w = some (r, w₁) →
    ∃ w₁', S.exec t a e w' = some (r, w₁') ∧ alike w₁ w₁'
  ask : ∀ {w w₁ w' t a r}, alike w w' → S.exec t a D.ask w = some (r, w₁) →
    ∃ w₁', S.exec t a D.ask w' = some (D.no, w₁') ∧ alike w₁ w₁'
  quick : ∀ {w w₁ w' t a e r}, alike w w' → D.quick e → S.exec t a e w = some (r, w₁) →
    alike w₁ w'
  call : ∀ {w w₁ w' t a e r}, alike w w' → D.call e = true → S.exec t a e w = some (r, w₁) →
    D.copes e r ∧ alike w₁ w'
  land : ∀ {w w₁ w' t a r}, alike w w' → S.exec t a D.land w = some (r, w₁) →
    r = D.landed ∧ alike w₁ w'
  env : ∀ {w w₁ w' a}, alike w w' → calm a → S.env a w = some w₁ →
    (∃ w₁', S.env a w' = some w₁' ∧ alike w₁ w₁') ∨ alike w₁ w'
  start : ∀ {w w₁ w' t fiber a}, alike w w' → S.start a w = some (t, fiber, w₁) →
    ∃ fiber' w₁', S.start a w' = some (t, fiber', w₁') ∧ D.FiberBeside .outside fiber fiber' ∧
      alike w₁ w₁'

namespace Bypass

/-- What two machines run under one name. -/
def TaskBeside (D : Detours E R) (s : Place) :
    Option (Fiber E R) → Option (Fiber E R) → Prop
  | none, none => True
  | some fiber, some fiber' => D.FiberBeside s fiber fiber'
  | _, _ => False

omit [DecidableEq T] in
/-- Outside of detours, the two fibers make the same effect next. -/
theorem holdsProcessor_eq {f f' : Fiber E R} (h : D.FiberBeside .outside f f')
    (awaits : E → Bool) : f.holdsProcessor awaits = f'.holdsProcessor awaits := by
  obtain ⟨hprog, -⟩ := h
  cases hprog <;> rfl

variable {S : Machine T E R A W} {calm : A → Prop} (B : Bypass D S calm)

/-- No task is on a detour. -/
structure Level (c c' : Config T E R W) : Prop where
  alike : B.alike c.world c'.world
  running : c.running = c'.running
  tasks : ∀ u, TaskBeside D .outside (c.tasks u) (c'.tasks u)

/-- Task `t` is on a detour, at this place. -/
structure Apart (s : Place) (t : T) (c c' : Config T E R W) : Prop where
  alike : B.alike c.world c'.world
  others : ∀ u, u ≠ t → TaskBeside D .outside (c.tasks u) (c'.tasks u)
  own : ∃ f f', c.tasks t = some f ∧ c'.tasks t = some f' ∧ D.FiberBeside s f f' ∧
    c.running = (if f.holdsProcessor S.awaits then some t else none) ∧
    c'.running = if f'.holdsProcessor S.awaits then some t else none

/-- The two machines side by side, where `busy` is inside a call. -/
def Sim (busy : Option T) (c c' : Config T E R W) : Prop :=
  B.Level c c' ∨
    (∃ t, B.Apart .inside t c c' ∧ ((c.next t).any D.call = true → busy = some t)) ∨
      ∃ t, B.Apart .landing t c c' ∧ busy = some t

variable {B} {c c' c₁ : Config T E R W} {t u : T} {a : A} {busy : Option T}

/-- The other tasks, after one of them has gone on in both machines. -/
theorem others_resume {f f' : Fiber E R} {w w' : W}
    (h : ∀ u, u ≠ t → TaskBeside D .outside (c.tasks u) (c'.tasks u)) (u : T) (hu : u ≠ t) :
    TaskBeside D .outside ((c.resume S t f w).tasks u) ((c'.resume S t f' w').tasks u) := by
  change TaskBeside D .outside (Function.update c.tasks t (some f) u)
    (Function.update c'.tasks t (some f') u)
  rw [Function.update_of_ne hu, Function.update_of_ne hu]
  exact h u hu

/-- Both machines go on with a task. -/
theorem apart_resume {s : Place} {f f' : Fiber E R} {w w' : W}
    (h : ∀ u, u ≠ t → TaskBeside D .outside (c.tasks u) (c'.tasks u)) (hf : D.FiberBeside s f f')
    (halike : B.alike w w') : B.Apart s t (c.resume S t f w) (c'.resume S t f' w') :=
  ⟨halike, others_resume h, f, f', Function.update_self .., Function.update_self .., hf, rfl, rfl⟩

/-- The first machine goes on with the task that is on a detour. -/
theorem Apart.resume {s s' : Place} (h : B.Apart s t c c') {f₁ f' : Fiber E R} {w : W}
    (htask' : c'.tasks t = some f')
    (hf : D.FiberBeside s' f₁ f') (halike : B.alike w c'.world) :
    B.Apart s' t (c.resume S t f₁ w) c' := by
  obtain ⟨-, f'', -, hsame, -, -, hrunning⟩ := h.own
  obtain rfl : f'' = f' := Option.some.inj (hsame.symm.trans htask')
  refine ⟨halike, fun u hu => ?_, f₁, f'', Function.update_self .., htask', hf, rfl, hrunning⟩
  change TaskBeside D .outside (Function.update c.tasks t (some f₁) u) (c'.tasks u)
  rw [Function.update_of_ne hu]
  exact h.others u hu

/-- A task that is about to leave its detour has left it. -/
theorem Apart.level (h : B.Apart .outside t c c') : B.Level c c' := by
  obtain ⟨f, f', htask, htask', hf, hrunning, hrunning'⟩ := h.own
  refine ⟨h.alike, ?_, fun u => ?_⟩
  · rw [hrunning, hrunning', holdsProcessor_eq hf]
  · by_cases hu : u = t
    · subst hu
      rw [htask, htask']
      exact hf
    · exact h.others u hu

/-- Both machines make a step of a task, while no task is on a detour. -/
theorem Level.step (h : B.Level c c') (hstep : S.step c (.task u a) = some c₁) :
    ∃ c₁', S.step c' (.task u a) = some c₁' ∧
      (B.Level c₁ c₁' ∨ B.Apart .inside u c₁ c₁') := by
  have hfree : c.Free u ↔ c'.Free u := by rw [Config.Free, Config.Free, h.running]
  have hrel := h.tasks u
  have hothers : ∀ v, v ≠ u → TaskBeside D .outside (c.tasks v) (c'.tasks v) :=
    fun v _ => h.tasks v
  rcases htask : c.tasks u with _ | f
  · simp [Machine.step, htask] at hstep
  rcases htask' : c'.tasks u with _ | f'
  · rw [htask, htask'] at hrel
    exact hrel.elim
  rw [htask, htask'] at hrel
  obtain ⟨hprog, hnext⟩ : D.FiberBeside .outside f f' := hrel
  cases hprog with
  | @ret o o' heq =>
    obtain rfl := heq
    rw [Machine.step] at hstep
    split at hstep
    case isFalse => cases hstep
    next hfr =>
    cases o with
    | none =>
      -- the task ends
      rw [htask] at hstep
      obtain rfl := Option.some.inj hstep
      refine ⟨{ c' with tasks := Function.update c'.tasks u none, running := none }, ?_, .inl
        ⟨h.alike, rfl, fun v => ?_⟩⟩
      · simp only [Machine.step, if_pos (hfree.mp hfr), htask']
      · by_cases hv : v = u
        · subst hv
          change TaskBeside D .outside (Function.update c.tasks v none v)
            (Function.update c'.tasks v none v)
          rw [Function.update_self, Function.update_self]
          trivial
        · change TaskBeside D .outside (Function.update c.tasks u none v)
            (Function.update c'.tasks u none v)
          rw [Function.update_of_ne hv, Function.update_of_ne hv]
          exact h.tasks v
    | some x =>
      rw [htask] at hstep
      obtain rfl := Option.some.inj hstep
      refine ⟨_, ?_, .inl (apart_resume hothers ⟨hnext x, hnext⟩ h.alike).level⟩
      · simp only [Machine.step, if_pos (hfree.mp hfr), htask']
  | op he hk =>
    obtain ⟨hfr, r, w, hexec, rfl⟩ := of_step_op htask hstep
    obtain ⟨w', hexec', halike⟩ := B.outside h.alike he hexec
    exact ⟨_, step_op (hfree.mp hfr) htask' hexec',
      .inl (apart_resume hothers ⟨hk r, hnext⟩ halike).level⟩
  | ask hk =>
    obtain ⟨hfr, r, w, hexec, rfl⟩ := of_step_op htask hstep
    obtain ⟨w', hexec', halike⟩ := B.ask h.alike hexec
    exact ⟨_, step_op (hfree.mp hfr) htask' hexec',
      .inr (apart_resume hothers ⟨hk r, hnext⟩ halike)⟩

/-- Both machines make a step of a task, or the first one makes it on a detour. -/
theorem Sim.step_task (h : B.Sim busy c c') (hbusy : busy = none ∨ busy = some u)
    (hstep : S.step c (.task u a) = some c₁) :
    ∃ c₁', (S.step c' (.task u a) = some c₁' ∨ c₁' = c') ∧
      B.Sim (if (c.next u).any D.call || (c₁.next u).any D.call then some u else none) c₁ c₁' := by
  have hlevel : ∀ {c' : Config T E R W}, B.Level c c' →
      ∃ c₁', (S.step c' (.task u a) = some c₁' ∨ c₁' = c') ∧
        B.Sim (if (c.next u).any D.call || (c₁.next u).any D.call then some u else none)
          c₁ c₁' := by
    intro c' hlevel
    obtain ⟨c₁', hstep', h⟩ := hlevel.step hstep
    refine ⟨c₁', .inl hstep', h.imp_right fun hapart => .inl ⟨u, hapart, fun hcall => ?_⟩⟩
    rw [hcall, Bool.or_true, if_pos rfl]
  have hmine : ∀ {t : T}, busy = some t → u = t := by
    rintro t rfl
    exact (Option.some.inj (hbusy.resolve_left (Option.some_ne_none t))).symm
  rcases h with h | ⟨t, h, hcalling⟩ | ⟨t, h, hcalling⟩
  · exact hlevel h
  · obtain ⟨f, f', htask, htask', hrel, hrunning, hrunning'⟩ := h.own
    obtain ⟨hprog, hnext⟩ := hrel
    cases hprog with
    | passed hprog =>
      have houtside : B.Apart .outside t c c' :=
        ⟨h.alike, h.others, _, _, htask, htask', ⟨hprog, hnext⟩, hrunning, hrunning'⟩
      exact hlevel houtside.level
    | @quick e k _ he hk =>
      -- the task holds the processor
      have hrun : c.running = some t := by
        rw [hrunning]
        exact if_pos (by simp [Fiber.holdsProcessor, B.awaits_quick he])
      have hut : u = t := by
        have hfree : c.Free u := by
          rw [Machine.step] at hstep
          split at hstep
          · assumption
          · cases hstep
        rcases hfree with hnone | hsome
        · rw [hrun] at hnone
          cases hnone
        · exact Option.some.inj (hsome.symm.trans hrun)
      subst hut
      obtain ⟨-, r, w, hexec, rfl⟩ := of_step_op htask hstep
      refine ⟨c', .inr rfl, .inr (.inl ⟨u, ?_, fun hcall => ?_⟩)⟩
      · exact h.resume htask' ⟨hk r, hnext⟩ (B.quick h.alike he hexec)
      · rw [hcall, Bool.or_true, if_pos rfl]
    | @call e k _ he hk =>
      have hcall : (c.next t).any D.call = true := by
        rw [Config.next, htask]
        exact he
      obtain rfl := hmine (hcalling hcall)
      obtain ⟨-, r, w, hexec, rfl⟩ := of_step_op htask hstep
      obtain ⟨hcopes, halike⟩ := B.call h.alike he hexec
      refine ⟨c', .inr rfl, .inr (.inr ⟨u, ?_, ?_⟩)⟩
      · exact h.resume htask' ⟨hk r hcopes, hnext⟩ halike
      · rw [hcall, Bool.true_or, if_pos rfl]
  · obtain ⟨f, f', htask, htask', hrel, -, -⟩ := h.own
    obtain ⟨hprog, hnext⟩ := hrel
    obtain rfl := hmine hcalling
    cases hprog with
    | land hk =>
      obtain ⟨-, r, w, hexec, rfl⟩ := of_step_op htask hstep
      obtain ⟨rfl, halike⟩ := B.land h.alike hexec
      refine ⟨c', .inr rfl, .inr (.inl ⟨u, ?_, fun hcall => ?_⟩)⟩
      · exact h.resume htask' ⟨hk, hnext⟩ halike
      · rw [hcall, Bool.or_true, if_pos rfl]

omit [DecidableEq T] in
/-- The two machines stay side by side while only their worlds change. -/
theorem Sim.world (h : B.Sim busy c c') (w w' : W) (halike : B.alike w w') :
    B.Sim busy { c with world := w } { c' with world := w' } := by
  rcases h with h | ⟨t, h, hcalling⟩ | ⟨t, h, hcalling⟩
  · exact .inl ⟨halike, h.running, h.tasks⟩
  · exact .inr (.inl ⟨t, ⟨halike, h.others, h.own⟩, hcalling⟩)
  · exact .inr (.inr ⟨t, ⟨halike, h.others, h.own⟩, hcalling⟩)

omit [DecidableEq T] in
theorem Sim.alike (h : B.Sim busy c c') : B.alike c.world c'.world := by
  rcases h with h | ⟨t, h, -⟩ | ⟨t, h, -⟩
  · exact h.alike
  · exact h.alike
  · exact h.alike

/-- The environment moves. -/
theorem Sim.step_env (h : B.Sim busy c c') (hcalm : calm a)
    (hstep : S.step c (.env a) = some c₁) :
    ∃ c₁', (S.step c' (.env a) = some c₁' ∨ c₁' = c') ∧ B.Sim busy c₁ c₁' := by
  obtain ⟨w, hw, rfl⟩ : ∃ w, S.env a c.world = some w ∧ { c with world := w } = c₁ := by
    simpa [Machine.step] using hstep
  rcases B.env h.alike hcalm hw with ⟨w', hw', halike⟩ | halike
  · exact ⟨{ c' with world := w' }, .inl (by simp [Machine.step, hw']), h.world w w' halike⟩
  · exact ⟨c', .inr rfl, h.world w c'.world halike⟩

/-- A task starts. -/
theorem Sim.step_start (h : B.Sim busy c c') (hstep : S.step c (.start a) = some c₁) :
    ∃ c₁', S.step c' (.start a) = some c₁' ∧ B.Sim busy c₁ c₁' := by
  rw [Machine.step] at hstep
  split at hstep
  · cases hstep
  next t₀ f w hstart =>
  split at hstep
  · cases hstep
  next htask =>
  obtain rfl := Option.some.inj hstep
  obtain ⟨f', w', hstart', hf, halike⟩ := B.start h.alike hstart
  have hupdate : ∀ {P : T → Prop}, (∀ u, P u → TaskBeside D .outside (c.tasks u) (c'.tasks u)) →
      ∀ u, P u → TaskBeside D .outside (Function.update c.tasks t₀ (some f) u)
        (Function.update c'.tasks t₀ (some f') u) := by
    intro P htasks u hu
    by_cases hut : u = t₀
    · subst hut
      rw [Function.update_self, Function.update_self]
      exact hf
    · rw [Function.update_of_ne hut, Function.update_of_ne hut]
      exact htasks u hu
  -- The task runs beside itself or not at all, so the second machine does not have it either.
  have hnone : c'.tasks t₀ = none := by
    have hrel : TaskBeside D .outside (c.tasks t₀) (c'.tasks t₀) := by
      rcases h with h | ⟨t, h, -⟩ | ⟨t, h, -⟩
      · exact h.tasks t₀
      all_goals
        refine h.others t₀ fun heq => ?_
        obtain ⟨_, _, hown, -⟩ := h.own
        rw [← heq, htask] at hown
        cases hown
    rw [htask] at hrel
    rcases htask' : c'.tasks t₀ with _ | f''
    · rfl
    · rw [htask'] at hrel
      exact hrel.elim
  refine ⟨{ c' with world := w', tasks := Function.update c'.tasks t₀ (some f') }, ?_, ?_⟩
  · simp only [Machine.step, hstart', hnone]
  -- A task on a detour is not the one that starts.
  have hapart : ∀ {s : Place} {t : T}, B.Apart s t c c' →
      t ≠ t₀ ∧ B.Apart s t { c with world := w, tasks := Function.update c.tasks t₀ (some f) }
        { c' with world := w', tasks := Function.update c'.tasks t₀ (some f') } := by
    intro s t h
    obtain ⟨g, g', hown, hown', hrel, hrun, hrun'⟩ := h.own
    have hne : t ≠ t₀ := by
      rintro rfl
      rw [htask] at hown
      cases hown
    refine ⟨hne, halike, hupdate h.others, g, g', ?_, ?_, hrel, hrun, hrun'⟩
    · exact (Function.update_of_ne hne ..).trans hown
    · exact (Function.update_of_ne hne ..).trans hown'
  rcases h with h | ⟨t, h, hcalling⟩ | ⟨t, h, hcalling⟩
  · exact .inl ⟨halike, h.running, 
      fun u => hupdate (P := fun _ => True) (fun u _ => h.tasks u) u trivial⟩
  · obtain ⟨hne, h'⟩ := hapart h
    refine .inr (.inl ⟨t, h', fun hcall => hcalling ?_⟩)
    rw [Config.next] at hcall ⊢
    dsimp only at hcall
    rwa [Function.update_of_ne hne] at hcall
  · exact .inr (.inr ⟨t, (hapart h).2, hcalling⟩)

/-- A run with detours has a run without them beside it, under the schedule without the steps of
the detours. -/
theorem Sim.leads {ls : List (Label T A)} (h : B.Sim busy c c')
    (hrun : Undisturbed D S calm busy c ls c₁) :
    ∃ ls' c₁' busy', ls'.Sublist ls ∧ S.run (fun _ _ => True) c' ls' = some c₁' ∧
      B.Sim busy' c₁ c₁' := by
  -- A step on the left is matched by the same step on the right or by none.
  have hcons : ∀ {l ls ls'} {c' c₂ c₃ : Config T E R W}, (S.step c' l = some c₂ ∨ c₂ = c') →
      List.Sublist ls' ls → S.run (fun _ _ => True) c₂ ls' = some c₃ →
      ∃ ls'', List.Sublist ls'' (l :: ls) ∧ S.run (fun _ _ => True) c' ls'' = some c₃ := by
    rintro l ls ls' c' c₂ c₃ (hstep | rfl) hsub hrest
    · refine ⟨l :: ls', hsub.cons_cons l, ?_⟩
      rw [Machine.run, if_pos trivial, hstep]
      exact hrest
    · exact ⟨ls', hsub.cons l, hrest⟩
  induction ls generalizing c c' busy with
  | nil =>
    obtain rfl : c₁ = c := hrun
    exact ⟨[], c', busy, List.nil_sublist _, rfl, h⟩
  | cons l ls ih =>
    cases l with
    | task u a =>
      obtain ⟨hbusy, c₂, hstep, hrest⟩ := hrun
      obtain ⟨c₂', hstep', hsim⟩ := h.step_task hbusy hstep
      obtain ⟨ls', c₁', busy', hsub, hrun', hend⟩ := ih hsim hrest
      obtain ⟨ls'', hsub', hrun''⟩ := hcons hstep' hsub hrun'
      exact ⟨ls'', c₁', busy', hsub', hrun'', hend⟩
    | env a =>
      obtain ⟨hcalm, c₂, hstep, hrest⟩ := hrun
      obtain ⟨c₂', hstep', hsim⟩ := h.step_env hcalm hstep
      obtain ⟨ls', c₁', busy', hsub, hrun', hend⟩ := ih hsim hrest
      obtain ⟨ls'', hsub', hrun''⟩ := hcons hstep' hsub hrun'
      exact ⟨ls'', c₁', busy', hsub', hrun'', hend⟩
    | start a =>
      obtain ⟨c₂, hstep, hrest⟩ := hrun
      obtain ⟨c₂', hstep', hsim⟩ := h.step_start hstep
      obtain ⟨ls', c₁', busy', hsub, hrun', hend⟩ := ih hsim hrest
      obtain ⟨ls'', hsub', hrun''⟩ := hcons (.inl hstep') hsub hrun'
      exact ⟨ls'', c₁', busy', hsub', hrun'', hend⟩
    | crash a => exact hrun.elim

end Bypass

end Detours

end Coro
