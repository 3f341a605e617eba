import MatrixDispatcher.Coro.Machine

/-!
# One task among others

A task is verified on its own, against what the other tasks may do to the world between two of
its effects. The others are summed up by a relation, the *rely*; assertions have to be stable
under it.

* `Arena` — the rely, what the effects of the task do, and what it promises when it is about to
  perform one.
* `Arena.Runs` — the weakest precondition of a program in an arena.
* `Arena.Triple` — the triples over it; `Arena.Returns` is the form for programs with exceptions
  that raise none.
* `Arena.Hosts` — the allowed steps of a machine are those of the arena; `Hosts.runsAt` is what
  the weakest precondition then means for a run.
-/

namespace Coro

variable {T E : Type} {R : E → Type} {A W X α β : Type}

/-- What a task may assume, and what it promises. -/
structure Arena (E : Type) (R : E → Type) (W : Type) where
  /-- What may happen between two effects of the task. -/
  rely : W → W → Prop
  /-- What an effect of the task may do. -/
  step : W → (e : E) → R e → W → Prop
  /-- What holds whenever the task is about to perform an effect. -/
  safe : E → W → Prop
  rely_refl : ∀ w, rely w w
  rely_trans : ∀ {w w' w''}, rely w w' → rely w' w'' → rely w w''

namespace Arena

variable (N : Arena E R W)

/-- The others keep `P`. -/
def Stable (P : W → Prop) : Prop := ∀ ⦃w w'⦄, P w → N.rely w w' → P w'

/-- From world `w`, whatever happens, `p` is safe at every effect and ends with a result and a
world related by `Q`. -/
def Runs : Coro E R α → (α → W → Prop) → W → Prop
  | .ret a, Q, w => ∀ w', N.rely w w' → Q a w'
  | .op e k, Q, w => ∀ w', N.rely w w' →
      N.safe e w' ∧ ∀ r w'', N.step w' e r w'' → Runs (k r) Q w''

/-- `{P} p {Q}`. -/
def Triple (P : W → Prop) (p : Coro E R α) (Q : α → W → Prop) : Prop := ∀ w, P w → N.Runs p Q w

/-- `{P} p {Q}` for a program that raises no exception. -/
def Returns (P : W → Prop) (p : ExceptT X (Coro E R) α) (Q : α → W → Prop) : Prop :=
  N.Triple P p.run fun res w => ∃ a, res = .ok a ∧ Q a w

variable {N} {P P' : W → Prop}

/-- Two stable assertions are so together. -/
theorem Stable.and (hP : N.Stable P) (hP' : N.Stable P') : N.Stable fun w => P w ∧ P' w :=
  fun _ _ h hrely => ⟨hP h.1 hrely, hP' h.2 hrely⟩

/-- An assertion that some stable assertion of a family holds is stable. -/
theorem Stable.exists {ι : Type} {P : ι → W → Prop} (h : ∀ i, N.Stable (P i)) :
    N.Stable fun w => ∃ i, P i w :=
  fun _ _ ⟨i, hi⟩ hrely => ⟨i, h i hi hrely⟩

/-- What does not speak of the world is stable. -/
theorem stable_const (b : Prop) : N.Stable fun _ => b := fun _ _ h _ => h

/-! ## Weakest preconditions -/

/-- A run may begin after steps of the others. -/
theorem Runs.rely {p : Coro E R α} {Q : α → W → Prop} {w w' : W} (h : N.Runs p Q w)
    (hrely : N.rely w w') : N.Runs p Q w' := by
  cases p with
  | ret a => exact fun w'' h' => h w'' (N.rely_trans hrely h')
  | op e k => exact fun w'' h' => h w'' (N.rely_trans hrely h')

/-- A weaker assertion at the end. -/
theorem Runs.mono {p : Coro E R α} {Q Q' : α → W → Prop} {w : W} (hQ : ∀ a w, Q a w → Q' a w)
    (h : N.Runs p Q w) : N.Runs p Q' w := by
  induction p generalizing w with
  | ret a => exact fun w' hrely => hQ a w' (h w' hrely)
  | op e k ih =>
    refine fun w' hrely => ⟨(h w' hrely).1, fun r w'' hstep => ?_⟩
    exact ih r ((h w' hrely).2 r w'' hstep)

/-- Two assertions at the end hold together. -/
theorem Runs.and {p : Coro E R α} {Q Q' : α → W → Prop} {w : W} (h : N.Runs p Q w)
    (h' : N.Runs p Q' w) : N.Runs p (fun a w => Q a w ∧ Q' a w) w := by
  induction p generalizing w with
  | ret a => exact fun w' hrely => ⟨h w' hrely, h' w' hrely⟩
  | op e k ih =>
    refine fun w' hrely => ⟨(h w' hrely).1, fun r w'' hstep => ?_⟩
    exact ih r ((h w' hrely).2 r w'' hstep) ((h' w' hrely).2 r w'' hstep)

/-- A run of a program, then one of another. -/
theorem Runs.bind {p : Coro E R α} {f : α → Coro E R β} {Q : α → W → Prop} {Q' : β → W → Prop}
    {w : W} (hp : N.Runs p Q w) (hf : ∀ a, N.Triple (Q a) (f a) Q') :
    N.Runs (p >>= f) Q' w := by
  induction p generalizing w with
  | ret a => exact hf a w (hp w (N.rely_refl w))
  | op e k ih =>
    refine fun w' hrely => ⟨(hp w' hrely).1, fun r w'' hstep => ?_⟩
    exact ih r ((hp w' hrely).2 r w'' hstep)

/-! ## Triples -/

/-- The triple of a program that returns at once. -/
theorem Triple.ret {a : α} {Q : α → W → Prop} (hQ : N.Stable (Q a)) :
    N.Triple (Q a) (.ret a) Q :=
  fun _ h _ hrely => hQ h hrely

/-- Two programs one after the other. -/
theorem Triple.bind {p : Coro E R α} {f : α → Coro E R β} {Q : α → W → Prop}
    {Q' : β → W → Prop} (hp : N.Triple P p Q) (hf : ∀ a, N.Triple (Q a) (f a) Q') :
    N.Triple P (p >>= f) Q' :=
  fun w h => (hp w h).bind hf

/-- A weaker postcondition. -/
theorem Triple.mono {p : Coro E R α} {Q Q' : α → W → Prop} (hQ : ∀ a w, Q a w → Q' a w)
    (h : N.Triple P p Q) : N.Triple P p Q' :=
  fun w hw => (h w hw).mono hQ

/-- Two assertions about one program. -/
theorem Triple.and {p : Coro E R α} {Q Q' : α → W → Prop} (h : N.Triple P p Q)
    (h' : N.Triple P' p Q') :
    N.Triple (fun w => P w ∧ P' w) p fun a w => Q a w ∧ Q' a w :=
  fun w hw => (h w hw.1).and (h' w hw.2)

/-- A stronger precondition. -/
theorem Triple.pre {p : Coro E R α} {Q : α → W → Prop} (hP : ∀ w, P' w → P w)
    (h : N.Triple P p Q) : N.Triple P' p Q :=
  fun w hw => h w (hP w hw)

/-- A hypothesis of the precondition may be used. -/
theorem Triple.of_exists {ι : Type} {P : ι → W → Prop} {p : Coro E R α} {Q : α → W → Prop}
    (h : ∀ i, N.Triple (P i) p Q) : N.Triple (fun w => ∃ i, P i w) p Q :=
  fun w ⟨i, hi⟩ => h i w hi

/-- One effect. -/
theorem Triple.perform {e : E} {Q : R e → W → Prop} (hP : N.Stable P) (hQ : ∀ r, N.Stable (Q r))
    (hsafe : ∀ w, P w → N.safe e w) (hstep : ∀ w r w', P w → N.step w e r w' → Q r w') :
    N.Triple P (Coro.perform e) Q :=
  fun _ h w' hrely => ⟨hsafe w' (hP h hrely), fun r w'' hown _ hrely' =>
    hQ r (hstep w' r w'' (hP h hrely) hown) hrely'⟩

/-- A program keeps what each of its effects keeps. -/
theorem Triple.performs {F : E → Prop} {p : Coro E R α} (hP : N.Stable P)
    (hsafe : ∀ e w, F e → P w → N.safe e w)
    (hstep : ∀ e w r w', F e → P w → N.step w e r w' → P w') (hp : p.Performs F) :
    N.Triple P p fun _ => P := by
  induction p with
  | ret a => exact fun _ h _ hrely => hP h hrely
  | op e k ih =>
    refine fun w h w' hrely => ⟨hsafe e w' hp.1 (hP h hrely), fun r w'' hown => ?_⟩
    exact ih r (hp.2 r) w'' (hstep e w' r w'' hp.1 (hP h hrely) hown)

/-- What a program does in an arena it does in one whose others and whose effects do no more, and
which asks no more of its effects. -/
theorem Triple.transfer {N' : Arena E R W} {F : E → Prop} {p : Coro E R α} {Q : α → W → Prop}
    (hrely : ∀ w w', N'.rely w w' → N.rely w w')
    (hstep : ∀ w e r w', N'.step w e r w' → N.step w e r w')
    (hsafe : ∀ e w, F e → N.safe e w → N'.safe e w) (hp : p.Performs F) (h : N.Triple P p Q) :
    N'.Triple P p Q := by
  suffices hruns : ∀ w, N.Runs p Q w → N'.Runs p Q w from fun w hw => hruns w (h w hw)
  clear h
  induction p with
  | ret a => exact fun w h w' hw' => h w' (hrely w w' hw')
  | op e k ih =>
    intro w h w' hw'
    obtain ⟨hsafe', hk⟩ := h w' (hrely w w' hw')
    exact ⟨hsafe e w' hp.1 hsafe', fun r w'' hown =>
      ih r (hp.2 r) w'' (hk r w'' (hstep w' e r w'' hown))⟩

/-- A program with exceptions, then another one. -/
theorem Triple.bindE {p : ExceptT X (Coro E R) α} {f : α → ExceptT X (Coro E R) β}
    {Q : α → W → Prop} {Q' : Except X β → W → Prop}
    (hp : N.Triple P p.run fun res w =>
      match res with
      | .ok a => Q a w
      | .error x => ∀ w', N.rely w w' → Q' (.error x) w')
    (hf : ∀ a, N.Triple (Q a) (f a).run Q') : N.Triple P (p >>= f).run Q' := by
  rw [ExceptT.run_bind]
  refine Triple.bind hp fun res => ?_
  cases res with
  | ok a => exact hf a
  | error x => exact fun _ h => h

/-- A program with a `finally` block. -/
theorem Triple.finallyDo {p : ExceptT X (Coro E R) α} {fin : Coro E R Unit}
    {Q Q' : Except X α → W → Prop} (hQ' : ∀ res, N.Stable (Q' res)) (hp : N.Triple P p.run Q)
    (hfin : ∀ res, N.Triple (Q res) fin fun _ => Q' res) :
    N.Triple P (Coro.finallyDo p fin).run Q' := by
  refine Triple.bind (p := p.run) hp fun res => ?_
  exact Triple.bind (hfin res) fun _ => Triple.ret (hQ' res)

/-- A program in which a fact has been established. -/
theorem Triple.of_fact {b : Prop} {p : Coro E R α} {Q : α → W → Prop} (h : b → N.Triple P p Q) :
    N.Triple (fun w => b ∧ P w) p Q :=
  fun w hw => h hw.1 w hw.2

/-! ## Programs that raise no exception -/

/-- A program that raises no exception, then one that may. -/
theorem Returns.bindE {p : ExceptT X (Coro E R) α} {f : α → ExceptT X (Coro E R) β}
    {Q : α → W → Prop} {Q' : Except X β → W → Prop} (hp : N.Returns P p Q)
    (hf : ∀ a, N.Triple (Q a) (f a).run Q') : N.Triple P (p >>= f).run Q' := by
  rw [ExceptT.run_bind]
  refine Triple.bind hp fun res => ?_
  rintro w ⟨a, rfl, h⟩
  exact hf a w h

namespace Returns

/-- A program that returns a value raises nothing. -/
theorem pure {a : α} {Q : α → W → Prop} (hQ : N.Stable (Q a)) :
    N.Returns (Q a) (Pure.pure a : ExceptT X (Coro E R) α) Q :=
  fun _ h _ hrely => ⟨a, rfl, hQ h hrely⟩

/-- Two programs one after the other. -/
theorem bind {p : ExceptT X (Coro E R) α} {f : α → ExceptT X (Coro E R) β}
    {Q : α → W → Prop} {Q' : β → W → Prop} (hp : N.Returns P p Q)
    (hf : ∀ a, N.Returns (Q a) (f a) Q') : N.Returns P (p >>= f) Q' :=
  hp.bindE hf

/-- A weaker postcondition. -/
theorem mono {p : ExceptT X (Coro E R) α} {Q Q' : α → W → Prop} (hQ : ∀ a w, Q a w → Q' a w)
    (h : N.Returns P p Q) : N.Returns P p Q' :=
  Triple.mono (fun _ w ⟨a, heq, ha⟩ => ⟨a, heq, hQ a w ha⟩) h

/-- An effect whose response is no exception. -/
theorem lift {e : E} {Q : R e → W → Prop} (hQ : ∀ r, N.Stable (Q r))
    (h : N.Triple P (Coro.perform e) Q) :
    N.Returns P (ExceptT.lift (Coro.perform e) : ExceptT X (Coro E R) (R e)) Q :=
  Triple.bind h fun r _ hr _ hrely => ⟨r, rfl, hQ r hr hrely⟩

/-- A program of which it is known how it may raise is run without raising. -/
theorem attempt {p : ExceptT X (Coro E R) α} {Q : Except X α → W → Prop}
    (hQ : ∀ res, N.Stable (Q res)) (h : N.Triple P p.run Q) : N.Returns P (attempt p) Q :=
  Triple.bind h fun res _ hres _ hrely => ⟨res, rfl, hQ res hres hrely⟩

/-- A program whose exceptions are all handled. -/
theorem tryCatch {p : ExceptT X (Coro E R) α} {handler : X → ExceptT X (Coro E R) α}
    {P' : X → W → Prop} {Q : α → W → Prop} (hQ : ∀ a, N.Stable (Q a))
    (hp : N.Triple P p.run fun res w =>
      match res with
      | .ok a => Q a w
      | .error x => P' x w)
    (hhandler : ∀ x, N.Returns (P' x) (handler x) Q) :
    N.Returns P (tryCatch p handler) Q := by
  refine Triple.bind (p := p.run) hp fun res => ?_
  cases res with
  | ok a => exact fun w h w' hrely => ⟨a, rfl, hQ a h hrely⟩
  | error x => exact hhandler x

end Returns

/-! ## The arena in a machine -/

section Hosts

variable [DecidableEq T]

/-- Among the allowed steps, those of task `t` are steps of the arena and the others keep to its
rely. Runs are watched until the task ends. -/
structure Hosts (S : Machine T E R A W) (allow : W → Event T E A → Prop) (t : T)
    (N : Arena E R W) : Prop where
  own : ∀ {w w' e a r}, allow w (.effect t e a) → S.exec t a e w = some (r, w') → N.step w e r w'
  other : ∀ {w w' u e a r}, u ≠ t → allow w (.effect u e a) → S.exec u a e w = some (r, w') →
    N.rely w w'
  env : ∀ {w w' a}, allow w (.env a) → S.env a w = some w' → N.rely w w'
  start : ∀ {w w' u fiber a}, allow w (.start a) → S.start a w = some (u, fiber, w') →
    N.rely w w'
  turn : ∀ {w}, ¬ allow w (.turn t)
  crash : ∀ {w a}, ¬ allow w (.crash a)

variable {S : Machine T E R A W} {allow : W → Event T E A → Prop} {t : T} {σ : Type}
  {next : σ → Coro E R (Option σ)}

open Machine

/-- The task goes on with a program that runs from the world reached. -/
def RunsAt (N : Arena E R W) (t : T) (Q : Option σ → W → Prop)
    (next : σ → Coro E R (Option σ)) (c : Config T E R W) : Prop :=
  ∃ p, c.tasks t = some ⟨σ, p, next⟩ ∧ N.Runs p Q c.world

/-- Any allowed step of the system keeps the task running in its arena: its own by the step of the
program, the others' by the rely. -/
theorem Hosts.runsAt_step (H : N.Hosts S allow t) {Q : Option σ → W → Prop}
    {c c' : Config T E R W} {l : Label T A} (h : N.RunsAt t Q next c)
    (hallow : allow c.world (event c l)) (hstep : S.step c l = some c') :
    N.RunsAt t Q next c' := by
  obtain ⟨p, htask, hruns⟩ := h
  cases l with
  | task u a =>
    rw [Machine.step] at hstep
    split at hstep
    case isFalse => cases hstep
    by_cases hut : u = t
    · -- the task itself: it performs its next effect
      subst hut
      rw [htask] at hstep
      rw [event, htask] at hallow
      rcases p with o | ⟨e, k⟩
      · exact (H.turn hallow).elim
      · dsimp only at hstep hallow
        split at hstep
        · cases hstep
        · next r w hexec =>
          obtain rfl := Option.some.inj hstep
          refine ⟨k r, by simp [Config.resume], ?_⟩
          exact (hruns c.world (N.rely_refl _)).2 r w (H.own hallow hexec)
    · have hkeep : ∀ (fiber : Option (Fiber E R)), Function.update c.tasks u fiber t = c.tasks t :=
        fun _ => Function.update_of_ne (fun heq => hut heq.symm) _ _
      split at hstep
      · cases hstep
      · obtain rfl := Option.some.inj hstep
        exact ⟨p, (hkeep _).trans htask, hruns⟩
      · obtain rfl := Option.some.inj hstep
        exact ⟨p, (hkeep _).trans htask, hruns⟩
      · next e k _ hu =>
        split at hstep
        · cases hstep
        · next r w hexec =>
          obtain rfl := Option.some.inj hstep
          rw [event, hu] at hallow
          exact ⟨p, (hkeep _).trans htask, hruns.rely (H.other hut hallow hexec)⟩
  | env a =>
    obtain ⟨w, hw, rfl⟩ : ∃ w, S.env a c.world = some w ∧ { c with world := w } = c' := by
      simpa [Machine.step] using hstep
    exact ⟨p, htask, hruns.rely (H.env hallow hw)⟩
  | start a =>
    rw [Machine.step] at hstep
    split at hstep
    · cases hstep
    next u fiber w hw =>
    split at hstep
    · cases hstep
    next hnone =>
    obtain rfl := Option.some.inj hstep
    have hut : t ≠ u := by
      rintro rfl
      simp [hnone] at htask
    exact ⟨p, (Function.update_of_ne hut _ _).trans htask, hruns.rely (H.start hallow hw)⟩
  | crash a => exact (H.crash hallow).elim

/-- Along every allowed run the task goes on as its weakest precondition says. -/
theorem Hosts.runsAt (H : N.Hosts S allow t) {Q : Option σ → W → Prop} {c₀ c : Config T E R W}
    (h : N.RunsAt t Q next c₀) (hreach : S.Reachable allow c₀ c) : N.RunsAt t Q next c := by
  induction hreach with
  | refl => exact h
  | step l _ hallow hstep ih => exact H.runsAt_step ih hallow hstep

/-- What the task is to bring about holds, or the task is still on its way. The steps after that,
and the end of the task, need not be those of the arena. -/
theorem Hosts.runsAt_until (H : N.Hosts S allow t) {Q : Option σ → W → Prop} {C : W → Prop}
    {allow' : W → Event T E A → Prop} {c₀ c : Config T E R W}
    (hlasts : ∀ {c c' : Config T E R W} {l : Label T A}, S.step c l = some c' → C c.world →
      C c'.world)
    (hQ : ∀ o w, Q o w → C w)
    (hallow : ∀ w e, allow' w e → C w ∨ e = .turn t ∨ allow w e)
    (h : N.RunsAt t Q next c₀) (hreach : S.Reachable allow' c₀ c) :
    C c.world ∨ N.RunsAt t Q next c := by
  -- By induction on the run, as long as the task is on its way.
  induction hreach with
  | refl => exact .inr h
  | @step c c' l _ hallowed hstep ih =>
    rcases ih with hC | hruns
    · exact .inl (hlasts hstep hC)
    rcases hallow _ _ hallowed with hC | hturn | hallowed
    · exact .inl (hlasts hstep hC)
    · -- the task is at its end
      obtain ⟨p, htask, hruns⟩ := hruns
      refine .inl (hlasts hstep ?_)
      cases l with
      | task u a =>
        rw [event] at hturn
        split at hturn
        · cases hturn
        · next hend =>
          obtain rfl : u = t := by
            cases hturn
            rfl
          cases p with
          | ret o => exact hQ o _ (hruns c.world (N.rely_refl _))
          | op e k => exact (hend _ _ _ _ htask).elim
      | _ => cases hturn
    · exact .inr (H.runsAt_step hruns hallowed hstep)

omit [DecidableEq T] in
/-- When the task is about to perform an effect, the effect is safe. -/
theorem RunsAt.safe {Q : Option σ → W → Prop} {c : Config T E R W} (h : N.RunsAt t Q next c)
    {e : E} (habout : c.About t e) : N.safe e c.world := by
  obtain ⟨p, htask, hruns⟩ := h
  obtain ⟨-, fiber, k, hfiber, hop⟩ := habout
  have heq := Option.some.inj (htask.symm.trans hfiber)
  subst heq
  cases p with
  | ret o => cases hop
  | op e' k' =>
    cases hop
    exact (hruns c.world (N.rely_refl _)).1

end Hosts

end Arena

end Coro
