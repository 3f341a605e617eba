import MatrixDispatcher.Coro.Machine

/-!
# Monitors: invariants of tasks and world together

A monitor is an automaton that reads the effects of one task together with their responses. A
program *follows* a monitor from a state if no sequence of responses makes the monitor reject;
this concerns the text of the program only, not the world. An invariant of the whole machine
then relates the monitor states of all tasks to the world, and each of its proof obligations
mentions one accepted effect instead of a program.

* `Monitor.Follows` — the program is accepted, with its sequencing rules.
* `Monitor.Conforms` — the same for a fiber, over all its rounds.
* `Supervision` — every task that a machine starts conforms.
* `Invariant` — a relation between monitor states and world that every step keeps;
  `Invariant.reachable` and `Invariant.about` are its two uses, `Invariant.Extension` and
  `Invariant.Focus` two ways to add to one.

States marked `atomic` may not be left standing at an awaiting effect, so a task in such a state
has the processor and the other tasks cannot move.
-/

namespace Coro

variable {T E : Type} {R : E → Type} {A W γ X α β : Type}

/-- An automaton over the effects of a task and the responses to them. -/
structure Monitor (E : Type) (R : E → Type) (γ : Type) where
  /-- The state after effect `e` was answered with `r`, unless `e` is not accepted. -/
  next : γ → (e : E) → R e → Option γ
  /-- The states in which a task must not give up the processor. -/
  atomic : γ → Bool
  /-- The states in which a task may end. -/
  final : γ → Prop
  /-- The state of a task that does not run. -/
  idle : γ
  atomic_idle : atomic idle = false

namespace Monitor

open Classical in
/-- The state that a relation leads to. -/
noncomputable def nextOf (moves : γ → (e : E) → R e → γ → Prop) (g : γ) (e : E) (r : R e) :
    Option γ :=
  if h : ∃ g', moves g e r g' then some h.choose else none

/-- A relation that determines the next state is the graph of the function. -/
theorem nextOf_eq_some_iff (moves : γ → (e : E) → R e → γ → Prop)
    (hunique : ∀ g e r g₁ g₂, moves g e r g₁ → moves g e r g₂ → g₁ = g₂) {g g' : γ} {e : E}
    {r : R e} : nextOf moves g e r = some g' ↔ moves g e r g' := by
  rw [nextOf]
  split
  · next h =>
    rw [Option.some_inj]
    exact ⟨fun heq => heq ▸ h.choose_spec, hunique g e r _ _ h.choose_spec⟩
  · next h => exact ⟨nofun, fun hmove => (h ⟨g', hmove⟩).elim⟩

variable (M : Monitor E R γ) (awaits : E → Bool)

/-- From state `g`, whatever the responses, `p` is accepted and ends with a result and a state
related by `Q`. -/
def Follows : γ → Coro E R α → (α → γ → Prop) → Prop
  | g, .ret a, Q => Q a g
  | g, .op e k, Q => (M.atomic g = true → awaits e = false) ∧
      ∀ r, ∃ g', M.next g e r = some g' ∧ Follows g' (k r) Q

variable {M awaits} {g : γ}

theorem Follows.mono {p : Coro E R α} {Q Q' : α → γ → Prop} (hQ : ∀ a g', Q a g' → Q' a g')
    (h : M.Follows awaits g p Q) : M.Follows awaits g p Q' := by
  induction p generalizing g with
  | ret a => exact hQ a g h
  | op e k ih =>
    refine ⟨h.1, fun r => ?_⟩
    obtain ⟨g', hnext, hk⟩ := h.2 r
    exact ⟨g', hnext, ih r hk⟩

theorem Follows.bind {p : Coro E R α} {f : α → Coro E R β} {Q : α → γ → Prop}
    {Q' : β → γ → Prop} (hp : M.Follows awaits g p Q)
    (hf : ∀ a g', Q a g' → M.Follows awaits g' (f a) Q') :
    M.Follows awaits g (p >>= f) Q' := by
  induction p generalizing g with
  | ret a => exact hf a g hp
  | op e k ih =>
    refine ⟨hp.1, fun r => ?_⟩
    obtain ⟨g', hnext, hk⟩ := hp.2 r
    exact ⟨g', hnext, ih r hk⟩

/-- One effect: the rule from which the rules of a signature are made. -/
theorem Follows.perform {e : E} {Q : R e → γ → Prop}
    (hatomic : M.atomic g = true → awaits e = false)
    (h : ∀ r, ∃ g', M.next g e r = some g' ∧ Q r g') :
    M.Follows awaits g (Coro.perform e) Q :=
  ⟨hatomic, fun r => (h r).imp fun _ hr => ⟨hr.1, hr.2⟩⟩

/-- In state `g` the monitor does not react to `e`. -/
def Ignores (M : Monitor E R γ) (g : γ) (e : E) : Prop := ∀ r, M.next g e r = some g

/-- In the states of `J` the monitor accepts `e` and stays in such a state. -/
def Keeps (M : Monitor E R γ) (J : γ → Prop) (e : E) : Prop :=
  ∀ g r, J g → ∃ g', M.next g e r = some g' ∧ J g'

theorem Ignores.keeps {e : E} (h : M.Ignores g e) : M.Keeps (· = g) e := by
  rintro _ r rfl
  exact ⟨_, h r, rfl⟩

/-- A program all of whose effects keep `J`, in states where others may run. -/
theorem Follows.of_keeps {J : γ → Prop} {p : Coro E R α} (hp : p.Performs (M.Keeps J))
    (hatomic : ∀ g, J g → M.atomic g = false) (hg : J g) :
    M.Follows awaits g p fun _ => J := by
  induction p generalizing g with
  | ret a => exact hg
  | op e k ih =>
    refine ⟨fun h => by simp [hatomic g hg] at h, fun r => ?_⟩
    obtain ⟨g', hnext, hg'⟩ := hp.1 g r hg
    exact ⟨g', hnext, ih r (hp.2 r) hg'⟩

/-- A program all of whose effects are ignored leaves the monitor where it is. -/
theorem Follows.of_performs {p : Coro E R α} (hp : p.Performs (M.Ignores g))
    (hatomic : M.atomic g = false) : M.Follows awaits g p fun _ g' => g' = g :=
  .of_keeps (hp.mono fun _ => Ignores.keeps) (fun _ hg => hg ▸ hatomic) rfl

/-! ### Programs with exceptions

Each rule asks for a walk through the first program whose goal is what remains to be shown. -/

theorem Follows.bindE {p : ExceptT X (Coro E R) α} {f : α → ExceptT X (Coro E R) β}
    {Q : Except X β → γ → Prop}
    (hp : M.Follows awaits g p.run fun res g' =>
      match res with
      | .ok a => M.Follows awaits g' (f a).run Q
      | .error x => Q (.error x) g') :
    M.Follows awaits g (p >>= f).run Q := by
  rw [ExceptT.run_bind]
  refine hp.bind fun res g' hres => ?_
  cases res with
  | ok a => exact hres
  | error x => exact hres

theorem Follows.tryCatch {p : ExceptT X (Coro E R) α} {handler : X → ExceptT X (Coro E R) α}
    {Q : Except X α → γ → Prop}
    (hp : M.Follows awaits g p.run fun res g' =>
      match res with
      | .ok a => Q (.ok a) g'
      | .error x => M.Follows awaits g' (handler x).run Q) :
    M.Follows awaits g (tryCatch p handler).run Q := by
  refine Follows.bind (p := p.run) hp fun res g' hres => ?_
  cases res with
  | ok a => exact hres
  | error x => exact hres

theorem Follows.attempt {p : ExceptT X (Coro E R) α} {Q : Except X (Except X α) → γ → Prop}
    (hp : M.Follows awaits g p.run fun res g' => Q (.ok res) g') :
    M.Follows awaits g (Coro.attempt p).run Q :=
  Follows.bind (p := p.run) hp fun _ _ hres => hres

theorem Follows.finallyDo {p : ExceptT X (Coro E R) α} {fin : Coro E R Unit}
    {Q : Except X α → γ → Prop}
    (hp : M.Follows awaits g p.run fun res g' =>
      M.Follows awaits g' fin fun _ g'' => Q res g'') :
    M.Follows awaits g (Coro.finallyDo p fin).run Q :=
  Follows.bind (p := p.run) hp fun _ _ hres => hres.bind fun _ _ h => h

/-- A loop over a list keeps an invariant `J` of the monitor state and the elements left. -/
theorem Follows.forEach {ι : Type} {f : ι → ExceptT X (Coro E R) Unit} {J : List ι → γ → Prop}
    {Q : Except X Unit → γ → Prop} (xs : List ι) (hg : J xs g)
    (hnil : ∀ g', J [] g' → Q (.ok ()) g')
    (hcons : ∀ x rest g', J (x :: rest) g' → M.Follows awaits g' (f x).run fun res g'' =>
      match res with
      | .ok _ => J rest g''
      | .error e => Q (.error e) g'') :
    M.Follows awaits g (Coro.forEach xs f).run Q := by
  induction xs generalizing g with
  | nil => exact hnil g hg
  | cons x rest ih =>
    refine Follows.bindE ((hcons x rest g hg).mono fun res g' h => ?_)
    cases res with
    | ok _ => exact ih h
    | error e => exact h

/-! ### Fibers -/

/-- A round ends either for good, in a final state, or with the loop invariant `J`. -/
def RoundEnd (M : Monitor E R γ) {S : Type} (J : S → γ → Prop) : Option S → γ → Prop
  | none, g => M.atomic g = false ∧ M.final g
  | some s, g => M.atomic g = false ∧ J s g

/-- Every round of the fiber is accepted, from state `g` on. -/
def Conforms (M : Monitor E R γ) (awaits : E → Bool) (g : γ) (fiber : Fiber E R) : Prop :=
  ∃ J : fiber.State → γ → Prop, M.Follows awaits g fiber.prog (M.RoundEnd J) ∧
    ∀ s g', J s g' → M.Follows awaits g' (fiber.next s) (M.RoundEnd J)

theorem Conforms.once {p : Coro E R Unit}
    (hp : M.Follows awaits g p fun _ g' => M.atomic g' = false ∧ M.final g') :
    M.Conforms awaits g (Fiber.once p) :=
  ⟨fun _ _ => False, hp.bind fun _ _ h => h, fun _ _ h => h.elim⟩

/-- A fiber all of whose effects keep `J`. -/
theorem Conforms.of_keeps {J : γ → Prop} {fiber : Fiber E R}
    (hatomic : ∀ g, J g → M.atomic g = false) (hfinal : ∀ g, J g → M.final g)
    (hprog : fiber.prog.Performs (M.Keeps J)) (hnext : ∀ s, (fiber.next s).Performs (M.Keeps J))
    (hg : J g) : M.Conforms awaits g fiber := by
  have hround : ∀ {o : Option fiber.State} {g' : γ}, J g' → M.RoundEnd (fun _ => J) o g' := by
    intro o g' hg'
    cases o
    · exact ⟨hatomic g' hg', hfinal g' hg'⟩
    · exact ⟨hatomic g' hg', hg'⟩
  exact ⟨fun _ => J, (Follows.of_keeps hprog hatomic hg).mono fun _ _ => hround,
    fun s _ hg' => (Follows.of_keeps (hnext s) hatomic hg').mono fun _ _ => hround⟩

/-- A fiber all of whose effects are ignored in state `g` conforms from there on. -/
theorem Conforms.of_performs {fiber : Fiber E R} (hatomic : M.atomic g = false)
    (hfinal : M.final g) (hprog : fiber.prog.Performs (M.Ignores g))
    (hnext : ∀ s, (fiber.next s).Performs (M.Ignores g)) : M.Conforms awaits g fiber :=
  .of_keeps (J := (· = g)) (fun _ hg => hg ▸ hatomic) (fun _ hg => hg ▸ hfinal)
    (hprog.mono fun _ => Ignores.keeps) (fun s => (hnext s).mono fun _ => Ignores.keeps) rfl

end Monitor

/-! ## Machines whose tasks are monitored -/

open Machine

variable [DecidableEq T]

/-- Every task that the machine starts conforms to the monitor. `good` is what the world must
promise about the tasks it has asked for. -/
structure Supervision (S : Machine T E R A W) (M : Monitor E R γ) where
  /-- The monitor state of a task that starts. -/
  enter : A → W → γ
  good : W → Prop
  exec : ∀ {w w' t e a r g g'}, good w → M.next g e r = some g' →
    S.exec t a e w = some (r, w') → good w'
  env : ∀ {w w' a}, good w → S.env a w = some w' → good w'
  start : ∀ {w w' t fiber a}, good w → S.start a w = some (t, fiber, w') →
    M.atomic (enter a w) = false ∧ M.Conforms S.awaits (enter a w) fiber ∧ good w'
  crash : ∀ {w w' a}, good w → S.crash a w = some w' → good w'

/-- The monitor states `G` describe the tasks of `c`. -/
structure Tracked (S : Machine T E R A W) (M : Monitor E R γ) (c : Config T E R W)
    (G : T → γ) : Prop where
  conforms : ∀ t fiber, c.tasks t = some fiber → M.Conforms S.awaits (G t) fiber
  idle : ∀ t, c.tasks t = none → G t = M.idle
  running : ∀ t, M.atomic (G t) = true → c.running = some t

/-- A relation between the monitor states of all tasks and the world that every allowed step
keeps. When task `t` moves, no other task is in an atomic state. -/
structure Invariant {S : Machine T E R A W} {M : Monitor E R γ} (V : Supervision S M)
    (allow : W → Event T E A → Prop) where
  inv : (T → γ) → W → Prop
  effect : ∀ {G w w' t e a r g'}, V.good w → inv G w →
    (∀ u, u ≠ t → M.atomic (G u) = false) → allow w (.effect t e a) →
    S.exec t a e w = some (r, w') → M.next (G t) e r = some g' →
    inv (Function.update G t g') w'
  finish : ∀ {G w t}, V.good w → inv G w → M.final (G t) →
    inv (Function.update G t M.idle) w
  env : ∀ {G w w' a}, V.good w → inv G w → allow w (.env a) → S.env a w = some w' → inv G w'
  start : ∀ {G w w' t fiber a}, V.good w → inv G w → allow w (.start a) →
    S.start a w = some (t, fiber, w') → G t = M.idle →
    inv (Function.update G t (V.enter a w)) w'
  crash : ∀ {G w w' a}, V.good w → inv G w → allow w (.crash a) → S.crash a w = some w' →
    inv (fun _ => M.idle) w'

namespace Tracked

variable {S : Machine T E R A W} {M : Monitor E R γ} {c : Config T E R W} {G : T → γ}

omit [DecidableEq T] in
theorem ofWorld (w : W) : Tracked S M (.ofWorld w) fun _ => M.idle where
  conforms t fiber h := by cases h
  idle t _ := rfl
  running t h := by simp [M.atomic_idle] at h

omit [DecidableEq T] in
/-- While `t` may move, the other tasks are not in atomic states. -/
theorem atomic_ne (h : Tracked S M c G) {t u : T} (hfree : c.Free t) (hu : u ≠ t) :
    M.atomic (G u) = false := by
  by_contra hatomic
  have hrun := h.running u (by simpa using hatomic)
  rcases hfree with hnone | hsome
  · simp [hrun] at hnone
  · rw [hrun] at hsome
    exact hu (Option.some.inj hsome)

omit [DecidableEq T] in
/-- The effect that a task is about to perform is accepted. -/
theorem accepts (h : Tracked S M c G) {t : T} {e : E} (habout : c.About t e) (r : R e) :
    ∃ g', M.next (G t) e r = some g' := by
  obtain ⟨-, fiber, k, htask, hop⟩ := habout
  obtain ⟨J, hprog, -⟩ := h.conforms t _ htask
  rw [hop] at hprog
  exact (hprog.2 r).imp fun _ h => h.1

/-- Task `t` goes on as `fiber`, which conforms from `g` and keeps the processor if it must. -/
theorem resume (h : Tracked S M c G) {t : T} {fiber : Fiber E R} {g : γ} {w : W}
    (hfree : c.Free t) (hconf : M.Conforms S.awaits g fiber)
    (hatomic : M.atomic g = true → fiber.holdsProcessor S.awaits = true) :
    Tracked S M (c.resume S t fiber w) (Function.update G t g) where
  conforms u fiber' hu := by
    by_cases hut : u = t
    · subst hut
      obtain rfl : fiber = fiber' := by simpa [Config.resume] using hu
      simpa using hconf
    · rw [Function.update_of_ne hut]
      exact h.conforms u fiber' (by simpa [Config.resume, hut] using hu)
  idle u hu := by
    have hut : u ≠ t := by
      rintro rfl
      simp [Config.resume] at hu
    rw [Function.update_of_ne hut]
    exact h.idle u (by simpa [Config.resume, hut] using hu)
  running u hu := by
    by_cases hut : u = t
    · subst hut
      have : fiber.holdsProcessor S.awaits = true := hatomic (by simpa using hu)
      simp [Config.resume, this]
    · rw [Function.update_of_ne hut, h.atomic_ne hfree hut] at hu
      cases hu

/-- A task performs the effect that it was about to perform, and its monitor goes on. -/
theorem performs {c' : Config T E R W} {t : T} {a : A} {e : E} (h : Tracked S M c G)
    (habout : c.About t e) (hstep : S.step c (.task t a) = some c') :
    ∃ r w g, S.exec t a e c.world = some (r, w) ∧ M.next (G t) e r = some g ∧ c'.world = w ∧
      Tracked S M c' (Function.update G t g) := by
  obtain ⟨hfree, ⟨State, prog, next⟩, k, htask, hop⟩ := habout
  dsimp only at hop
  rw [hop] at htask
  obtain ⟨J, hprog, hnext⟩ := h.conforms t _ htask
  obtain ⟨-, r, w, hexec, rfl⟩ := of_step_op htask hstep
  obtain ⟨g, haccept, hk⟩ := hprog.2 r
  refine ⟨r, w, g, hexec, haccept, rfl, h.resume hfree ⟨J, hk, hnext⟩ fun hatomic => ?_⟩
  rcases hkr : k r with o | ⟨e', k'⟩
  · simp [Fiber.holdsProcessor]
  · rw [hkr] at hk
    simpa [Fiber.holdsProcessor, hkr] using hk.1 hatomic

end Tracked

namespace Invariant

variable {S : Machine T E R A W} {M : Monitor E R γ} {V : Supervision S M}
  {allow : W → Event T E A → Prop} (I : Invariant V allow)

/-- A step of a task that keeps `Tracked` also keeps the invariant. -/
private theorem step_task {c c' : Config T E R W} {G : T → γ} {t : T} {a : A}
    (htr : Tracked S M c G) (hgood : V.good c.world) (hinv : I.inv G c.world)
    (hallow : allow c.world (event c (.task t a))) (hstep : S.step c (.task t a) = some c') :
    ∃ G', Tracked S M c' G' ∧ V.good c'.world ∧ I.inv G' c'.world := by
  have hmove := hstep
  rw [step] at hmove
  split at hmove
  case isFalse => cases hmove
  case isTrue hfree =>
  rcases htask : c.tasks t with _ | ⟨State, prog, next⟩
  · simp [htask] at hmove
  obtain ⟨J, hprog, hnext⟩ := htr.conforms t _ htask
  cases prog with
  | ret o =>
    cases o with
    | none =>
      -- the task ends
      obtain rfl : _ = c' := by simpa [htask] using hmove
      have hfinal : M.final (G t) := hprog.2
      refine ⟨Function.update G t M.idle, ?_, hgood, I.finish hgood hinv hfinal⟩
      refine ⟨fun u fiber hu => ?_, fun u hu => ?_, fun u hu => ?_⟩
      · have hut : u ≠ t := by rintro rfl; simp at hu
        rw [Function.update_of_ne hut]
        exact htr.conforms u fiber (by simpa [hut] using hu)
      · by_cases hut : u = t
        · subst hut; simp
        · rw [Function.update_of_ne hut]
          exact htr.idle u (by simpa [hut] using hu)
      · by_cases hut : u = t
        · subst hut; simp [M.atomic_idle] at hu
        · rw [Function.update_of_ne hut, htr.atomic_ne hfree hut] at hu
          cases hu
    | some s =>
      -- the loop goes into its next round
      obtain rfl : _ = c' := by simpa [htask] using hmove
      obtain ⟨hatomic, hJ⟩ : M.atomic (G t) = false ∧ J s (G t) := hprog
      have hround : M.Conforms S.awaits (G t) ⟨State, next s, next⟩ := ⟨J, hnext s _ hJ, hnext⟩
      have htr' := htr.resume (w := c.world) hfree hround fun h => by simp [hatomic] at h
      refine ⟨G, ?_, hgood, hinv⟩
      rwa [Function.update_eq_self] at htr'
  | op e k =>
    obtain ⟨r, w, g', hexec, haccept, rfl, htr'⟩ := htr.performs ⟨hfree, _, _, htask, rfl⟩ hstep
    have hallow' : allow c.world (.effect t e a) := by simpa [event, htask] using hallow
    have hinv' := I.effect hgood hinv (fun u hu => htr.atomic_ne hfree hu) hallow' hexec haccept
    exact ⟨_, htr', V.exec hgood haccept hexec, hinv'⟩

/-- Every reachable configuration has monitor states that describe it and satisfy `inv`. -/
theorem tracked {c₀ c : Config T E R W} {G₀ : T → γ} (hreach : S.Reachable allow c₀ c)
    (hgood : V.good c₀.world) (hinv : I.inv G₀ c₀.world) (hc₀ : Tracked S M c₀ G₀) :
    ∃ G, Tracked S M c G ∧ V.good c.world ∧ I.inv G c.world := by
  -- By induction on the run: the state of the task that moves is the only one to change.
  induction hreach with
  | refl => exact ⟨_, hc₀, hgood, hinv⟩
  | @step c c' l _ hallow hstep ih =>
    obtain ⟨G, htr, hgood, hinv⟩ := ih
    cases l with
    | task t a => exact I.step_task htr hgood hinv hallow hstep
    | env a =>
      obtain ⟨w, hw, rfl⟩ : ∃ w, S.env a c.world = some w ∧ { c with world := w } = c' := by
        simpa [step] using hstep
      exact ⟨G, ⟨htr.conforms, htr.idle, htr.running⟩, V.env hgood hw,
        I.env hgood hinv hallow hw⟩
    | start a =>
      rw [step] at hstep
      split at hstep
      · cases hstep
      next t fiber w hw =>
      split at hstep
      · cases hstep
      next hnone =>
      obtain rfl := Option.some.inj hstep
      obtain ⟨hatomic, hconf, hgood'⟩ := V.start hgood hw
      refine ⟨Function.update G t (V.enter a c.world), ?_, hgood',
        I.start hgood hinv hallow hw (htr.idle t hnone)⟩
      refine ⟨fun u fiber' hu => ?_, fun u hu => ?_, fun u hu => ?_⟩
      · by_cases hut : u = t
        · subst hut
          obtain rfl : fiber = fiber' := by simpa using hu
          simpa using hconf
        · rw [Function.update_of_ne hut]
          exact htr.conforms u fiber' (by simpa [hut] using hu)
      · have hut : u ≠ t := by rintro rfl; simp at hu
        rw [Function.update_of_ne hut]
        exact htr.idle u (by simpa [hut] using hu)
      · by_cases hut : u = t
        · subst hut; simp [hatomic] at hu
        · rw [Function.update_of_ne hut] at hu
          exact htr.running u hu
    | crash a =>
      obtain ⟨w, hw, rfl⟩ : ∃ w, S.crash a c.world = some w ∧ .ofWorld w = c' := by
        simpa [step] using hstep
      exact ⟨_, .ofWorld w, V.crash hgood hw, I.crash hgood hinv hallow hw⟩

/-- The invariant holds in every configuration reached from a world without tasks. -/
theorem reachable {w₀ : W} {c : Config T E R W} (hreach : S.Reachable allow (.ofWorld w₀) c)
    (hgood : V.good w₀) (hinv : I.inv (fun _ => M.idle) w₀) :
    ∃ G, V.good c.world ∧ I.inv G c.world := by
  obtain ⟨G, -, hgood, hinv⟩ := I.tracked hreach hgood hinv (.ofWorld w₀)
  exact ⟨G, hgood, hinv⟩

/-- When a task is about to perform `e`, its monitor accepts `e` and the invariant holds. -/
theorem about {w₀ : W} {c : Config T E R W} (hreach : S.Reachable allow (.ofWorld w₀) c)
    (hgood : V.good w₀) (hinv : I.inv (fun _ => M.idle) w₀) {t : T} {e : E}
    (habout : c.About t e) :
    ∃ G, V.good c.world ∧ I.inv G c.world ∧ (∀ u, u ≠ t → M.atomic (G u) = false) ∧
      ∀ r, ∃ g', M.next (G t) e r = some g' := by
  obtain ⟨G, htr, hgood, hinv⟩ := I.tracked hreach hgood hinv (.ofWorld w₀)
  exact ⟨G, hgood, hinv, fun u hu => htr.atomic_ne habout.1 hu, htr.accepts habout⟩

variable (V allow) in
/-- The relation that says nothing. -/
def trivial : Invariant V allow where
  inv _ _ := True
  effect _ _ _ _ _ _ := True.intro
  finish _ _ _ := True.intro
  env _ _ _ _ := True.intro
  start _ _ _ _ _ := True.intro
  crash _ _ _ _ := True.intro

/-- The invariant of runs under a stronger assumption. -/
def restrict {allow' : W → Event T E A → Prop} (h : ∀ w e, allow' w e → allow w e) :
    Invariant V allow' where
  inv := I.inv
  effect hgood hinv hatomic hallow := I.effect hgood hinv hatomic (h _ _ hallow)
  finish := I.finish
  env hgood hinv hallow := I.env hgood hinv (h _ _ hallow)
  start hgood hinv hallow := I.start hgood hinv (h _ _ hallow)
  crash hgood hinv hallow := I.crash hgood hinv (h _ _ hallow)

/-- Two relations that every step keeps. -/
def inter (J : Invariant V allow) : Invariant V allow where
  inv G w := I.inv G w ∧ J.inv G w
  effect hgood hinv hatomic hallow hexec hnext :=
    ⟨I.effect hgood hinv.1 hatomic hallow hexec hnext,
      J.effect hgood hinv.2 hatomic hallow hexec hnext⟩
  finish hgood hinv hfinal := ⟨I.finish hgood hinv.1 hfinal, J.finish hgood hinv.2 hfinal⟩
  env hgood hinv hallow henv := ⟨I.env hgood hinv.1 hallow henv, J.env hgood hinv.2 hallow henv⟩
  start hgood hinv hallow hstart hidle :=
    ⟨I.start hgood hinv.1 hallow hstart hidle, J.start hgood hinv.2 hallow hstart hidle⟩
  crash hgood hinv hallow hcrash :=
    ⟨I.crash hgood hinv.1 hallow hcrash, J.crash hgood hinv.2 hallow hcrash⟩

/-- A relation that every step keeps if `I` holds before and after the step. -/
structure Extension where
  inv : (T → γ) → W → Prop
  effect : ∀ {G w w' t e a r g'}, V.good w → I.inv G w → I.inv (Function.update G t g') w' →
    inv G w → (∀ u, u ≠ t → M.atomic (G u) = false) → allow w (.effect t e a) →
    S.exec t a e w = some (r, w') → M.next (G t) e r = some g' →
    inv (Function.update G t g') w'
  finish : ∀ {G w t}, I.inv G w → inv G w → M.final (G t) →
    inv (Function.update G t M.idle) w
  env : ∀ {G w w' a}, I.inv G w → I.inv G w' → inv G w → allow w (.env a) →
    S.env a w = some w' → inv G w'
  start : ∀ {G w w' t fiber a}, V.good w → I.inv G w → inv G w → allow w (.start a) →
    S.start a w = some (t, fiber, w') → G t = M.idle →
    inv (Function.update G t (V.enter a w)) w'
  crash : ∀ {G w w' a}, I.inv G w → inv G w → allow w (.crash a) → S.crash a w = some w' →
    inv (fun _ => M.idle) w'

/-- Both relations together. -/
def extend (J : I.Extension) : Invariant V allow where
  inv G w := I.inv G w ∧ J.inv G w
  effect hgood hinv hatomic hallow hexec hnext := by
    have hI := I.effect hgood hinv.1 hatomic hallow hexec hnext
    exact ⟨hI, J.effect hgood hinv.1 hI hinv.2 hatomic hallow hexec hnext⟩
  finish hgood hinv hfinal := ⟨I.finish hgood hinv.1 hfinal, J.finish hinv.1 hinv.2 hfinal⟩
  env hgood hinv hallow henv := by
    have hI := I.env hgood hinv.1 hallow henv
    exact ⟨hI, J.env hinv.1 hI hinv.2 hallow henv⟩
  start hgood hinv hallow hstart hidle :=
    ⟨I.start hgood hinv.1 hallow hstart hidle, J.start hgood hinv.1 hinv.2 hallow hstart hidle⟩
  crash hgood hinv hallow hcrash :=
    ⟨I.crash hgood hinv.1 hallow hcrash, J.crash hinv.1 hinv.2 hallow hcrash⟩

/-- A relation between the monitor state of one task and the world that every step keeps, if `I`
holds before it. -/
structure Focus (t₀ : T) where
  inv : γ → W → Prop
  /-- The task itself moves. -/
  own : ∀ {G w w' e a r g'}, I.inv G w → inv (G t₀) w → allow w (.effect t₀ e a) →
    S.exec t₀ a e w = some (r, w') → M.next (G t₀) e r = some g' → inv g' w'
  /-- Another task moves. -/
  other : ∀ {G w w' t e a r g'}, t ≠ t₀ → I.inv G w → M.atomic (G t₀) = false → inv (G t₀) w →
    allow w (.effect t e a) → S.exec t a e w = some (r, w') → M.next (G t) e r = some g' →
    inv (G t₀) w'
  finish : ∀ {g w}, inv g w → M.final g → inv M.idle w
  env : ∀ {g w w' a}, inv g w → allow w (.env a) → S.env a w = some w' → inv g w'
  /-- The task itself starts. -/
  enter : ∀ {w w' fiber a}, V.good w → inv M.idle w → S.start a w = some (t₀, fiber, w') →
    inv (V.enter a w) w'
  /-- Another task starts. -/
  start : ∀ {g w w' t fiber a}, t ≠ t₀ → inv g w → S.start a w = some (t, fiber, w') → inv g w'
  crash : ∀ {g w w' a}, inv g w → S.crash a w = some w' → inv M.idle w'

/-- An invariant about one task extends `I`. -/
def Focus.extension {I : Invariant V allow} {t₀ : T} (F : I.Focus t₀) : I.Extension where
  inv G w := F.inv (G t₀) w
  effect := by
    intro G w w' t e a r g' _ hI _ hinv hatomic hallow hexec hnext
    by_cases ht : t = t₀
    · subst ht
      rw [Function.update_self]
      exact F.own hI hinv hallow hexec hnext
    · rw [Function.update_of_ne fun heq => ht heq.symm]
      exact F.other ht hI (hatomic t₀ fun heq => ht heq.symm) hinv hallow hexec hnext
  finish := by
    intro G w t _ hinv hfinal
    by_cases ht : t = t₀
    · subst ht
      rw [Function.update_self]
      exact F.finish hinv hfinal
    · rwa [Function.update_of_ne fun heq => ht heq.symm]
  env _ _ hinv hallow henv := F.env hinv hallow henv
  start := by
    intro G w w' t fiber a hgood _ hinv _ hstart hidle
    by_cases ht : t = t₀
    · subst ht
      rw [Function.update_self]
      exact F.enter hgood (hidle ▸ hinv) hstart
    · rw [Function.update_of_ne fun heq => ht heq.symm]
      exact F.start ht hinv hstart
  crash _ hinv _ hcrash := F.crash hinv hcrash

variable (V allow) in
/-- A relation between the monitor state of one task and the world that every allowed step keeps. -/
structure Watch (t₀ : T) where
  inv : γ → W → Prop
  /-- The task itself moves. -/
  own : ∀ {w w' e a r g g'}, inv g w → allow w (.effect t₀ e a) → S.exec t₀ a e w = some (r, w') →
    M.next g e r = some g' → inv g' w'
  /-- Another task moves. -/
  other : ∀ {w w' t e a r g}, t ≠ t₀ → inv g w → allow w (.effect t e a) →
    S.exec t a e w = some (r, w') → inv g w'
  finish : ∀ {g w}, inv g w → M.final g → inv M.idle w
  env : ∀ {g w w' a}, inv g w → allow w (.env a) → S.env a w = some w' → inv g w'
  /-- The task itself starts. -/
  enter : ∀ {w w' fiber a}, inv M.idle w → allow w (.start a) → S.start a w = some (t₀, fiber, w') →
    inv (V.enter a w) w'
  /-- Another task starts. -/
  start : ∀ {g w w' t fiber a}, t ≠ t₀ → inv g w → allow w (.start a) →
    S.start a w = some (t, fiber, w') → inv g w'
  crash : ∀ {g w w' a}, inv g w → allow w (.crash a) → S.crash a w = some w' → inv M.idle w'

/-- What is said of one task is kept in every run. -/
def Watch.invariant {t₀ : T} (F : Watch V allow t₀) : Invariant V allow where
  inv G w := F.inv (G t₀) w
  effect := by
    intro G w w' t e a r g' _ hinv _ hallow hexec hnext
    by_cases ht : t = t₀
    · subst ht
      rw [Function.update_self]
      exact F.own hinv hallow hexec hnext
    · rw [Function.update_of_ne fun heq => ht heq.symm]
      exact F.other ht hinv hallow hexec
  finish := by
    intro G w t _ hinv hfinal
    by_cases ht : t = t₀
    · subst ht
      rw [Function.update_self]
      exact F.finish hinv hfinal
    · rwa [Function.update_of_ne fun heq => ht heq.symm]
  env _ hinv hallow henv := F.env hinv hallow henv
  start := by
    intro G w w' t fiber a _ hinv hallow hstart hidle
    by_cases ht : t = t₀
    · subst ht
      rw [Function.update_self]
      exact F.enter (hidle ▸ hinv) hallow hstart
    · rw [Function.update_of_ne fun heq => ht heq.symm]
      exact F.start ht hinv hallow hstart
  crash _ hinv hallow hcrash := F.crash hinv hallow hcrash

end Invariant

end Coro
