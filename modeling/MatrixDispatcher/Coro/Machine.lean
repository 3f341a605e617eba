import MatrixDispatcher.Coro.Basic

/-!
# Machines that run cooperative tasks

A `Machine` runs any number of coroutines against one shared world, the way a single-threaded
event loop does. Effects are split by `awaits`: a task keeps the processor through every effect
that does not await, and gives it up where it awaits. Everything nondeterministic (which task
goes on, what the outside world answers, when the process dies) is an input, a `Label`, so that
`Machine.step` is a function and a schedule can be evaluated.

* `Machine.step` — one step: of a task, of the environment, the start of a task, a crash.
* `Machine.Reachable` — the configurations reached by steps whose `Event`s are all allowed;
  assumptions about the environment are such a filter.
* `Machine.run` — the configuration a schedule leads to, with `Machine.reachable_of_run`;
  `Machine.play` is the same for scenarios that name only the unusual answers.
-/

namespace Coro

variable {T E : Type} {R : E → Type} {A W : Type}

/-- A task: the program it is running and, for a loop, the program of its next round. A program
that returns `none` ends the task. -/
structure Fiber (E : Type) (R : E → Type) where
  /-- The variables that a loop carries from one round to the next. -/
  State : Type
  /-- What is left of the current round. -/
  prog : Coro E R (Option State)
  /-- The next round. -/
  next : State → Coro E R (Option State)

/-- A task that runs `p` once. -/
def Fiber.once (p : Coro E R Unit) : Fiber E R where
  State := Unit
  prog := p >>= fun _ => Coro.ret none
  next _ := Coro.ret none

/-- The task makes its next effect at once, without giving up the processor. -/
def Fiber.holdsProcessor (awaits : E → Bool) (task : Fiber E R) : Bool :=
  match task.prog with
  | .ret _ => true
  | .op e _ => !awaits e

/-- What the effects of a signature do to a shared world. `T` names tasks and `A` is the type of
inputs that resolve nondeterminism; a move that is impossible with the given input is `none`. -/
structure Machine (T E : Type) (R : E → Type) (A W : Type) where
  /-- The effects at which a task gives up the processor. -/
  awaits : E → Bool
  /-- The response to an effect of a task, and the world after it. -/
  exec : T → A → (e : E) → W → Option (R e × W)
  /-- A move of the environment. -/
  env : A → W → Option W
  /-- A task that the world has asked for starts. -/
  start : A → W → Option (T × Fiber E R × W)
  /-- The process dies and a new one takes its place. -/
  crash : A → W → Option W

/-- Who moves next, and the input that resolves the move. -/
inductive Label (T A : Type) where
  | task (t : T) (a : A)
  | env (a : A)
  | start (a : A)
  | crash (a : A)

/-- What happens in a step, as seen by a filter on runs. -/
inductive Event (T E A : Type) where
  | effect (t : T) (e : E) (a : A)
  | turn (t : T)
  | env (a : A)
  | start (a : A)
  | crash (a : A)

namespace Machine

/-- A world, the tasks in it, and the task that has the processor, if one has it. -/
structure Config (T E : Type) (R : E → Type) (W : Type) where
  world : W
  tasks : T → Option (Fiber E R)
  running : Option T

/-- The configuration of a world with no tasks. -/
def Config.ofWorld (w : W) : Config T E R W := ⟨w, fun _ => none, none⟩

/-- Task `t` may move: it has the processor, or nobody has it. -/
def Config.Free (c : Config T E R W) (t : T) : Prop := c.running = none ∨ c.running = some t

instance [DecidableEq T] (c : Config T E R W) (t : T) : Decidable (c.Free t) :=
  inferInstanceAs (Decidable (_ ∨ _))

/-- Task `t` is about to perform `e`. -/
def Config.About (c : Config T E R W) (t : T) (e : E) : Prop :=
  c.Free t ∧ ∃ task k, c.tasks t = some task ∧ task.prog = .op e k

/-- The next effect of task `t`. -/
def Config.next (c : Config T E R W) (t : T) : Option E :=
  match c.tasks t with
  | some ⟨_, .op e _, _⟩ => some e
  | _ => none

theorem Config.about_iff {c : Config T E R W} {t : T} {e : E} :
    c.About t e ↔ c.Free t ∧ c.next t = some e := by
  rw [About, next]
  refine and_congr_right fun _ => ⟨?_, fun h => ?_⟩
  · rintro ⟨⟨State, prog, round⟩, k, htask, hop⟩
    cases prog with
    | ret o => cases hop
    | op e' k' =>
      cases hop
      rw [htask]
  · split at h
    · next htask =>
      cases h
      exact ⟨_, _, htask, rfl⟩
    · cases h

variable [DecidableEq T] (S : Machine T E R A W)

/-- Task `t` goes on as `task`; it keeps the processor unless its next effect awaits. -/
def Config.resume (c : Config T E R W) (t : T) (task : Fiber E R) (w : W) : Config T E R W where
  world := w
  tasks := Function.update c.tasks t (some task)
  running := if task.holdsProcessor S.awaits then some t else none

/-- One step of the system. -/
def step (c : Config T E R W) : Label T A → Option (Config T E R W)
  | .task t a =>
    if c.Free t then
      match c.tasks t with
      | none => none
      | some ⟨_, .ret none, _⟩ =>
        some { c with tasks := Function.update c.tasks t none, running := none }
      | some ⟨State, .ret (some s), next⟩ =>
        some (c.resume S t ⟨State, next s, next⟩ c.world)
      | some ⟨State, .op e k, next⟩ =>
        match S.exec t a e c.world with
        | none => none
        | some (r, w) => some (c.resume S t ⟨State, k r, next⟩ w)
    else none
  | .env a => (S.env a c.world).map fun w => { c with world := w }
  | .start a =>
    match S.start a c.world with
    | none => none
    | some (t, task, w) =>
      match c.tasks t with
      | some _ => none
      | none => some { c with world := w, tasks := Function.update c.tasks t (some task) }
  | .crash a => (S.crash a c.world).map .ofWorld

variable {S} in
/-- A task that may move performs its next effect. -/
theorem step_op {c : Config T E R W} {t : T} {a : A} {σ : Type} {e : E}
    {k : R e → Coro E R (Option σ)} {next : σ → Coro E R (Option σ)} {r : R e} {w : W}
    (hfree : c.Free t) (htask : c.tasks t = some ⟨σ, .op e k, next⟩)
    (hexec : S.exec t a e c.world = some (r, w)) :
    S.step c (.task t a) = some (c.resume S t ⟨σ, k r, next⟩ w) := by
  simp only [step, if_pos hfree, htask, hexec]

variable {S} in
/-- What a task that is about to perform an effect does in a step. -/
theorem of_step_op {c c' : Config T E R W} {t : T} {a : A} {σ : Type} {e : E}
    {k : R e → Coro E R (Option σ)} {next : σ → Coro E R (Option σ)}
    (htask : c.tasks t = some ⟨σ, .op e k, next⟩) (hstep : S.step c (.task t a) = some c') :
    c.Free t ∧ ∃ r w, S.exec t a e c.world = some (r, w) ∧
      c' = c.resume S t ⟨σ, k r, next⟩ w := by
  rw [step] at hstep
  split at hstep
  · next hfree =>
    rw [htask] at hstep
    dsimp only at hstep
    split at hstep
    · cases hstep
    · next r w hexec => exact ⟨hfree, r, w, hexec, (Option.some.inj hstep).symm⟩
  · cases hstep

/-- The event of the step that `l` makes from `c`. -/
def event (c : Config T E R W) : Label T A → Event T E A
  | .task t a =>
    match c.tasks t with
    | some ⟨_, .op e _, _⟩ => .effect t e a
    | _ => .turn t
  | .env a => .env a
  | .start a => .start a
  | .crash a => .crash a

omit [DecidableEq T] in
theorem event_of_about {c : Config T E R W} {t : T} {e : E} (h : c.About t e) (a : A) :
    event c (.task t a) = .effect t e a := by
  obtain ⟨-, ⟨State, prog, next⟩, k, htask, hop⟩ := h
  cases prog with
  | ret o => cases hop
  | op e' k' =>
    cases hop
    rw [event, htask]

/-- The configurations reached from `c₀` by steps whose events satisfy `allow`. -/
inductive Reachable (allow : W → Event T E A → Prop) (c₀ : Config T E R W) :
    Config T E R W → Prop
  | refl : Reachable allow c₀ c₀
  | step {c c' : Config T E R W} (l : Label T A) (h : Reachable allow c₀ c)
      (hallow : allow c.world (event c l)) (hstep : S.step c l = some c') :
      Reachable allow c₀ c'

/-- The configuration that a schedule leads to, if every step of it is possible and allowed. -/
def run (allow : W → Event T E A → Prop) [∀ w e, Decidable (allow w e)]
    (c : Config T E R W) : List (Label T A) → Option (Config T E R W)
  | [] => some c
  | l :: ls =>
    if allow c.world (event c l) then
      match S.step c l with
      | none => none
      | some c' => run allow c' ls
    else none

variable {S}

theorem Reachable.trans {allow : W → Event T E A → Prop} {c₀ c₁ c₂ : Config T E R W}
    (h₁ : S.Reachable allow c₀ c₁) (h₂ : S.Reachable allow c₁ c₂) : S.Reachable allow c₀ c₂ := by
  induction h₂ with
  | refl => exact h₁
  | step l _ hallow hstep ih => exact .step l ih hallow hstep

theorem Reachable.mono {allow allow' : W → Event T E A → Prop} {c₀ c : Config T E R W}
    (hle : ∀ w e, allow w e → allow' w e) (h : S.Reachable allow c₀ c) :
    S.Reachable allow' c₀ c := by
  induction h with
  | refl => exact .refl
  | step l _ hallow hstep ih => exact .step l ih (hle _ _ hallow) hstep

/-- What a step does to the world. -/
inductive Change (S : Machine T E R A W) (c : Config T E R W) (w : W) : Event T E A → Prop
  | effect {t : T} {e : E} {a : A} {r : R e} (habout : c.About t e)
      (hexec : S.exec t a e c.world = some (r, w)) : Change S c w (.effect t e a)
  | turn {t : T} (h : w = c.world) : Change S c w (.turn t)
  | env {a : A} (h : S.env a c.world = some w) : Change S c w (.env a)
  | start {a : A} {t : T} {fiber : Fiber E R} (h : S.start a c.world = some (t, fiber, w)) :
      Change S c w (.start a)
  | crash {a : A} (h : S.crash a c.world = some w) : Change S c w (.crash a)

theorem change_of_step {c c' : Config T E R W} {l : Label T A} (hstep : S.step c l = some c') :
    Change S c c'.world (event c l) := by
  -- A step of a task is the end of a program, a new round or an effect.
  cases l with
  | task t a =>
    rw [Machine.step] at hstep
    split at hstep
    case isFalse => cases hstep
    next hfree =>
    split at hstep
    · cases hstep
    · next htask =>
      obtain rfl := Option.some.inj hstep
      rw [event, htask]
      exact .turn rfl
    · next htask =>
      obtain rfl := Option.some.inj hstep
      rw [event, htask]
      exact .turn rfl
    · next htask =>
      split at hstep
      · cases hstep
      · next hexec =>
        obtain rfl := Option.some.inj hstep
        rw [event, htask]
        exact .effect ⟨hfree, _, _, htask, rfl⟩ hexec
  | env a =>
    obtain ⟨w, hw, rfl⟩ := Option.map_eq_some_iff.mp hstep
    exact .env hw
  | start a =>
    rw [Machine.step] at hstep
    split at hstep
    · cases hstep
    next hw =>
    split at hstep
    · cases hstep
    · obtain rfl := Option.some.inj hstep
      exact .start hw
  | crash a =>
    obtain ⟨w, hw, rfl⟩ := Option.map_eq_some_iff.mp hstep
    exact .crash hw

/-- What every step keeps holds of every world that is reached. -/
theorem Reachable.keeps {allow : W → Event T E A → Prop} {c₀ c : Config T E R W} {I : W → Prop}
    (h : S.Reachable allow c₀ c) (hinit : I c₀.world)
    (heffect : ∀ {c t e a r w}, S.Reachable allow c₀ c → c.About t e →
      allow c.world (.effect t e a) → S.exec t a e c.world = some (r, w) → I c.world → I w)
    (henv : ∀ {w w' a}, allow w (.env a) → S.env a w = some w' → I w → I w')
    (hstart : ∀ {w w' t fiber a}, allow w (.start a) → S.start a w = some (t, fiber, w') →
      I w → I w')
    (hcrash : ∀ {w w' a}, allow w (.crash a) → S.crash a w = some w' → I w → I w') :
    I c.world := by
  induction h with
  | refl => exact hinit
  | step l hreach hallow hstep ih =>
    have hchange := change_of_step hstep
    generalize event _ l = e at hallow hchange
    cases hchange with
    | effect habout hexec => exact heffect hreach habout hallow hexec ih
    | turn h => exact h ▸ ih
    | env h => exact henv hallow h ih
    | start h => exact hstart hallow h ih
    | crash h => exact hcrash hallow h ih

/-- What holds at the end of a run, and before a step if it holds after it, holds in every step of
the run. -/
theorem Reachable.since {allow : W → Event T E A → Prop} {c₀ c : Config T E R W} {I : W → Prop}
    (h : S.Reachable allow c₀ c)
    (hback : ∀ {c e w}, S.Reachable allow c₀ c → allow c.world e → Change S c w e → I w →
      I c.world)
    (hend : I c.world) : I c₀.world ∧ S.Reachable (fun w e => allow w e ∧ I w) c₀ c := by
  induction h with
  | refl => exact ⟨hend, .refl⟩
  | step l hreach hallow hstep ih =>
    have hI := hback hreach hallow (change_of_step hstep) hend
    obtain ⟨hinit, hrun⟩ := ih hI
    exact ⟨hinit, .step l hrun ⟨hallow, hI⟩ hstep⟩

variable (S) in
/-- On the way from `c₀` to `c`, the step with the event `e` was made in the world `w`. -/
def Past (allow : W → Event T E A → Prop) (c₀ c : Config T E R W) (w : W) (e : Event T E A) :
    Prop :=
  allow w e ∧ ∃ c₁ l c₂, c₁.world = w ∧ event c₁ l = e ∧ S.Reachable allow c₀ c₁ ∧
    S.step c₁ l = some c₂ ∧ S.Reachable allow c₂ c

/-- The steps of a run may be assumed to be on the way to its end. -/
theorem Reachable.past {allow : W → Event T E A → Prop} {c₀ c : Config T E R W}
    (h : S.Reachable allow c₀ c) : S.Reachable (S.Past allow c₀ c) c₀ c := by
  suffices hpast : ∀ c', S.Reachable allow c c' → S.Reachable (S.Past allow c₀ c') c₀ c from
    hpast c .refl
  induction h with
  | refl => exact fun _ _ => .refl
  | @step c c'' l hreach hallow hstep ih =>
    intro c' hrest
    refine .step l (ih c' (Reachable.trans (.step l .refl hallow hstep) hrest)) ?_ hstep
    exact ⟨hallow, c, l, c'', rfl, rfl, hreach, hstep, hrest⟩

/-- A task that makes a step with an effect was about to perform it. -/
theorem about_of_event {c c' : Config T E R W} {l : Label T A} {t : T} {e : E} {a : A}
    (hevent : event c l = .effect t e a) (hstep : S.step c l = some c') :
    l = .task t a ∧ c.About t e := by
  cases l with
  | task u a' =>
    rw [event] at hevent
    split at hevent
    · next htask =>
      cases hevent
      rw [Machine.step] at hstep
      split at hstep
      · next hfree => exact ⟨rfl, hfree, _, _, htask, rfl⟩
      · cases hstep
    · cases hevent
  | _ => cases hevent

/-- What a schedule leads to is reachable. -/
theorem reachable_of_run {allow : W → Event T E A → Prop} [∀ w e, Decidable (allow w e)]
    {ls : List (Label T A)} {c₀ c : Config T E R W} (h : S.run allow c₀ ls = some c) :
    S.Reachable allow c₀ c := by
  induction ls generalizing c₀ with
  | nil =>
    obtain rfl : c₀ = c := by simpa [run] using h
    exact .refl
  | cons l ls ih =>
    rw [run] at h
    split at h
    · next hallow =>
      split at h
      · cases h
      · next c' hstep =>
        exact Reachable.trans (.step l .refl hallow hstep) (ih h)
    · cases h

/-! ### Scenarios -/

/-- An entry of a scenario: one step, or some steps of a task with the answers that are usual. -/
inductive Cue (T A : Type) where
  | step (l : Label T A)
  | go (t : T) (n : Nat)

section Play

variable (S) (usual : W → E → A) (allow : W → Event T E A → Prop) [∀ w e, Decidable (allow w e)]

/-- The next step of a task, with the answer that is usual. -/
def usualLabel (c : Config T E R W) (t : T) (a : A) : Label T A :=
  match c.tasks t with
  | some ⟨_, .op e _, _⟩ => .task t (usual c.world e)
  | _ => .task t a

/-- The steps of one task; `a` is the answer where there is nothing to answer. -/
def goOn (t : T) (a : A) : Nat → Config T E R W → Option (Config T E R W)
  | 0, c => some c
  | n + 1, c => (S.run allow c [usualLabel usual c t a]).bind (goOn t a n)

/-- The configuration that a scenario leads to, if every step of it is possible and allowed. -/
def play [Inhabited A] (c : Config T E R W) : List (Cue T A) → Option (Config T E R W)
  | [] => some c
  | .step l :: cues => (S.run allow c [l]).bind (play · cues)
  | .go t n :: cues => (S.goOn usual allow t default n c).bind (play · cues)

end Play

variable {usual : W → E → A}

theorem reachable_of_goOn {allow : W → Event T E A → Prop} [∀ w e, Decidable (allow w e)]
    {t : T} {a : A} {n : Nat} {c₀ c : Config T E R W}
    (h : S.goOn usual allow t a n c₀ = some c) : S.Reachable allow c₀ c := by
  induction n generalizing c₀ with
  | zero =>
    obtain rfl : c₀ = c := Option.some.inj h
    exact .refl
  | succ n ih =>
    obtain ⟨c₁, hrun, hrest⟩ := Option.bind_eq_some_iff.mp h
    exact (reachable_of_run hrun).trans (ih hrest)

/-- What a scenario leads to is reachable. -/
theorem reachable_of_play [Inhabited A] {allow : W → Event T E A → Prop}
    [∀ w e, Decidable (allow w e)] {cues : List (Cue T A)} {c₀ c : Config T E R W}
    (h : S.play usual allow c₀ cues = some c) : S.Reachable allow c₀ c := by
  induction cues generalizing c₀ with
  | nil =>
    obtain rfl : c₀ = c := Option.some.inj h
    exact .refl
  | cons cue cues ih =>
    cases cue with
    | step l =>
      obtain ⟨c₁, hrun, hrest⟩ := Option.bind_eq_some_iff.mp h
      exact (reachable_of_run hrun).trans (ih hrest)
    | go t n =>
      obtain ⟨c₁, hgo, hrest⟩ := Option.bind_eq_some_iff.mp h
      exact (reachable_of_goOn hgo).trans (ih hrest)

/-- A scenario whose steps pass a check that implies `allow` reaches a configuration as wanted. -/
theorem exists_reachable [Inhabited A] {allow : W → Event T E A → Prop}
    {check : W → Event T E A → Bool} (hcheck : ∀ w e, check w e = true → allow w e)
    {cues : List (Cue T A)} {c₀ : Config T E R W} {goal : Config T E R W → Bool}
    (h : (S.play usual (fun w e => check w e = true) c₀ cues).any goal = true) :
    ∃ c, S.Reachable allow c₀ c ∧ goal c = true := by
  obtain ⟨c, hplay, hgoal⟩ := (Option.any_eq_true ..).mp h
  exact ⟨c, (reachable_of_play hplay).mono hcheck, hgoal⟩

end Machine

end Coro
