import MatrixDispatcher.Coro.Monitor

/-!
# Refinement

A machine refines an abstract system if everything that is seen of it is something that the
abstract system can show. The proof is a forward simulation: each step of the machine is matched
by some moves of the abstract system, and a relation between the monitor states of the tasks, the
world and the abstract state is kept.

* `Monitor.prod` — two monitors beside each other, with `Supervision.prod` and `Invariant.left`:
  what is known of the one monitor may be used together with the other one.
* `Behaviour` — an abstract system, whose moves are seen or silent; `Behaviour.Path` — its runs,
  with what is seen of them.
* `Invariant.Simulation` — the forward simulation; `Simulation.refines` is what it gives.
-/

namespace Coro

variable {T E : Type} {R : E → Type} {A W γ δ S L α : Type}

/-! ## Two monitors -/

namespace Monitor

/-- Two monitors that read the same effects. -/
def prod (M : Monitor E R γ) (N : Monitor E R δ) : Monitor E R (γ × δ) where
  next g e r := (M.next g.1 e r).bind fun g' => (N.next g.2 e r).map fun h' => (g', h')
  atomic g := M.atomic g.1 || N.atomic g.2
  final g := M.final g.1 ∧ N.final g.2
  idle := (M.idle, N.idle)
  atomic_idle := by simp [M.atomic_idle, N.atomic_idle]

variable {M : Monitor E R γ} {N : Monitor E R δ} {awaits : E → Bool} {g : γ} {h : δ}

theorem prod_next {gh gh' : γ × δ} {e : E} {r : R e} :
    (M.prod N).next gh e r = some gh' ↔
      M.next gh.1 e r = some gh'.1 ∧ N.next gh.2 e r = some gh'.2 := by
  obtain ⟨g', h'⟩ := gh'
  simp [prod, Option.bind_eq_some_iff]

theorem prod_atomic {gh : γ × δ} :
    (M.prod N).atomic gh = false ↔ M.atomic gh.1 = false ∧ N.atomic gh.2 = false := by
  simp [prod]

/-- A program that is accepted by both monitors is accepted by the two together. -/
theorem Follows.prod {p : Coro E R α} {Q : α → γ → Prop} {Q' : α → δ → Prop}
    (hp : M.Follows awaits g p Q) (hq : N.Follows awaits h p Q') :
    (M.prod N).Follows awaits (g, h) p fun a gh => Q a gh.1 ∧ Q' a gh.2 := by
  induction p generalizing g h with
  | ret a => exact ⟨hp, hq⟩
  | op e k ih =>
    refine ⟨fun hatomic => ?_, fun r => ?_⟩
    · rcases (Bool.or_eq_true ..).mp hatomic with hM | hN
      · exact hp.1 hM
      · exact hq.1 hN
    · obtain ⟨g', hg, hk⟩ := hp.2 r
      obtain ⟨h', hh, hk'⟩ := hq.2 r
      exact ⟨(g', h'), prod_next.mpr ⟨hg, hh⟩, ih r hk hk'⟩

/-- The end of a round for both monitors. -/
theorem RoundEnd.prod {σ : Type} {J : σ → γ → Prop} {J' : σ → δ → Prop} {o : Option σ}
    (hg : M.RoundEnd J o g) (hh : N.RoundEnd J' o h) :
    (M.prod N).RoundEnd (fun s gh => J s gh.1 ∧ J' s gh.2) o (g, h) := by
  cases o with
  | none => exact ⟨prod_atomic.mpr ⟨hg.1, hh.1⟩, hg.2, hh.2⟩
  | some s => exact ⟨prod_atomic.mpr ⟨hg.1, hh.1⟩, hg.2, hh.2⟩

/-- A fiber that conforms to both monitors conforms to the two together. -/
theorem Conforms.prod {fiber : Fiber E R} (hM : M.Conforms awaits g fiber)
    (hN : N.Conforms awaits h fiber) : (M.prod N).Conforms awaits (g, h) fiber := by
  obtain ⟨J, hprog, hnext⟩ := hM
  obtain ⟨J', hprog', hnext'⟩ := hN
  have hround : ∀ {o : Option fiber.State} {gh : γ × δ},
      M.RoundEnd J o gh.1 ∧ N.RoundEnd J' o gh.2 →
      (M.prod N).RoundEnd (fun s gh => J s gh.1 ∧ J' s gh.2) o gh := fun ho => ho.1.prod ho.2
  refine ⟨fun s gh => J s gh.1 ∧ J' s gh.2, ?_, fun s gh hJ => ?_⟩
  · exact (hprog.prod hprog').mono fun _ _ => hround
  · exact ((hnext s gh.1 hJ.1).prod (hnext' s gh.2 hJ.2)).mono fun _ _ => hround

end Monitor

variable [DecidableEq T] {M : Monitor E R γ} {N : Monitor E R δ} {machine : Machine T E R A W}

/-- A machine that is supervised by two monitors is supervised by the two together. -/
def Supervision.prod (V : Supervision machine M) (V' : Supervision machine N) :
    Supervision machine (M.prod N) where
  enter a w := (V.enter a w, V'.enter a w)
  good w := V.good w ∧ V'.good w
  exec hgood hnext hexec :=
    ⟨V.exec hgood.1 (Monitor.prod_next.mp hnext).1 hexec,
      V'.exec hgood.2 (Monitor.prod_next.mp hnext).2 hexec⟩
  env hgood henv := ⟨V.env hgood.1 henv, V'.env hgood.2 henv⟩
  start hgood hstart := by
    obtain ⟨hatomic, hconforms, hgood'⟩ := V.start hgood.1 hstart
    obtain ⟨hatomic', hconforms', hgood''⟩ := V'.start hgood.2 hstart
    exact ⟨Monitor.prod_atomic.mpr ⟨hatomic, hatomic'⟩, hconforms.prod hconforms', hgood', hgood''⟩
  crash hgood hcrash := ⟨V.crash hgood.1 hcrash, V'.crash hgood.2 hcrash⟩

/-- The one component of the monitor states after a task has moved. -/
theorem fst_update (G : T → γ × δ) (t : T) (gh : γ × δ) :
    (fun u => (Function.update G t gh u).1) = Function.update (fun u => (G u).1) t gh.1 := by
  funext u
  by_cases hu : u = t
  · subst hu
    simp
  · simp [hu]

namespace Invariant

variable {V : Supervision machine M} {allow : W → Event T E A → Prop}

/-- An invariant of the one monitor is an invariant of the two together. -/
def left (I : Invariant V allow) (V' : Supervision machine N) :
    Invariant (V.prod V') allow where
  inv G w := I.inv (fun t => (G t).1) w
  effect hgood hinv hatomic hallow hexec hnext := by
    rw [fst_update]
    exact I.effect hgood.1 hinv (fun u hu => (Monitor.prod_atomic.mp (hatomic u hu)).1) hallow
      hexec (Monitor.prod_next.mp hnext).1
  finish hgood hinv hfinal := by
    rw [fst_update]
    exact I.finish hgood.1 hinv hfinal.1
  env hgood hinv := I.env hgood.1 hinv
  start hgood hinv hallow hstart hidle := by
    rw [fst_update]
    exact I.start hgood.1 hinv hallow hstart (congrArg Prod.fst hidle)
  crash hgood := I.crash hgood.1

end Invariant

/-! ## Abstract systems -/

/-- An abstract system: where it begins, and its moves, of which a label is seen or nothing. -/
structure Behaviour (S L : Type) where
  init : S
  Move : S → Option L → S → Prop

namespace Behaviour

variable (B : Behaviour S L)

/-- From the beginning, the system can get to a state so that this is seen, latest first. -/
inductive Path : List L → S → Prop
  | refl : Path [] B.init
  | silent {ls : List L} {s s' : S} (h : Path ls s) (hmove : B.Move s none s') : Path ls s'
  | seen {ls : List L} {s s' : S} {l : L} (h : Path ls s) (hmove : B.Move s (some l) s') :
    Path (l :: ls) s'

variable {B}

/-- A move, of which a label is seen or nothing. -/
theorem Path.move {ls : List L} {s s' : S} {o : Option L} (h : B.Path ls s)
    (hmove : B.Move s o s') : B.Path (o.toList ++ ls) s' := by
  cases o with
  | none => exact .silent h hmove
  | some l => exact .seen h hmove

/-- What holds in the beginning, and is kept by every move, holds on every path. -/
theorem Path.keeps {I : List L → S → Prop} {ls : List L} {s : S} (h : B.Path ls s)
    (hinit : I [] B.init)
    (hmove : ∀ {ls s o s'}, B.Path ls s → I ls s → B.Move s o s' → I (o.toList ++ ls) s') :
    I ls s := by
  induction h with
  | refl => exact hinit
  | silent h hm ih => exact hmove h ih hm
  | seen h hm ih => exact hmove h ih hm

end Behaviour

/-! ## Forward simulations -/

namespace Invariant

variable {V : Supervision machine M} {allow : W → Event T E A → Prop}

/-- A relation between the states of a machine and those of an abstract system, such that each step
of the machine is matched by at most one move that shows the same. -/
structure Simulation (I : Invariant V allow) (B : Behaviour S L) where
  /-- What has been seen of the machine, latest first. -/
  seen : W → List L
  rel : (T → γ) → W → S → Prop
  effect : ∀ {G w w' t e a r g' s}, V.good w → I.inv G w → I.inv (Function.update G t g') w' →
    rel G w s → allow w (.effect t e a) → machine.exec t a e w = some (r, w') →
    M.next (G t) e r = some g' →
    (seen w' = seen w ∧ rel (Function.update G t g') w' s) ∨
      ∃ o s', B.Move s o s' ∧ seen w' = o.toList ++ seen w ∧ rel (Function.update G t g') w' s'
  finish : ∀ {G w t s}, I.inv G w → rel G w s → M.final (G t) →
    rel (Function.update G t M.idle) w s
  env : ∀ {G w w' a s}, I.inv G w → rel G w s → allow w (.env a) → machine.env a w = some w' →
    seen w' = seen w ∧ rel G w' s
  start : ∀ {G w w' t fiber a s}, V.good w → I.inv G w → rel G w s → allow w (.start a) →
    machine.start a w = some (t, fiber, w') → G t = M.idle →
    seen w' = seen w ∧ rel (Function.update G t (V.enter a w)) w' s
  crash : ∀ {G w w' a s}, I.inv G w → rel G w s → allow w (.crash a) →
    machine.crash a w = some w' →
    ∃ o s', B.Move s o s' ∧ seen w' = o.toList ++ seen w ∧ rel (fun _ => M.idle) w' s'

namespace Simulation

variable {I : Invariant V allow} {B : Behaviour S L} (F : I.Simulation B)

/-- That the abstract system has a path to a related state is kept by every step. -/
def extension : I.Extension where
  inv G w := ∃ s, B.Path (F.seen w) s ∧ F.rel G w s
  effect := by
    rintro G w w' t e a r g' hgood hI hI' ⟨s, hpath, hrel⟩ - hallow hexec hnext
    rcases F.effect hgood hI hI' hrel hallow hexec hnext with
      ⟨hseen, hrel'⟩ | ⟨o, s', hmove, hseen, hrel'⟩
    · exact ⟨s, hseen ▸ hpath, hrel'⟩
    · exact ⟨s', hseen ▸ hpath.move hmove, hrel'⟩
  finish := by
    rintro G w t hI ⟨s, hpath, hrel⟩ hfinal
    exact ⟨s, hpath, F.finish hI hrel hfinal⟩
  env := by
    rintro G w w' a hI - ⟨s, hpath, hrel⟩ hallow henv
    obtain ⟨hseen, hrel'⟩ := F.env hI hrel hallow henv
    exact ⟨s, hseen ▸ hpath, hrel'⟩
  start := by
    rintro G w w' t fiber a hgood hI ⟨s, hpath, hrel⟩ hallow hstart hidle
    obtain ⟨hseen, hrel'⟩ := F.start hgood hI hrel hallow hstart hidle
    exact ⟨s, hseen ▸ hpath, hrel'⟩
  crash := by
    rintro G w w' a hI ⟨s, hpath, hrel⟩ hallow hcrash
    obtain ⟨o, s', hmove, hseen, hrel'⟩ := F.crash hI hrel hallow hcrash
    exact ⟨s', hseen ▸ hpath.move hmove, hrel'⟩

/-- In every run, what is seen of the machine is what the abstract system can show, and it is in a
related state then. -/
theorem refines {w₀ : W} {c : Machine.Config T E R W}
    (hreach : machine.Reachable allow (.ofWorld w₀) c) (hgood : V.good w₀)
    (hinv : I.inv (fun _ => M.idle) w₀) (hseen : F.seen w₀ = [])
    (hrel : F.rel (fun _ => M.idle) w₀ B.init) :
    ∃ G s, I.inv G c.world ∧ B.Path (F.seen c.world) s ∧ F.rel G c.world s := by
  obtain ⟨G, -, hI, s, hpath, hrel'⟩ := (I.extend F.extension).reachable hreach hgood
    ⟨hinv, B.init, hseen ▸ .refl, hrel⟩
  exact ⟨G, s, hI, hpath, hrel'⟩

end Simulation

end Invariant

end Coro
