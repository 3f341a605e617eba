import MatrixDispatcher.Discipline.Footprint
import MatrixDispatcher.Discipline.Rules
import MatrixDispatcher.Discipline.Supervise

/-!
# The lives of tasks

A task tells the others of its end as its last act, and only `main` waits for the end of others:
for the two loops that it has created, and for the handlers.

* `LifeStage` — how far a task has come, and how far `main` has come in creating the loops.
* `lifeCoverage` — every task follows this discipline.
-/

namespace MatrixDispatcher

open Py Coro

variable {config : MatrixDispatcher.Config}

/-- The effect waits for the end of handlers. -/
def Eff.gathers : Eff → Bool
  | .await .gather | .await .gatherCancelled => true
  | _ => false

/-- The task for whose end the effect waits. -/
def Eff.joins? : Eff → Option Tid
  | .await (.join u) => some u
  | _ => none

/-- The effect asks for a room lock. -/
def Eff.locks : Eff → Bool
  | .sync (.lockTry _) | .await (.lockWait _) => true
  | _ => false

/-- How far a task has come. -/
inductive LifeStage where
  /-- The task does not run. -/
  | absent
  /-- Not `main`. -/
  | alive
  /-- The end of the task is known. -/
  | done
  /-- `main` has created no loop yet. -/
  | booting
  /-- `main` has created the cleanup loop. -/
  | halfway
  /-- `main` has created both loops. -/
  | serving
  deriving DecidableEq

namespace LifeStage

/-- The effects that a task may perform. -/
def accepts : LifeStage → Eff → Bool
  | absent, _ => false
  | alive, e | done, e => !e.gathers && e.joins?.isNone
  | booting, e | halfway, e => !e.gathers && e.joins?.isNone && !e.locks
  | serving, e => !e.locks && e.joins?.all fun u => decide (u = .cleanup ∨ u = .reconcile)

/-- The stage after an effect. -/
def goes : LifeStage → Eff → LifeStage
  | alive, .sync .taskDone => done
  | booting, .sync (.createTask .cleanup) => halfway
  | halfway, .sync (.createTask .reconcile) => serving
  | g, _ => g

/-- The stages of `main`. -/
def IsMain (g : LifeStage) : Prop := g ≠ alive ∧ g ≠ done

/-- The stages of the other tasks. -/
def IsOther (g : LifeStage) : Prop := g = absent ∨ g = alive ∨ g = done

theorem IsMain.goes {g : LifeStage} (h : g.IsMain) (e : Eff) : (g.goes e).IsMain := by
  rw [LifeStage.goes.eq_def]
  split
  · exact absurd rfl h.1
  · simp [IsMain]
  · simp [IsMain]
  · exact h

theorem IsOther.goes {g : LifeStage} (h : g.IsOther) (e : Eff) : (g.goes e).IsOther := by
  rw [LifeStage.goes.eq_def]
  split
  · exact .inr (.inr rfl)
  · simp [IsOther] at h
  · simp [IsOther] at h
  · exact h

/-- Whoever is alive stays so, up to the last effect. -/
theorem goes_alive {e : Eff} (h : e ≠ .sync .taskDone) : goes .alive e = .alive := by
  rw [LifeStage.goes.eq_def]
  split <;> first | rfl | contradiction

/-- The end of a task is known by its last effect. -/
theorem of_goes_done {g : LifeStage} {e : Eff} (h : g.goes e = .done) :
    g = .done ∨ e = .sync .taskDone := by
  rw [LifeStage.goes.eq_def] at h
  split at h
  · exact .inr rfl
  · cases h
  · cases h
  · exact .inl h

/-- `main` has created the cleanup loop by an effect. -/
theorem of_goes_created {g : LifeStage} {e : Eff} (h : g.goes e = .halfway ∨ g.goes e = .serving) :
    (g = .halfway ∨ g = .serving) ∨ e = .sync (.createTask .cleanup) := by
  rw [LifeStage.goes.eq_def] at h
  split at h
  · simp at h
  · exact .inr rfl
  · exact .inl (.inl rfl)
  · exact .inl h

/-- `main` has created the reconcile loop by an effect. -/
theorem of_goes_serving {g : LifeStage} {e : Eff} (h : g.goes e = .serving) :
    g = .serving ∨ e = .sync (.createTask .reconcile) := by
  rw [LifeStage.goes.eq_def] at h
  split at h
  · cases h
  · cases h
  · exact .inr rfl
  · exact .inl h

end LifeStage

/-- The discipline of lives, as a monitor. -/
def lifeMonitor : Monitor Eff Eff.Ret LifeStage where
  next g e _ := if g.accepts e then some (g.goes e) else none
  atomic _ := false
  final g := g ≠ .alive
  idle := .absent
  atomic_idle := rfl

/-- An effect that is accepted leads on. -/
theorem life_next {g : LifeStage} {e : Eff} {r : e.Ret} (h : g.accepts e = true) :
    lifeMonitor.next g e r = some (g.goes e) := if_pos h

theorem of_life_next {g g' : LifeStage} {e : Eff} {r : e.Ret}
    (h : lifeMonitor.next g e r = some g') : g.accepts e = true ∧ g' = g.goes e := by
  change (if g.accepts e then some (g.goes e) else none) = some g' at h
  split at h
  · next haccepts => exact ⟨haccepts, (Option.some.inj h).symm⟩
  · cases h

/-! ## The tasks follow it -/

/-- The task runs, and its end may be known. -/
def LifeStage.Runs (g : LifeStage) : Prop := g = .alive ∨ g = .done

/-- The effect waits for no task. -/
def Eff.Solitary (e : Eff) : Prop := e.gathers = false ∧ e.joins? = none

theorem life_keeps {e : Eff} (h : e.Solitary) : lifeMonitor.Keeps LifeStage.Runs e := by
  rintro g r (rfl | rfl)
  · refine ⟨_, life_next (by simp [LifeStage.accepts, h.1, h.2]), ?_⟩
    by_cases he : e = .sync .taskDone
    · subst he
      exact .inr rfl
    · exact .inl (LifeStage.goes_alive he)
  · refine ⟨.done, life_next ?_, .inr rfl⟩
    simp [LifeStage.accepts, h.1, h.2]

theorem solitary_of_cleanup {e : Eff} (h : CleanupEff e) : e.Solitary := by
  cases e with
  | sync e => exact ⟨rfl, rfl⟩
  | await e =>
    cases e <;> first | exact ⟨rfl, rfl⟩ | cases h.1

theorem solitary_of_handler {e : Eff} (h : HandlerEff e) : e.Solitary := by
  cases e with
  | sync e => exact ⟨rfl, rfl⟩
  | await e =>
    cases e <;> first | exact ⟨rfl, rfl⟩ | cases h

theorem solitary_of_reconcile {e : Eff} (h : ReconcileEff e) : e.Solitary := by
  cases e with
  | sync e => exact ⟨rfl, rfl⟩
  | await e =>
    cases e <;> first | exact ⟨rfl, rfl⟩ | cases h

/-- The program of a task, from a stage in which it runs. -/
theorem life_runs {α : Type} {p : Coro Eff Eff.Ret α} (hp : p.Performs Eff.Solitary)
    {g : LifeStage} (hg : g.Runs) :
    lifeMonitor.Follows Eff.awaits g p fun _ g' => g'.Runs :=
  Monitor.Follows.of_keeps (hp.mono fun _ => life_keeps) (fun _ _ => rfl) hg

/-- A task ends with its last effect. -/
theorem life_ends {g : LifeStage} (hg : g.Runs) {Q : Unit → LifeStage → Prop} (hQ : Q () .done) :
    lifeMonitor.Follows Eff.awaits g endTask Q := by
  refine Follows.perform_sync fun r => ?_
  rcases hg with rfl | rfl <;> exact ⟨.done, rfl, hQ⟩

/-- A round of a loop. -/
theorem life_round {σ : Type} {p : Py σ} (hp : p.run.Performs Eff.Solitary) {g : LifeStage}
    (hg : g.Runs) :
    lifeMonitor.Follows Eff.awaits g (do nextRound endTask (← p.run))
      (lifeMonitor.RoundEnd fun _ => LifeStage.Runs) := by
  refine Monitor.Follows.bind (life_runs hp hg) fun res g' hg' => ?_
  cases res with
  | ok s => exact ⟨rfl, hg'⟩
  | error x =>
    refine Monitor.Follows.bind (life_ends hg' (Q := fun _ g => g = .done) rfl) fun _ g hg =>
      ⟨rfl, ?_⟩
    rw [hg]
    exact LifeStage.noConfusion

theorem life_handler {args : HandlerArgs} :
    lifeMonitor.Conforms Eff.awaits .alive (handlerFiber args) := by
  have hprog : PerformsE Eff.Solitary (do Py.await .start; handleEvent args : Py Unit) :=
    (performsE_started trivial (handler_handleEvent args)).mono fun _ => solitary_of_handler
  refine Monitor.Conforms.once (Monitor.Follows.bind (life_runs hprog (.inl rfl)) fun _ g hg => ?_)
  exact life_ends hg ⟨rfl, by simp [lifeMonitor]⟩

theorem life_cleanup : lifeMonitor.Conforms Eff.awaits .alive (cleanupFiber config) := by
  have hround : PerformsE CleanupEff (cleanupRound config) :=
    (still_cleanupRound _).mono fun _ => CleanupEff.of_still
  refine ⟨fun _ => LifeStage.Runs, ?_, fun s g hg => ?_⟩
  · have hstart := performsE_started (P := CleanupEff) trivial hround
    exact life_round (hstart.mono fun _ => solitary_of_cleanup) (.inl rfl)
  · exact life_round (hround.mono fun _ => solitary_of_cleanup) hg

theorem life_reconcile : lifeMonitor.Conforms Eff.awaits .alive (reconcileFiber config) := by
  have hround : PerformsE Eff.Solitary (reconcileRound config) :=
    reconcile_reconcileRound.mono fun _ => solitary_of_reconcile
  have hstart : PerformsE ReconcileEff (do Py.await .start; sync .registryEnabled : Py Bool) :=
    performsE_started trivial (performsE_sync rfl)
  refine ⟨fun _ => LifeStage.Runs, ?_, fun s g hg => life_round hround hg⟩
  refine Monitor.Follows.bind
    (life_runs (hstart.mono fun _ => solitary_of_reconcile) (.inl rfl)) fun res g hg => ?_
  split
  · exact life_round hround hg
  · exact Monitor.Follows.bind (life_ends hg (Q := fun _ g => g = .done) rfl) fun _ g hg =>
      ⟨rfl, by rw [hg]; exact LifeStage.noConfusion⟩

/-! ## The main task -/

/-- The effect is one of `main` when both loops are created. -/
def Eff.Serves (e : Eff) : Prop :=
  e.locks = false ∧ ∀ u ∈ e.joins?, u = .cleanup ∨ u = .reconcile

theorem serves_of_loop {e : Eff} (h : LoopEff config e) : e.Serves := by
  cases e with
  | sync e =>
    refine ⟨?_, by simp [Eff.joins?]⟩
    cases e <;> first | rfl | cases h.1
  | await e =>
    cases e with
    | join u => cases h.1
    | _ => first | exact ⟨rfl, by simp [Eff.joins?]⟩ | cases h.1

theorem life_serves {e : Eff} (h : e.Serves) : lifeMonitor.Ignores .serving e := by
  intro r
  have haccepts : LifeStage.serving.accepts e = true := by
    simp only [LifeStage.accepts, h.1, Bool.not_false, Bool.true_and]
    cases hjoin : e.joins? with
    | none => rfl
    | some u => simpa using h.2 u (by rw [hjoin]; rfl)
  rw [life_next haccepts]
  rfl

theorem life_serving {α : Type} {p : Coro Eff Eff.Ret α} (hp : p.Performs Eff.Serves) :
    lifeMonitor.Follows Eff.awaits .serving p fun _ g' => g' = .serving :=
  Monitor.Follows.of_performs (hp.mono fun _ => life_serves) rfl

/-- The shutdown joins the two loops. -/
theorem serves_shutdown : PerformsE Eff.Serves shutdown := by
  have hsync : ∀ {e : SyncEff}, Eff.locks (.sync e) = false → Eff.Serves (.sync e) :=
    fun h => ⟨h, by simp [Eff.joins?]⟩
  have hawait : ∀ {e : AwaitEff}, Eff.locks (.await e) = false → Eff.joins? (.await e) = none →
      Eff.Serves (.await e) := fun h hjoin => ⟨h, by simp [hjoin]⟩
  -- A loop is cancelled, and then waited for.
  have hjoin : ∀ u, u = .cleanup ∨ u = .reconcile → PerformsE Eff.Serves (cancelAndJoin u) := by
    intro u hu
    refine performsE_bind (performsE_sync (hsync rfl)) fun _ => ?_
    refine performsE_bind (performsE_attempt (performsE_await ⟨rfl, ?_⟩)) fun _ => performsE_pure _
    rintro v ⟨⟩
    exact hu
  have hterminate : ∀ items, PerformsE Eff.Serves (terminateAll items) := by
    intro items
    induction items with
    | nil => exact performsE_pure _
    | cons item items ih =>
      refine performsE_bind ?_ fun _ => ih
      refine performsE_tryCatch (performsE_mk ⟨hsync rfl, fun _ => trivial⟩) fun x => ?_
      split
      · exact performsE_pure _
      · exact performsE_throw _
  refine performsE_bind (performsE_sync (hsync rfl)) fun _ => ?_
  refine performsE_bind (hjoin _ (.inl rfl)) fun _ => ?_
  refine performsE_bind (hjoin _ (.inr rfl)) fun _ => ?_
  refine performsE_bind ?_ fun _ => ?_
  · refine performsE_bind (performsE_sync (hsync rfl)) fun enabled => ?_
    split
    · exact performsE_finallyDo (performsE_tryExcept (performsE_await (hawait rfl rfl)) fun _ =>
        performsE_pure _) ⟨hsync rfl, fun _ => trivial⟩
    · exact performsE_pure _
  refine performsE_bind (performsE_sync (hsync rfl)) fun items => ?_
  refine performsE_bind (hterminate _) fun _ => performsE_bind ?_ fun _ => ?_
  · refine performsE_bind (performsE_sync (hsync rfl)) fun outstanding => ?_
    split
    · refine performsE_bind (performsE_await (hawait rfl rfl)) fun inTime => ?_
      split
      · exact performsE_pure _
      · exact performsE_await (hawait rfl rfl)
    · exact performsE_pure _
  exact performsE_bind (performsE_sync (hsync rfl)) fun _ => performsE_await (hawait rfl rfl)

/-- The startup creates both loops, or it fails. -/
theorem life_startup : lifeMonitor.Follows Eff.awaits .booting
    (do Py.await .start; startup config : Py Unit).run fun res g =>
      (∃ x, res = .error x) ∧ g = .booting ∨ res = .ok () ∧ g = .serving := by
  have hquiet : ∀ {e}, LifeStage.booting.accepts e = true → e ≠ .sync (.createTask .cleanup) →
      lifeMonitor.Ignores .booting e := by
    intro e haccepts hne r
    rw [life_next haccepts, LifeStage.goes.eq_def]
    split <;> first | rfl | contradiction
  have hnotify : PerformsE (lifeMonitor.Ignores .booting) (notifyStartup config) := by
    rw [notifyStartup]
    split
    · exact performsE_pure _
    · refine performsE_tryExcept ((still_notice _ _ _).mono fun e he => ?_) fun _ =>
        performsE_pure _
      refine hquiet ?_ (by rintro rfl; cases he.1)
      cases e with
      | sync e => cases e <;> first | rfl | cases he.1
      | await e => cases e <;> first | rfl | cases he.1
  refine Follows.ignored_bind (performsE_await (hquiet rfl (by simp))) rfl (fun _ => ?_)
    fun x => .inl ⟨⟨x, rfl⟩, rfl⟩
  refine Follows.ignored_bind hnotify rfl (fun _ => ?_) fun x => .inl ⟨⟨x, rfl⟩, rfl⟩
  refine Follows.ignored_bind (performsE_await (hquiet rfl (by simp))) rfl (fun _ => ?_)
    fun x => .inl ⟨⟨x, rfl⟩, rfl⟩
  refine Follows.sync_bind fun _ => ⟨.halfway, rfl, ?_⟩
  exact Follows.sync fun _ => ⟨.serving, rfl, .inr ⟨rfl, rfl⟩⟩

theorem life_main : lifeMonitor.Conforms Eff.awaits .booting (mainFiber config) := by
  have hend : endMain.Performs Eff.Serves :=
    Performs.bind serves_shutdown fun _ => ⟨⟨rfl, by simp [Eff.joins?]⟩, fun _ => trivial⟩
  have hround : ∀ {σ : Type} {p : Py σ}, PerformsE (LoopEff config) p →
      lifeMonitor.Follows Eff.awaits .serving (do nextRound endMain (← p.run))
        (lifeMonitor.RoundEnd fun _ g => g = .serving) := by
    intro σ p hp
    refine Monitor.Follows.bind (life_serving (hp.mono fun _ => serves_of_loop)) fun res g hg => ?_
    subst hg
    cases res with
    | ok s => exact ⟨rfl, rfl⟩
    | error x =>
      refine Monitor.Follows.bind (life_serving hend) fun _ g hg => ⟨rfl, ?_⟩
      rw [hg]
      exact LifeStage.noConfusion
  refine ⟨fun _ g => g = .serving, ?_, fun s g hg => hg ▸ hround loop_pollRound⟩
  refine Monitor.Follows.bind life_startup fun res g hg => ?_
  rcases hg with ⟨⟨x, rfl⟩, rfl⟩ | ⟨rfl, rfl⟩
  · refine Monitor.Follows.bind (Follows.perform_sync (e := .taskDone)
      (Q := fun _ g => g = .booting) fun _ => ⟨.booting, rfl, rfl⟩) fun _ g hg => ⟨rfl, ?_⟩
    rw [hg]
    exact LifeStage.noConfusion
  · exact hround loop_pollStart

/-- The stage in which a requested task starts. -/
def LifeStage.first : Request → LifeStage
  | .main => .booting
  | _ => .alive

/-- Every task of the dispatcher lives like this. -/
def lifeCoverage (config : MatrixDispatcher.Config) : Coverage config lifeMonitor where
  enter := LifeStage.first
  ok _ := True
  ok_main := trivial
  create _ := trivial
  atomic _ := rfl
  conforms {request} _ := by
    cases request with
    | main => exact life_main
    | cleanup => exact life_cleanup
    | reconcile => exact life_reconcile
    | handle args => exact life_handler

end MatrixDispatcher
