import MatrixDispatcher.Discipline.Footprint
import MatrixDispatcher.Discipline.Rules
import MatrixDispatcher.Discipline.Supervise

/-!
# The discipline of the shutdown

`main` closes the database only after it has read the registered children and signalled them all.

* `SweepAct` — what an effect and its response mean for the shutdown.
* `SweepStage.step` — the automaton; once the children are read, the stage holds those that are
  still to be signalled.
* `sweepMonitor`, `sweepCoverage` — every task keeps this discipline.
-/

namespace MatrixDispatcher

open Py Coro

variable {config : MatrixDispatcher.Config} {α : Type}

/-- What an effect and its response mean for the shutdown. -/
inductive SweepAct where
  /-- The registered children are read. -/
  | read (items : List (RoomId × Pid))
  | signal (pid : Pid)
  | close
  | other

/-- What an effect means. -/
def SweepAct.of : (e : Eff) → e.Ret → SweepAct
  | .sync .activeItems, items => .read items
  | .sync (.sendSignal _ pid), _ => .signal pid
  | .sync .closeDb, _ => .close
  | _, _ => .other

/-- How far the shutdown has come. -/
inductive SweepStage where
  /-- A task other than `main`, or one that does not run. -/
  | apart
  /-- `main` before it reads the registered children. -/
  | early
  /-- These children are still to be signalled. -/
  | sweeping (left : List (RoomId × Pid))

/-- The automaton of the shutdown. -/
def SweepStage.step : SweepStage → SweepAct → Option SweepStage
  | g, .other => some g
  | apart, .signal _ => some apart
  | early, .read items => some (sweeping items)
  | sweeping ((_, pid) :: left), .signal pid' => if pid' = pid then some (sweeping left) else none
  | sweeping [], .close => some (sweeping [])
  | _, _ => none

/-- The transitions of `SweepStage.step`. -/
inductive SweepStep : SweepStage → SweepAct → SweepStage → Prop
  | other (g) : SweepStep g .other g
  | signal (pid) : SweepStep .apart (.signal pid) .apart
  | read (items) : SweepStep .early (.read items) (.sweeping items)
  | next (room pid left) :
    SweepStep (.sweeping ((room, pid) :: left)) (.signal pid) (.sweeping left)
  | close : SweepStep (.sweeping []) .close (.sweeping [])

/-- Every transition of the automaton is one of those. -/
theorem SweepStage.step_cases {g g' : SweepStage} {act : SweepAct} (h : g.step act = some g') :
    SweepStep g act g' := by
  rw [step.eq_def] at h
  split at h
  case h_4 =>
    split at h
    · next heq =>
      cases h
      exact heq ▸ .next _ _ _
    · cases h
  all_goals
    cases h
    try constructor

/-- The monitor of the shutdown. -/
def sweepMonitor : Monitor Eff Eff.Ret SweepStage where
  next g e r := g.step (SweepAct.of e r)
  atomic _ := false
  final _ := True
  idle := .apart
  atomic_idle := rfl

/-! ## Every task follows the discipline -/

/-- From stage `g`, the coroutine keeps the discipline and ends as `Q` says. -/
abbrev FollowsSweep (g : SweepStage) (p : Py α) (Q : Except Exn α → SweepStage → Prop) : Prop :=
  sweepMonitor.Follows Eff.awaits g p.run Q

/-- An effect that means nothing for the shutdown leaves the stage. -/
theorem sweep_other {g : SweepStage} {e : Eff} {r : e.Ret} (h : SweepAct.of e r = .other) :
    sweepMonitor.next g e r = some g := by
  change g.step (SweepAct.of e r) = some g
  rw [h]
  cases g <;> rfl

theorem sweepMonitor_ignores_handler {e : Eff} (he : HandlerEff e) :
    sweepMonitor.Ignores .apart e := by
  intro r
  cases e with
  | sync e => cases e <;> first | exact sweep_other rfl | rfl | cases he
  | await e => exact sweep_other rfl

theorem sweepMonitor_ignores_reconcile {e : Eff} (he : ReconcileEff e) :
    sweepMonitor.Ignores .apart e := by
  intro r
  cases e with
  | sync e => cases e <;> first | exact sweep_other rfl | rfl | cases he
  | await e => exact sweep_other rfl

theorem sweepMonitor_ignores_loop {e : Eff} (he : LoopEff config e) :
    sweepMonitor.Ignores .early e := by
  intro r
  cases e with
  | sync e => cases e <;> first | exact sweep_other rfl | cases he.1
  | await e => exact sweep_other rfl

/-- Waiting for other tasks and closing the registry do not concern the sweep. -/
theorem sweep_cancelAndJoin {g : SweepStage} (t : Tid) :
    PerformsE (sweepMonitor.Ignores g) (cancelAndJoin t) :=
  performsE_bind (performsE_sync fun _ => sweep_other rfl) fun _ =>
    performsE_bind (performsE_attempt (performsE_await fun _ => sweep_other rfl)) fun _ =>
      performsE_pure _

theorem sweep_registryClose {g : SweepStage} :
    PerformsE (sweepMonitor.Ignores g) Registry.close := by
  refine performsE_bind (performsE_sync fun _ => sweep_other rfl) fun enabled => ?_
  split
  · exact performsE_finallyDo (performsE_tryExcept (performsE_await fun _ => sweep_other rfl)
      fun _ => performsE_pure _) ⟨fun _ => sweep_other rfl, fun _ => trivial⟩
  · exact performsE_pure _

theorem sweep_awaitHandlers {g : SweepStage} :
    PerformsE (sweepMonitor.Ignores g) awaitHandlers := by
  refine performsE_bind (performsE_sync fun _ => sweep_other rfl) fun outstanding => ?_
  split
  · refine performsE_bind (performsE_await fun _ => sweep_other rfl) fun inTime => ?_
    split
    · exact performsE_pure _
    · exact performsE_await fun _ => sweep_other rfl
  · exact performsE_pure _

/-- All the children are signalled, unless an exception other than `ProcessLookupError` ends the
sweep. -/
theorem sweep_terminateAll (items : List (RoomId × Pid)) :
    FollowsSweep (.sweeping items) (terminateAll items) fun res g =>
      ∀ u, res = .ok u → g = .sweeping [] := by
  induction items with
  | nil => exact fun _ _ => rfl
  | cons item items ih =>
    refine Monitor.Follows.bindE (Monitor.Follows.tryCatch (Follows.perform_sync fun r => ?_))
    refine ⟨.sweeping items, if_pos rfl, ?_⟩
    cases r with
    | ok u => exact ih
    | error x =>
      dsimp only
      split
      · exact ih
      · exact fun _ h => by cases h

/-- The database is closed when all the children are signalled. -/
theorem sweep_shutdown : FollowsSweep .early shutdown fun _ _ => True := by
  refine Follows.sync_bind fun _ => ⟨.early, sweep_other rfl, ?_⟩
  refine Follows.ignored_bind (sweep_cancelAndJoin _) rfl (fun _ => ?_) fun _ => trivial
  refine Follows.ignored_bind (sweep_cancelAndJoin _) rfl (fun _ => ?_) fun _ => trivial
  refine Follows.ignored_bind sweep_registryClose rfl (fun _ => ?_) fun _ => trivial
  refine Follows.sync_bind fun items => ⟨.sweeping items, rfl, ?_⟩
  refine Monitor.Follows.bindE ((sweep_terminateAll items).mono fun res g hg => ?_)
  cases res with
  | error x => trivial
  | ok u =>
    obtain rfl := hg u rfl
    refine Follows.ignored_bind sweep_awaitHandlers rfl (fun _ => ?_) fun _ => trivial
    refine Follows.sync_bind fun _ => ⟨.sweeping [], rfl, ?_⟩
    exact Follows.await rfl fun _ => ⟨_, sweep_other rfl, trivial⟩

/-- A round of the poll loop, or its end. -/
theorem sweep_round {p : Py (Option Token)} (hp : PerformsE (LoopEff config) p) :
    sweepMonitor.Follows Eff.awaits .early (do nextRound endMain (← p.run))
      (sweepMonitor.RoundEnd fun _ g => g = .early) := by
  have hloop : FollowsSweep .early p fun _ g => g = .early :=
    Monitor.Follows.of_performs (hp.mono fun _ => sweepMonitor_ignores_loop) rfl
  refine Monitor.Follows.bind hloop fun res g hg => ?_
  subst hg
  cases res with
  | ok _ => exact ⟨rfl, rfl⟩
  | error _ =>
    refine Monitor.Follows.bind (Q := fun _ _ => True)
      (Monitor.Follows.bind sweep_shutdown fun _ g _ =>
        Follows.perform_sync fun _ => ⟨g, sweep_other rfl, trivial⟩) fun _ _ _ => ?_
    exact ⟨rfl, trivial⟩

theorem sweep_main : sweepMonitor.Conforms Eff.awaits .early (mainFiber config) := by
  refine ⟨fun _ g => g = .early, ?_, ?_⟩
  · have hstart : FollowsSweep .early (do Py.await .start; startup config : Py Unit)
        fun _ g => g = .early := Monitor.Follows.of_performs
      ((performsE_started trivial loop_startup).mono fun _ (he : LoopEff config _) =>
        sweepMonitor_ignores_loop he) rfl
    refine Monitor.Follows.bind hstart fun res g hg => ?_
    subst hg
    cases res with
    | error _ => exact ⟨fun _ => rfl, fun _ => ⟨.early, sweep_other rfl, rfl, trivial⟩⟩
    | ok _ => exact @sweep_round config _ loop_pollStart
  · rintro since g rfl
    exact @sweep_round config _ loop_pollRound

/-- The other tasks stay apart. -/
theorem sweep_apart {P : Eff → Prop} {fiber : Fiber Eff Eff.Ret} (h : FiberPerforms P fiber)
    (hignores : ∀ e, P e → sweepMonitor.Ignores .apart e) :
    sweepMonitor.Conforms Eff.awaits .apart fiber :=
  .of_performs rfl trivial (h.prog.mono hignores) fun s => (h.next s).mono hignores

/-- Every task of the dispatcher keeps the discipline of the shutdown. -/
def sweepCoverage (config : MatrixDispatcher.Config) : Coverage config sweepMonitor where
  enter
    | .main => .early
    | _ => .apart
  ok _ := True
  ok_main := trivial
  create _ := trivial
  atomic _ := rfl
  conforms := by
    intro request _
    cases request with
    | main => exact sweep_main
    | cleanup =>
      exact sweep_apart cleanup_performs fun _ he => sweepMonitor_ignores_handler (.of_cleanup he)
    | reconcile => exact sweep_apart reconcile_performs fun _ => sweepMonitor_ignores_reconcile
    | handle args => exact sweep_apart (handler_performs args) fun _ => sweepMonitor_ignores_handler

end MatrixDispatcher
