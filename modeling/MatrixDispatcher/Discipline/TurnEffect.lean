import MatrixDispatcher.Discipline.TurnWalk
import MatrixDispatcher.Discipline.Supervise

/-!
# What the acts of turns do to the world

`Runtime.World` says what every effect does. Here it is restated for the acts of turns, with the
components that turns are about: an invariant of turns then needs no look at the effects.

* `turnCoverage` — every task keeps the discipline of turns.
* `exec_locks`, `exec_active`, … — the components after an act, as functions of the act.
* `exec_guard` — what an act says about the world it takes place in.
-/

namespace MatrixDispatcher

open Py Coro

variable {config : MatrixDispatcher.Config}

/-- Every task of the dispatcher keeps the discipline of turns. -/
def turnCoverage (config : MatrixDispatcher.Config) : Coverage config (turnMonitor config) where
  enter
    | .main => .system
    | .cleanup | .reconcile | .handle _ => .idle
  ok
    | .handle args => config.agentOf args.roomId = some args.agentName
    | _ => True
  ok_main := trivial
  create := by
    intro g request r g' hnext
    cases request with
    | handle args =>
      rcases TurnStage.step_cases hnext with _ | _ | _ | _ | _ | _ | ⟨_, hagent⟩
      exact hagent
    | _ => trivial
  atomic request := by cases request <;> rfl
  conforms := by
    intro request hok
    cases request with
    | main => exact main_conforms
    | cleanup => exact cleanup_conforms
    | reconcile => exact reconcile_conforms
    | handle args => exact handler_conforms hok

/-- The effect that an act stems from, for the acts that runs are restricted by. -/
def TurnAct.Origin : TurnAct → Eff → Prop
  | closing, e => e = .sync (.mark .closing)
  | clock _, e => e = .sync .utcnow
  | call turn, e => e = .sync (.mark (.runnerCall turn))
  | _, _ => True

theorem TurnAct.origin_of (e : Eff) (r : e.Ret) : (TurnAct.of e r).Origin e := by
  cases e with
  | sync e =>
    cases e with
    | execute s => cases s <;> first | trivial | (cases r <;> trivial)
    | createTask request => cases request <;> trivial
    | kill _ => cases r <;> trivial
    | mark m => cases m <;> first | rfl | trivial
    | utcnow => rfl
    | _ => trivial
  | await e =>
    cases e with
    -- Whether the run is left depends on the exception.
    | communicate _ _ | wait _ =>
      rcases r with x | _
      · cases x <;> trivial
      · trivial
    | lockWait _ | fetchPending _ _ | exec _ _ _ _ | pause => cases r <;> trivial
    | _ => trivial

/-! ## Observations of turns -/

/-- The rows that were recorded, latest first. -/
def recordedRows (trace : List Obs) : List PendingRow :=
  trace.filterMap fun
    | .recorded row => some row
    | _ => none

/-- The children whose `_run_claude` was left, latest first. -/
def leftRuns (trace : List Obs) : List Pid :=
  trace.filterMap fun
    | .marked _ (.leftRun _ pid _) => some pid
    | _ => none

theorem mem_recordedRows {trace : List Obs} {row : PendingRow} :
    row ∈ recordedRows trace ↔ Obs.recorded row ∈ trace := by
  rw [recordedRows, List.mem_filterMap]
  constructor
  · rintro ⟨o, ho, heq⟩
    cases o <;> cases heq
    exact ho
  · exact fun h => ⟨_, h, rfl⟩

theorem mem_leftRuns {trace : List Obs} {pid : Pid} :
    pid ∈ leftRuns trace ↔ ∃ t room outcome, Obs.marked t (.leftRun room pid outcome) ∈ trace := by
  rw [leftRuns, List.mem_filterMap]
  constructor
  · rintro ⟨o, ho, heq⟩
    cases o with
    | marked t m =>
      cases m <;> cases heq
      exact ⟨t, _, _, ho⟩
    | _ => cases heq
  · rintro ⟨t, room, outcome, h⟩
    exact ⟨_, h, rfl⟩

/-! ## The components after an act -/

namespace TurnAct

/-- The locks after an act of task `t`. -/
def locks (t : Tid) (ls : RoomId → Lock) : TurnAct → RoomId → Lock
  | tryLock room true => Function.update ls room ⟨some t, []⟩
  | tryLock room false => Function.update ls room ⟨(ls room).owner, (ls room).waiters ++ [t]⟩
  | waitLock room true => Function.update ls room ⟨some t, (ls room).waiters.tail⟩
  | waitLock room false => Function.update ls room ⟨(ls room).owner, (ls room).waiters.erase t⟩
  | release room => Function.update ls room ⟨none, (ls room).waiters⟩
  | _ => ls

/-- The registered children after an act. -/
def active (m : AList fun _ : RoomId => Pid) : TurnAct → AList fun _ : RoomId => Pid
  | register room pid => m.insert room pid
  | pop room => m.erase room
  | _ => m

/-- The clock after an act. -/
def time (now : Time) : TurnAct → Time
  | clock t => t
  | _ => now

/-- The children after an act of task `t`. -/
def Procs (t : Tid) (ps ps' : List Proc) : TurnAct → Prop
  | launch agent turn _ => ∃ argv cwd, ps' = ps ++ [⟨t, turn, argv, cwd, agent, .alive⟩]
  | _ => ps' = ps

/-- What an act of task `t` says about the world it takes place in. -/
def Guard (t : Tid) (w : World) : TurnAct → Prop
  | tryLock room true => (w.locks room).owner = none ∧ (w.locks room).waiters = []
  | waitLock room true => (w.locks room).owner = none ∧ (w.locks room).waiters.head? = some t
  | interrupt | lost _ => t ∈ w.cancelled
  | launch _ _ pid => pid = w.procs.length
  | gone pid => (w.exitOf pid).isSome
  | query agent since found =>
    found = (latestPending w.approvals.rows agent since).map (·.approvalId)
  | look room found => found = w.active.lookup room
  | _ => True

/-- The act changes locks, children or the clock. -/
def moves : TurnAct → Bool
  | tryLock _ _ | waitLock _ _ | release _ | clock _ | launch _ _ _ | register _ _ | pop _ => true
  | _ => false

/-- The row that an act records. -/
def recorded : TurnAct → Option PendingRow
  | record row => some row
  | _ => none

/-- The child that an act leaves. -/
def left : TurnAct → Option Pid
  | leave _ pid _ => some pid
  | _ => none

end TurnAct

/-- What an act of task `t` does to the world. -/
structure TurnChange (t : Tid) (act : TurnAct) (w w' : World) : Prop where
  guard : act.Guard t w
  locks : w'.locks = act.locks t w.locks
  active : w'.active = act.active w.active
  procs : act.Procs t w.procs w'.procs
  clock : w'.clock = act.time w.clock

/-- An act that changes neither locks, children nor the clock. -/
theorem TurnChange.still {t : Tid} {act : TurnAct} {w w' : World} (hact : act.moves = false)
    (hlocks : Component.locks.Same w w') (hactive : Component.active.Same w w')
    (hprocs : Component.procs.Same w w') (hclock : Component.clock.Same w w')
    (hguard : act.Guard t w) : TurnChange t act w w' := by
  cases act <;> first | exact ⟨hguard, hlocks, hactive, hprocs, hclock⟩ | cases hact

/-- So is an act of an effect that writes none of these. -/
theorem TurnChange.of_frame {t : Tid} {act : TurnAct} {w w' : World} {e : Eff}
    (hframe : ∀ c, c ∉ e.writes → c.Same w w') (hact : act.moves = false)
    (hwrites : ∀ c ∈ [Component.locks, .active, .procs, .clock], c ∉ e.writes)
    (hguard : act.Guard t w) : TurnChange t act w w' :=
  .still hact (hframe .locks (hwrites .locks (by decide)))
    (hframe .active (hwrites .active (by decide))) (hframe .procs (hwrites .procs (by decide)))
    (hframe .clock (hwrites .clock (by decide))) hguard

section

variable {t : Tid} {a : Answer} {w w' : World}

/-- An operation that cannot fail in this way by itself does so only when the task is cancelled. -/
theorem cancelled_of_error {e : AwaitEff} {x : Exn}
    (h : execQuietly t a (.await e) w = some (.error x, w'))
    (hop : ∀ v, execOperation t a w e ≠ some (.error x, v)) : t ∈ w.cancelled := by
  rcases execAwait_eq h with ⟨hmem, -⟩ | ⟨-, hexec⟩
  · exact hmem
  · exact absurd hexec (hop _)

/-- What a synchronous act does. -/
theorem execSync_turn {e : SyncEff} {r : e.Ret} (h : execSync t a w e = some (r, w')) :
    TurnChange t (TurnAct.ofSync e r) w w' := by
  have hframe : ∀ c, c ∉ (Eff.sync e).writes → c.Same w w' := (frame_sync h).2
  cases e with
  -- The lock is taken if it is free, and the request goes to the end of the line if not.
  | lockTry room =>
    rw [execSync] at h
    split at h
    · next hfree =>
      cases h
      exact ⟨hfree, rfl, rfl, rfl, rfl⟩
    · cases h
      exact ⟨trivial, rfl, rfl, rfl, rfl⟩
  | lockRelease _ | activeSet _ _ | activePop _ =>
    cases h
    exact ⟨trivial, rfl, rfl, rfl, rfl⟩
  | utcnow =>
    cases a <;> cases h
    exact ⟨trivial, rfl, rfl, rfl, rfl⟩
  | activeGet room =>
    cases h
    exact ⟨rfl, rfl, rfl, rfl, rfl⟩
  -- A kill that raises met a child that had exited.
  | kill pid =>
    obtain ⟨v, hsignal, heq⟩ := Option.map_eq_some_iff.mp h
    cases heq
    cases r with
    | ok _ => exact ⟨trivial, rfl, rfl, rfl, rfl⟩
    | error x =>
      refine ⟨?_, rfl, rfl, rfl, rfl⟩
      rw [World.signal.eq_def] at hsignal
      split at hsignal
      · cases hsignal
      · split at hsignal
        · assumption
        · cases hsignal
      · cases hsignal
  | execute s =>
    refine .of_frame hframe ?_ (by simp [Eff.writes]) ?_
    · cases s <;> first | rfl | (cases r <;> rfl)
    · cases s <;> first | trivial | (cases r <;> trivial)
  | createTask request =>
    cases request <;> exact .of_frame hframe rfl (by simp [Eff.writes]) trivial
  | mark m =>
    cases m <;> exact .of_frame hframe rfl (by simp [Eff.writes]) trivial
  | _ =>
    exact .of_frame hframe rfl (by simp [Eff.writes]) trivial

/-- What an awaited act does. -/
theorem execAwait_turn {e : AwaitEff} {r : Except Exn e.Val}
    (h : execAwait t a w e = some (r, w')) : TurnChange t (TurnAct.ofAwait e r) w w' := by
  -- A cancelled task sees nothing but the cancellation; whatever else happened is framed by the
  -- effect.
  have hframe : ∀ c, c ∉ (Eff.await e).writes → c.Same w w' := by
    intro c hc
    rcases execAwait_eq h with ⟨-, -, rfl⟩ | ⟨-, hop⟩
    · exact frame_deliverCancel.2 c hc
    · exact (frame_operation hop).2 c fun hmem => hc (List.mem_cons_of_mem _ hmem)
  cases e with
  | lockWait room =>
    rcases execAwait_eq h with ⟨-, rfl, rfl⟩ | ⟨-, hop⟩
    · exact ⟨trivial, rfl, rfl, rfl, rfl⟩
    · rw [execOperation] at hop
      split at hop
      · next hfree =>
        cases hop
        exact ⟨hfree, rfl, rfl, rfl, rfl⟩
      · cases hop
  -- A child is started, or nothing happened.
  | exec argv cwd agent turn =>
    rcases execAwait_eq h with ⟨-, rfl, rfl⟩ | ⟨-, hop⟩
    · exact ⟨trivial, rfl, rfl, rfl, rfl⟩
    · rw [execOperation.eq_def] at hop
      dsimp only at hop
      split at hop
      · cases hop
        exact ⟨rfl, rfl, rfl, ⟨_, _, rfl⟩, rfl⟩
      · obtain ⟨rfl, x, rfl, -⟩ := failure_eq hop
        exact ⟨trivial, rfl, rfl, rfl, rfl⟩
  | pause =>
    cases r with
    | ok _ =>
      exact .of_frame hframe rfl (by simp [Eff.writes, AwaitEff.writes]) trivial
    | error x =>
      refine .of_frame hframe rfl (by simp [Eff.writes, AwaitEff.writes])
        (cancelled_of_error h fun v hv => ?_)
      cases a <;> cases hv
  -- The child has exited when its output is there; otherwise only a timeout leaves it running.
  | communicate pid timeout =>
    have hquiet := fun hact : (TurnAct.ofAwait (.communicate pid timeout) r).moves = false =>
      TurnChange.of_frame (t := t) hframe hact (by simp [Eff.writes, AwaitEff.writes])
    cases r with
    | ok outputs =>
      refine hquiet rfl ?_
      rcases execAwait_eq h with ⟨-, hr, -⟩ | ⟨-, hop⟩
      · cases hr
      rw [execOperation.eq_def] at hop
      dsimp only at hop
      split at hop
      · obtain ⟨out, hexit, -⟩ := Option.map_eq_some_iff.mp hop
        exact Option.isSome_iff_exists.mpr ⟨out, hexit⟩
      · cases hop
      · cases hop
    | error x =>
      by_cases hx : x = .timeoutError
      · subst hx
        exact hquiet rfl trivial
      · have hmem : t ∈ w.cancelled := by
          refine cancelled_of_error h fun v hop => ?_
          rw [execOperation.eq_def] at hop
          dsimp only at hop
          split at hop
          · obtain ⟨out, -, heq⟩ := Option.map_eq_some_iff.mp hop
            cases heq
          · cases hop
            exact hx rfl
          · cases hop
        cases x <;> first | exact hquiet rfl hmem | exact absurd rfl hx
  -- It ends when the child has exited, unless the task is cancelled.
  | wait pid =>
    have hquiet := fun hact : (TurnAct.ofAwait (.wait pid) r).moves = false =>
      TurnChange.of_frame (t := t) hframe hact (by simp [Eff.writes, AwaitEff.writes])
    rcases execAwait_eq h with ⟨hmem, rfl, -⟩ | ⟨-, hop⟩
    · exact hquiet rfl hmem
    rw [execOperation.eq_def] at hop
    dsimp only at hop
    split at hop
    · split at hop
      · next hexit =>
        cases hop
        exact hquiet rfl hexit
      · cases hop
    · cases hop
  -- The answer is read off the approvals of the registry.
  | fetchPending agent since =>
    have hquiet := fun hact : (TurnAct.ofAwait (.fetchPending agent since) r).moves = false =>
      TurnChange.of_frame (t := t) hframe hact (by simp [Eff.writes, AwaitEff.writes])
    cases r with
    | ok found =>
      refine hquiet rfl ?_
      rcases execAwait_eq h with ⟨-, hr, -⟩ | ⟨-, hop⟩
      · cases hr
      rw [execOperation.eq_def] at hop
      dsimp only at hop
      split at hop
      · cases hop
        simp [TurnAct.ofAwait, TurnAct.Guard, Function.comp_def]
      · obtain ⟨-, x, hx, -⟩ := failure_eq hop
        cases hx
    | error _ => exact hquiet rfl trivial
  | _ =>
    exact .of_frame hframe rfl (by simp [Eff.writes, AwaitEff.writes]) trivial

/-- What an act does. -/
theorem exec_turn {e : Eff} {r : e.Ret} (h : exec t a e w = some (r, w')) :
    TurnChange t (TurnAct.of e r) w w' := by
  obtain ⟨⟨r', w''⟩, hquiet, heq⟩ := Option.map_eq_some_iff.mp h
  cases heq
  suffices hturn : TurnChange t (TurnAct.of e r) w w'' from
    ⟨hturn.guard, hturn.locks, hturn.active, hturn.procs, hturn.clock⟩
  cases e with
  | sync e => exact execSync_turn hquiet
  | await e => exact execAwait_turn hquiet

/-! ## The trace, the cancelled tasks and the approvals -/

/-- An observation is a recorded row or a run that was left only where the act says so. -/
theorem obsOf_turn (e : Eff) (r : e.Ret) :
    recordedRows (obsOf t e r).toList = (TurnAct.of e r).recorded.toList ∧
      leftRuns (obsOf t e r).toList = (TurnAct.of e r).left.toList := by
  cases e with
  | sync e =>
    cases e with
    | execute s => cases s <;> first | exact ⟨rfl, rfl⟩ | (cases r <;> exact ⟨rfl, rfl⟩)
    | createTask request => cases request <;> exact ⟨rfl, rfl⟩
    | mark m => cases m <;> exact ⟨rfl, rfl⟩
    | kill _ => cases r <;> exact ⟨rfl, rfl⟩
    | _ => exact ⟨rfl, rfl⟩
  | await e =>
    cases e with
    | communicate _ _ | wait _ =>
      rcases r with x | _
      · cases x <;> exact ⟨rfl, rfl⟩
      · exact ⟨rfl, rfl⟩
    | sync _ | roomSend _ _ _ | fetchStates _ | lockWait _ | fetchPending _ _ | exec _ _ _ _
    | pause => cases r <;> exact ⟨rfl, rfl⟩
    | _ => exact ⟨rfl, rfl⟩

theorem exec_recorded {e : Eff} {r : e.Ret} (h : exec t a e w = some (r, w')) :
    recordedRows w'.trace = (TurnAct.of e r).recorded.toList ++ recordedRows w.trace := by
  rw [exec_trace h, ← (obsOf_turn (t := t) e r).1]
  exact List.filterMap_append

theorem exec_left {e : Eff} {r : e.Ret} (h : exec t a e w = some (r, w')) :
    leftRuns w'.trace = (TurnAct.of e r).left.toList ++ leftRuns w.trace := by
  rw [exec_trace h, ← (obsOf_turn (t := t) e r).2]
  exact List.filterMap_append

/-- Only acts that cancel add to the cancelled tasks. -/
theorem exec_cancelled {e : Eff} {r : e.Ret} (h : exec t a e w = some (r, w'))
    (hact : TurnAct.of e r ≠ .cancel) : w'.cancelled ⊆ w.cancelled := by
  obtain ⟨⟨r', w''⟩, hquiet, heq⟩ := Option.map_eq_some_iff.mp h
  cases heq
  change w''.cancelled ⊆ w.cancelled
  cases e with
  | sync e =>
    by_cases hc : Component.cancelled ∈ (Eff.sync e).writes
    -- The effects that cancel are excluded by `hact`.
    · cases e <;> first | exact absurd rfl hact | simp [Eff.writes] at hc
    · have hsame : w''.cancelled = w.cancelled := (frame_sync hquiet).2 .cancelled hc
      exact hsame ▸ List.Subset.refl _
  | await e =>
    rcases execAwait_eq hquiet with ⟨-, -, rfl⟩ | ⟨-, hop⟩
    -- A delivered cancellation removes the task from the cancelled ones.
    · have hfilter : (deliverCancel t w e).cancelled = w.cancelled.filter (· ≠ t) := by
        cases e <;> rfl
      rw [hfilter]
      exact List.filter_subset_self _
    · by_cases hc : Component.cancelled ∈ e.writes
      · cases e <;> first | exact absurd rfl hact | simp [AwaitEff.writes] at hc
      · have hsame : w''.cancelled = w.cancelled := (frame_operation hop).2 .cancelled hc
        exact hsame ▸ List.Subset.refl _

/-- What of an approval the dispatcher never changes. -/
def Approval.stamp (a : Approval) : Approval := { a with sessionId := none }

/-- No act changes an approval, except for its session. -/
theorem exec_stamps {e : Eff} {r : e.Ret} (h : exec t a e w = some (r, w')) :
    w'.approvals.rows.map Approval.stamp = w.approvals.rows.map Approval.stamp := by
  by_cases hc : Component.approvals ∈ e.writes
  · cases e with
    | sync e => cases e <;> simp [Eff.writes] at hc
    | await e =>
      cases e with
      -- The only effect that writes approvals: it sets the session, which is no part of the stamp.
      | linkSession approval session =>
        obtain ⟨⟨r', w''⟩, hquiet, heq⟩ := Option.map_eq_some_iff.mp h
        cases heq
        change w''.approvals.rows.map _ = _
        rcases execAwait_eq hquiet with ⟨-, -, rfl⟩ | ⟨-, hop⟩
        · rfl
        rw [execOperation.eq_def] at hop
        dsimp only at hop
        split at hop
        · cases hop
          refine Table.map_update ?_ ?_ <;> exact fun _ => rfl
        · rw [(failure_eq hop).1]
      | _ => simp [Eff.writes, AwaitEff.writes] at hc
  · have hsame : w'.approvals = w.approvals := frame h hc
    rw [hsame]

theorem stateOf_eq (w : World) (id : ApprovalId) : w.stateOf id =
    ((w.approvals.rows.map Approval.stamp).find? fun a => decide (a.approvalId = id)).map
      (·.state) := by
  rw [World.stateOf, Table.find?, List.find?_map, Option.map_map]
  rfl

/-- No act changes the state of an approval. -/
theorem exec_stateOf {e : Eff} {r : e.Ret} (h : exec t a e w = some (r, w')) (id : ApprovalId) :
    w'.stateOf id = w.stateOf id := by
  rw [stateOf_eq, stateOf_eq, exec_stamps h]

end

end MatrixDispatcher
