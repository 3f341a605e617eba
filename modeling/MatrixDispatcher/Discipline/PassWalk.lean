import MatrixDispatcher.Discipline.Passes
import MatrixDispatcher.Discipline.Supervise

/-!
# Every task follows the discipline of passes

The walk through the reconcile loop. A lemma about a loop says what the loop leaves in the stage
for the rows that it has not come to.
-/

namespace MatrixDispatcher

open Py Coro

variable {config : MatrixDispatcher.Config} {α β : Type}

/-- From stage `g`, the coroutine keeps the discipline of passes and ends as `Q` says. -/
abbrev FollowsPass (g : PassStage) (p : Py α) (Q : Except Exn α → PassStage → Prop) : Prop :=
  passMonitor.Follows Eff.awaits g p.run Q

namespace PassStage

theorem step_other (g : PassStage) : g.step .other = some g := by
  cases g <;> rfl

theorem step_record {g : PassStage} (h : g.isAtomic = false) (row : PendingRow) :
    g.step (.record row) = some g := by
  cases g <;> first | rfl | cases h

theorem step_commit {g : PassStage} (h : ∀ rows a approved, g ≠ .deleting rows a approved)
    (done : Bool) : g.step (.commit done) = some g := by
  cases g <;> first | rfl | exact absurd rfl (h _ _ _)

end PassStage

open PassStage

/-- An effect that means nothing for passes leaves the stage. -/
theorem pass_other {g : PassStage} {e : Eff} {r : e.Ret} (h : PassAct.of e r = .other) :
    passMonitor.next g e r = some g := by
  change g.step (PassAct.of e r) = some g
  rw [h, step_other]

/-- Effects of a turn other than the call of the runner do not concern passes. -/
theorem passMonitor_ignores {g : PassStage} {e : Eff} (hg : g.isAtomic = false)
    (he : TurnEff (fun _ => False) e) : passMonitor.Ignores g e := by
  have hcommit : ∀ done, g.step (.commit done) = some g :=
    step_commit fun rows a approved heq => by simp [heq, isAtomic] at hg
  intro r
  change g.step (PassAct.of e r) = some g
  cases e with
  | sync e =>
    cases e with
    | execute s =>
      cases s with
      | insertPendingApproval row =>
        cases r <;> first | exact step_other g | exact step_record hg row
      | _ => first | exact step_other g | cases he
    | commit => cases r <;> exact hcommit _
    | mark m => cases m <;> first | exact step_other g | cases he
    | _ => first | exact step_other g | cases he
  | await e => cases e <;> first | exact step_other g | cases he

section Rules

variable {g : PassStage} {Q : Except Exn β → PassStage → Prop}

/-- A program without effects on passes, then `f`. -/
theorem pass_quiet_bind {p : Py α} {f : α → Py β} (hp : PerformsE (TurnEff fun _ => False) p)
    (hg : g.isAtomic = false) (hok : ∀ a, FollowsPass g (f a) Q) (herror : ∀ x, Q (.error x) g) :
    FollowsPass g (p >>= f) Q :=
  Follows.ignored_bind (hp.mono fun _ => passMonitor_ignores hg) hg hok herror

/-- A program without effects on passes. -/
theorem pass_quiet {p : Py β} (hp : PerformsE (TurnEff fun _ => False) p)
    (hg : g.isAtomic = false) (hQ : ∀ res, Q res g) : FollowsPass g p Q :=
  Follows.ignored (hp.mono fun _ => passMonitor_ignores hg) hg hQ

end Rules

/-! ## Resuming -/

/-- The turn of a claimed approval calls the runner on its account. -/
theorem pass_resumeTurn {rows : List PendingRow} {approved : List ApprovalId} {row : PendingRow}
    {dir : Str} {agent : AgentName} {timeout : Nat} :
    FollowsPass (.claimed rows row.approvalId approved) (resumeTurn config row dir agent timeout)
      fun _ g => g = .working rows approved := by
  refine Follows.sync_bind fun start => ⟨_, pass_other rfl, ?_⟩
  -- The call is on account of the approval that was claimed.
  have hcall : FollowsPass (.claimed rows row.approvalId approved)
      (resumeClaude row.sessionId (nudge row.toolName row.approvalId) dir agent row.roomId timeout
        row.threadRootId (some row.approvalId)) fun _ g => g = .working rows approved :=
    Follows.sync_bind fun _ => ⟨_, if_pos rfl, pass_quiet turn_runClaude rfl fun _ => rfl⟩
  refine Monitor.Follows.bindE (Monitor.Follows.attempt (hcall.mono fun res g hg => ?_))
  subst hg
  dsimp only
  split
  · exact rfl
  · exact pass_quiet (turn_plain (plain_postAlias _ _ _ _)) rfl fun _ => rfl
  · exact pass_quiet (turn_plain (plain_postAlias _ _ _ _)) rfl fun _ => rfl
  · refine pass_quiet_bind (turn_plain (plain_touchSession _)) rfl (fun _ => ?_) fun _ => rfl
    refine pass_quiet_bind (turn_plain (plain_postResponse _ _ _ _ _ _ _ _ _)) rfl (fun _ => ?_)
      fun _ => rfl
    exact pass_quiet turn_recordPendingIfGated rfl fun _ => rfl

/-- How a row leaves the stage: the row is dealt with, or an exception ends the pass. -/
def RowDone (rows : List PendingRow) (approved : List ApprovalId) (res : Except Exn Unit)
    (g : PassStage) : Prop :=
  match res with
  | .ok _ => g = .working rows approved
  | .error _ => g.reconciles = true

/-- A claimed approval waits for the lock of its room and then has its turn. -/
theorem pass_withRoomLock {rows : List PendingRow} {approved : List ApprovalId} {row : PendingRow}
    {dir : Str} {agent : AgentName} {timeout : Nat} :
    FollowsPass (.claimed rows row.approvalId approved)
      (withRoomLock row.roomId (resumeTurn config row dir agent timeout))
      (RowDone rows approved) := by
  have hlocked : FollowsPass (.claimed rows row.approvalId approved)
      (Coro.finallyDo (resumeTurn config row dir agent timeout)
        (Coro.perform (Eff.sync (.lockRelease row.roomId)))) (RowDone rows approved) := by
    refine Monitor.Follows.finallyDo (pass_resumeTurn.mono fun res g hg => ?_)
    subst hg
    refine Follows.perform_sync fun _ => ⟨_, pass_other rfl, ?_⟩
    cases res <;> exact rfl
  refine Monitor.Follows.bindE (Follows.sync_bind fun got => ⟨_, pass_other rfl, ?_⟩)
  split
  · exact hlocked
  · refine Follows.await rfl fun res => ⟨_, pass_other rfl, ?_⟩
    cases res with
    | ok _ => exact hlocked
    | error _ => exact rfl

theorem pass_resumeOnApproval {rows : List PendingRow} {approved : List ApprovalId}
    {row : PendingRow} (hrow : row.approvalId ∈ approvalsOf rows)
    (happroved : row.approvalId ∈ approved) :
    FollowsPass (.working rows approved) (resumeOnApproval config row)
      (RowDone (without rows row.approvalId) approved) := by
  rw [resumeOnApproval]
  split
  · refine Monitor.Follows.bindE (Follows.execute fun res => ?_)
    cases res with
    | ok _ =>
      refine ⟨_, if_pos hrow, Follows.commit fun res => ?_⟩
      cases res <;> exact ⟨_, rfl, rfl⟩
    | error _ => exact ⟨_, pass_other rfl, rfl⟩
  · split
    · exact rfl
    refine Monitor.Follows.bindE (Monitor.Follows.bindE (Follows.execute fun res => ?_))
    cases res with
    | error _ => exact ⟨_, pass_other rfl, rfl⟩
    | ok _ =>
      -- The claim is good once the deletion is committed.
      refine ⟨_, if_pos ⟨happroved, hrow⟩, Follows.commit fun res => ?_⟩
      cases res with
      | error _ => exact ⟨_, rfl, rfl⟩
      | ok _ =>
        exact ⟨.claimed (without rows row.approvalId) row.approvalId approved, rfl,
          pass_withRoomLock⟩

/-! ## Passes -/

theorem mem_without {rows : List PendingRow} {a : ApprovalId} {row : PendingRow} :
    row ∈ without rows a ↔ row ∈ rows ∧ row.approvalId ≠ a := by
  simp [without]

/-- What the expiry loop has not come to is untouched, and what it returns is left. -/
def Swept (now : Int) (rows todo : List PendingRow) (res : Except Exn (List PendingRow))
    (g : PassStage) : Prop :=
  match res with
  | .ok left => ∃ rows', g = .sweeping now rows' ∧ left.Sublist todo ∧ left ⊆ rows' ∧
      (∀ row ∈ rows, row.approvalId ∉ approvalsOf todo → row ∈ rows') ∧
      ∀ row ∈ rows', row ∈ rows ∧
        (row.approvalId ∈ approvalsOf left ∨ row.approvalId ∉ approvalsOf todo)
  | .error _ => g.reconciles = true

theorem pass_expireStale {now : Int} {rows : List PendingRow} (todo : List PendingRow)
    (hnodup : (approvalsOf todo).Nodup) (hsub : todo ⊆ rows) :
    FollowsPass (.sweeping now rows) (expireStale now todo) (Swept now rows todo) := by
  induction todo generalizing rows with
  | nil => exact ⟨rows, rfl, .slnil, by simp, fun row hrow _ => hrow, fun row hrow =>
      ⟨hrow, .inr (by simp [approvalsOf])⟩⟩
  | cons row rest ih =>
    obtain ⟨hnot, hrest⟩ := List.nodup_cons.mp hnodup
    obtain ⟨hrow, hsub⟩ := List.cons_subset.mp hsub
    rw [expireStale]
    split
    · next hold =>
      refine Monitor.Follows.bindE (Monitor.Follows.bindE (Follows.execute fun res => ?_))
      cases res with
      | error _ => exact ⟨_, pass_other rfl, rfl⟩
      | ok _ =>
        -- A row past the age goes; the induction is over the rest.
        refine ⟨_, if_pos ⟨row, hrow, rfl, hold⟩, Follows.commit fun res => ?_⟩
        cases res with
        | error _ => exact ⟨_, rfl, rfl⟩
        | ok _ =>
          refine ⟨.sweeping now (without rows row.approvalId), rfl, ?_⟩
          refine (ih hrest ?_).mono fun res g hg => ?_
          · intro other hother
            refine mem_without.mpr ⟨hsub hother, fun heq => hnot ?_⟩
            exact List.mem_map.mpr ⟨other, hother, heq⟩
          · cases res with
            | error _ => exact hg
            | ok left =>
              obtain ⟨rows', rfl, hleft, hkept, hothers, hcover⟩ := hg
              refine ⟨rows', rfl, hleft.cons _, hkept, fun other hother hnone => ?_,
                fun other hother => ?_⟩
              · rw [approvalsOf, List.map_cons, List.mem_cons, not_or] at hnone
                exact hothers other (mem_without.mpr ⟨hother, hnone.1⟩) hnone.2
              · obtain ⟨hmem, hdone⟩ := hcover other hother
                obtain ⟨hmem, hne⟩ := mem_without.mp hmem
                refine ⟨hmem, hdone.imp_right fun hnone => ?_⟩
                rw [approvalsOf, List.map_cons, List.mem_cons, not_or]
                exact ⟨hne, hnone⟩
    · refine Monitor.Follows.bindE ((ih hrest hsub).mono fun res g hg => ?_)
      cases res with
      | error _ => exact hg
      | ok left =>
        obtain ⟨rows', rfl, hleft, hkept, hothers, hcover⟩ := hg
        refine ⟨rows', rfl, hleft.cons_cons _, ?_, fun other hother hnone => ?_,
          fun other hother => ?_⟩
        · exact List.cons_subset.mpr ⟨hothers row hrow hnot, hkept⟩
        · rw [approvalsOf, List.map_cons, List.mem_cons, not_or] at hnone
          exact hothers other hother hnone.2
        · obtain ⟨hmem, hdone⟩ := hcover other hother
          refine ⟨hmem, ?_⟩
          rw [approvalsOf, approvalsOf, List.map_cons, List.map_cons, List.mem_cons,
            List.mem_cons]
          by_cases heq : other.approvalId = row.approvalId
          · exact .inl (.inl heq)
          · exact hdone.imp .inr fun hnone => not_or.mpr ⟨heq, hnone⟩

theorem mem_approvedIn {states : List (ApprovalId × ApprovalState)} {a : ApprovalId} :
    a ∈ approvedIn states ↔ stateIn states a = some .approved := by
  simp only [approvedIn, List.mem_map, List.mem_filter, decide_eq_true_eq]
  constructor
  · rintro ⟨s, ⟨-, hs⟩, rfl⟩
    exact hs
  · intro h
    obtain ⟨s, hfind, -⟩ := Option.map_eq_some_iff.mp h
    have hkey : s.1 = a := by simpa using List.find?_some hfind
    exact ⟨s, ⟨List.mem_reverse.mp (List.mem_of_find?_eq_some hfind), by rwa [hkey]⟩, hkey⟩

/-- The stage in which the rows `todo` are still to be dealt with, given the states served. -/
def Ready (states : List (ApprovalId × ApprovalState)) (todo : List PendingRow)
    (g : PassStage) : Prop :=
  (states = [] ∧ ∃ rows, g = .live rows) ∨
    ∃ rows approved, g = .working rows approved ∧ (approvalsOf todo).Nodup ∧ todo ⊆ rows ∧
      ∀ a, stateIn states a = some .approved → a ∈ approved

theorem pass_getApprovalStates {rows todo : List PendingRow} {ids : List ApprovalId}
    (hnodup : (approvalsOf todo).Nodup) (hsub : todo ⊆ rows) :
    FollowsPass (.live rows) (Registry.getApprovalStates ids) fun res g =>
      match res with
      | .ok states => Ready states todo g
      | .error _ => g.reconciles = true := by
  -- Without an answer no approval counts as approved.
  have hempty : ∀ approved, Ready [] todo (.working rows approved) := fun approved =>
    .inr ⟨rows, approved, rfl, hnodup, hsub, by simp [stateIn]⟩
  rw [Registry.getApprovalStates]
  split
  · exact .inl ⟨rfl, rows, rfl⟩
  refine Follows.sync_bind fun enabled => ⟨_, pass_other rfl, ?_⟩
  split
  · refine Follows.tryExcept (Follows.network rfl fun res => ?_)
    cases res with
    | error x =>
      refine ⟨.live rows, pass_other rfl, rfl, fun _ => pass_other rfl, ?_⟩
      exact ⟨⟨rfl, .inl ⟨rfl, rows, rfl⟩⟩, fun _ => ⟨rfl, .inl ⟨rfl, rows, rfl⟩⟩⟩
    | ok states =>
      refine ⟨.working rows (approvedIn states), rfl, rfl, fun _ => pass_other rfl, ?_⟩
      refine ⟨.inr ⟨rows, _, rfl, hnodup, hsub, fun a => mem_approvedIn.mpr⟩, fun _ => ⟨rfl, ?_⟩⟩
      exact hempty _
  · exact .inl ⟨rfl, rows, rfl⟩

/-- One row: the rows after it are still to be dealt with. -/
theorem pass_reconcileRow {states : List (ApprovalId × ApprovalState)} {row : PendingRow}
    {rest : List PendingRow} {g : PassStage} (hready : Ready states (row :: rest) g) :
    FollowsPass g (reconcileRow config states row) fun res g' =>
      match res with
      | .ok _ => Ready states rest g'
      | .error _ => g'.reconciles = true := by
  rcases hready with ⟨rfl, rows, rfl⟩ | ⟨rows, approved, rfl, hnodup, hsub, happroved⟩
  · exact .inl ⟨rfl, rows, rfl⟩
  obtain ⟨hnot, hrest⟩ := List.nodup_cons.mp hnodup
  obtain ⟨hrow, hsub⟩ := List.cons_subset.mp hsub
  have hmem : row.approvalId ∈ approvalsOf rows := List.mem_map_of_mem hrow
  -- Once the row is gone, the rows after it are still to be dealt with.
  have hready : Ready states rest (.working (without rows row.approvalId) approved) := by
    refine .inr ⟨_, approved, rfl, hrest, fun other hother => ?_, happroved⟩
    exact mem_without.mpr ⟨hsub hother, fun heq => hnot (List.mem_map.mpr ⟨other, hother, heq⟩)⟩
  rw [reconcileRow]
  split
  · next hstate =>
    refine (pass_resumeOnApproval hmem (happroved _ hstate)).mono fun res g hg => ?_
    cases res with
    | ok _ =>
      obtain rfl : g = _ := hg
      exact hready
    | error _ => exact hg
  · refine Monitor.Follows.bindE (Monitor.Follows.bindE (Follows.execute fun res => ?_))
    cases res with
    | error _ => exact ⟨_, pass_other rfl, rfl⟩
    | ok _ =>
      refine ⟨_, if_pos hmem, Follows.commit fun res => ?_⟩
      cases res with
      | error _ => exact ⟨_, rfl, rfl⟩
      | ok _ =>
        refine ⟨_, rfl, pass_quiet (turn_plain (plain_postAlias _ _ _ _)) rfl fun res => ?_⟩
        cases res with
        | ok _ => exact hready
        | error _ => exact rfl
  · exact .inr ⟨rows, approved, rfl, hrest, hsub, happroved⟩

/-- What a pass does with the rows that it has read. -/
theorem pass_reconcileRows {rows : List PendingRow} (hnodup : (approvalsOf rows).Nodup) :
    FollowsPass (.fetched rows) (reconcileRows config rows) fun _ g => g.reconciles = true := by
  refine Monitor.Follows.bindE (Follows.sync_bind fun time => ⟨_, pass_other rfl, ?_⟩)
  refine Follows.sync_bind fun _ => ⟨_, rfl, ?_⟩
  refine Monitor.Follows.bindE ((pass_expireStale rows hnodup (List.Subset.refl _)).mono
    fun res g hg => ?_)
  cases res with
  | error _ => exact hg
  | ok left =>
    obtain ⟨rows', rfl, hsublist, hleft, -, hcover⟩ := hg
    -- What the expiry has left in the table is what goes on to the registry.
    have hall : approvalsOf rows' ⊆ approvalsOf left := by
      intro a ha
      obtain ⟨row, hrow, rfl⟩ := List.mem_map.mp ha
      obtain ⟨hmem, hdone⟩ := hcover row hrow
      exact hdone.resolve_right fun hnone => hnone (List.mem_map_of_mem hmem)
    refine Follows.sync_bind fun _ => ⟨.live rows', if_pos hall, ?_⟩
    split
    · exact rfl
    have hleftNodup : (approvalsOf left).Nodup := hnodup.sublist (hsublist.map _)
    refine Monitor.Follows.bindE ((pass_getApprovalStates hleftNodup hleft).mono fun res g hg => ?_)
    cases res with
    | error _ => exact hg
    | ok states =>
      refine Monitor.Follows.forEach left (J := Ready states) hg ?_ fun row rest g hready => ?_
      · rintro g (⟨-, rows, rfl⟩ | ⟨rows, approved, rfl, -⟩) <;> rfl
      · refine (pass_reconcileRow hready).mono fun res g hg => ?_
        cases res <;> exact hg

/-- Between two passes. -/
def Between (g : PassStage) : Prop := g = .outside ∨ g = .muddled

theorem Between.calm {g : PassStage} (h : Between g) : g.isAtomic = false := by
  rcases h with rfl | rfl <;> rfl

/-- A program in the muddled stage. -/
theorem pass_muddled {p : Py α} {Q : Except Exn α → PassStage → Prop}
    (hQ : ∀ res, Q res .muddled) : FollowsPass .muddled p Q :=
  Follows.ignored (PerformsE.mono (fun _ _ _ => rfl) (performs_true p.run)) rfl hQ

theorem pass_reconcileOnce {g : PassStage} (hg : Between g) :
    FollowsPass g (reconcileOnce config) fun _ g' => Between g' := by
  rcases hg with rfl | rfl
  swap
  · exact pass_muddled fun _ => .inr rfl
  refine Monitor.Follows.finallyDo ?_
  have hpass : FollowsPass .outside (do
      if ← sync .registryEnabled then
        let pending ← Store.getPendingApprovals
        if pending = [] then pure () else reconcileRows config pending
      else pure ()) fun _ g => g.reconciles = true := by
    refine Follows.sync_bind fun enabled => ⟨_, pass_other rfl, ?_⟩
    split
    · refine Monitor.Follows.bindE (Follows.execute fun res => ?_)
      cases res with
      | error _ => exact ⟨.outside, pass_other rfl, rfl⟩
      | ok rows =>
        -- The rows come from a table with unique approvals; the automaton gives up otherwise.
        by_cases hnodup : (approvalsOf rows).Nodup
        · refine ⟨.fetched rows, congrArg some (if_pos hnodup), ?_⟩
          dsimp only
          split
          · exact rfl
          · exact pass_reconcileRows hnodup
        · refine ⟨.muddled, congrArg some (if_neg hnodup), ?_⟩
          dsimp only
          split
          · exact rfl
          · exact pass_muddled fun _ => rfl
    · exact rfl
  refine hpass.mono fun _ g hg => Follows.perform_sync fun _ => ?_
  by_cases hmuddled : g = .muddled
  · subst hmuddled
    exact ⟨.muddled, rfl, .inr rfl⟩
  · refine ⟨.outside, ?_, .inl rfl⟩
    change g.step .ended = _
    cases g <;> first | exact absurd rfl hmuddled | rfl | cases hg

theorem pass_reconcileRound {g : PassStage} (hg : Between g) :
    FollowsPass g (reconcileRound config) fun _ g' => Between g' := by
  refine Monitor.Follows.bindE (Follows.tryExcept ((pass_reconcileOnce hg).mono
    fun res g hg => ?_))
  have hsleep : FollowsPass g (Py.await .sleep) fun _ g' => Between g' :=
    pass_quiet (performsE_await rfl) hg.calm fun _ => hg
  cases res with
  | ok _ => exact hsleep
  | error _ => exact ⟨hg, hsleep⟩

/-! ## Fibers -/

/-- A round of the reconcile loop, or its end. -/
theorem pass_round {p : Py Unit} {g : PassStage}
    (hp : FollowsPass g p fun _ g' => Between g') :
    passMonitor.Follows Eff.awaits g (do nextRound endTask (← p.run))
      (passMonitor.RoundEnd fun _ g' => Between g') := by
  refine Monitor.Follows.bind hp fun res g hg => ?_
  cases res with
  | ok _ => exact ⟨hg.calm, hg⟩
  | error _ =>
    refine Monitor.Follows.bind (Follows.perform_sync (e := .taskDone) (Q := fun _ g' => g' = g)
      fun _ => ⟨_, pass_other rfl, rfl⟩) fun _ g' heq => ?_
    subst heq
    exact ⟨hg.calm, .inr hg⟩

theorem pass_reconcile : passMonitor.Conforms Eff.awaits .outside (reconcileFiber config) := by
  refine ⟨fun _ g => Between g, ?_, fun _ g hg => pass_round (pass_reconcileRound hg)⟩
  refine Monitor.Follows.bind (Monitor.Follows.bindE
    (Follows.await rfl fun res => ⟨.outside, pass_other rfl, ?_⟩)
    (Q := fun _ g => g = .outside)) fun res g hg => ?_
  · cases res with
    | ok _ => exact Follows.sync fun _ => ⟨.outside, pass_other rfl, rfl⟩
    | error _ => exact rfl
  · subst hg
    split
    · exact pass_round (pass_reconcileRound (.inl rfl))
    · exact ⟨fun _ => rfl, fun _ => ⟨.outside, pass_other rfl, rfl, .inr (.inl rfl)⟩⟩

/-- The other tasks stay apart. -/
theorem pass_apart {P : Eff → Prop} {fiber : Fiber Eff Eff.Ret}
    (h : FiberPerforms P fiber) (hignores : ∀ e, P e → passMonitor.Ignores .apart e) :
    passMonitor.Conforms Eff.awaits .apart fiber :=
  .of_performs rfl (.inl rfl) (h.prog.mono hignores) fun s => (h.next s).mono hignores

theorem passMonitor_ignores_handler {e : Eff} (he : HandlerEff e) :
    passMonitor.Ignores .apart e := by
  intro r
  change PassStage.apart.step (PassAct.of e r) = some .apart
  cases e with
  | sync e =>
    cases e with
    | execute s => cases s <;> cases r <;> first | rfl | cases he
    | commit => cases r <;> rfl
    | mark m => cases m <;> first | exact if_pos he | rfl | cases he
    | _ => rfl
  | await e => cases e <;> first | rfl | cases he

theorem passMonitor_ignores_main {e : Eff} (he : MainEff config e) :
    passMonitor.Ignores .apart e := by
  intro r
  rcases he with he | rfl | he
  · cases e with
    | sync e =>
      cases e with
      | execute s => cases s <;> cases r <;> first | rfl | cases he.1
      | commit => cases r <;> rfl
      | mark m => cases m <;> first | rfl | cases he.1
      | _ => rfl
    | await e => cases e <;> first | rfl | cases he.1
  · rfl
  · cases e with
    | sync e => cases e <;> first | rfl | cases he
    | await e => cases e <;> first | rfl | cases he

/-- Every task of the dispatcher keeps the discipline of passes. -/
def passCoverage (config : MatrixDispatcher.Config) : Coverage config passMonitor where
  enter
    | .reconcile => .outside
    | _ => .apart
  ok _ := True
  ok_main := trivial
  create _ := trivial
  atomic request := by cases request <;> rfl
  conforms := by
    intro request _
    cases request with
    | main => exact pass_apart main_performs fun _ => passMonitor_ignores_main
    | cleanup =>
      exact pass_apart cleanup_performs fun _ he => passMonitor_ignores_handler (.of_cleanup he)
    | reconcile => exact pass_reconcile
    | handle args => exact pass_apart (handler_performs args) fun _ => passMonitor_ignores_handler

end MatrixDispatcher
