import MatrixDispatcher.Discipline.Turns
import MatrixDispatcher.Discipline.Footprint

/-!
# Every task follows the discipline of turns

The walk through the programs: one lemma a program, from the stages in which it is called to the
stages in which it ends.
-/

namespace MatrixDispatcher

open Py Coro

variable {config : MatrixDispatcher.Config} {α β : Type}

/-- From stage `g`, the coroutine keeps the discipline of turns and ends as `Q` says. -/
abbrev FollowsTurns (config : MatrixDispatcher.Config) (g : TurnStage) (p : Py α)
    (Q : Except Exn α → TurnStage → Prop) : Prop :=
  (turnMonitor config).Follows Eff.awaits g p.run Q

namespace TurnStage

theorem step_other (config : MatrixDispatcher.Config) (g : TurnStage) :
    g.step config .other = some g := by
  cases g <;> rfl

theorem step_interrupt (config : MatrixDispatcher.Config) {g : TurnStage} (h : g.child? = none) :
    g.step config .interrupt = some g := by
  cases g <;> first | rfl | cases h

theorem step_release (config : MatrixDispatcher.Config) {g : TurnStage} {room : RoomId}
    (h : Holds room g) : g.step config (.release room) = some .idle := by
  cases g <;> simp_all [step, Holds, room?, child?]

theorem Holds.calm {g : TurnStage} {room : RoomId} (h : Holds room g) : g.Calm := by
  refine ⟨?_, h.2⟩
  cases g <;> first | rfl | cases h.1

end TurnStage

open TurnStage

/-- Plain effects do not concern turns, except that a cancelled task may abandon a child. -/
theorem turnMonitor_ignores {g : TurnStage} {e : Eff} (hg : g.child? = none) (he : Plain e) :
    (turnMonitor config).Ignores g e := by
  intro r
  suffices h : TurnAct.of e r = .other ∨ TurnAct.of e r = .interrupt by
    change g.step config (TurnAct.of e r) = some g
    rcases h with h | h
    · rw [h, step_other]
    · rw [h, step_interrupt config hg]
  cases e with
  | sync e =>
    refine .inl ?_
    cases e with
    | execute s => cases s <;> first | rfl | cases he
    | _ => first | rfl | cases he
  | await e =>
    cases e with
    | pause => cases r <;> first | exact .inl rfl | exact .inr rfl
    | _ => first | exact .inl rfl | cases he

section Rules

variable {g : TurnStage} {Q : Except Exn β → TurnStage → Prop}

/-- A plain program, then `f`. -/
theorem turns_plain_bind {p : Py α} {f : α → Py β} (hp : PerformsE Plain p) (hg : g.Calm)
    (hok : ∀ a, FollowsTurns config g (f a) Q) (herror : ∀ x, Q (.error x) g) :
    FollowsTurns config g (p >>= f) Q :=
  Follows.ignored_bind (hp.mono fun _ => turnMonitor_ignores hg.2) hg.1 hok herror

/-- A plain program. -/
theorem turns_plain {p : Py β} (hp : PerformsE Plain p) (hg : g.Calm) (hQ : ∀ res, Q res g) :
    FollowsTurns config g p Q :=
  Follows.ignored (hp.mono fun _ => turnMonitor_ignores hg.2) hg.1 hQ

end Rules

/-! ## Locks -/

/-- `async with _room_lock(room)` around a body that keeps the lock. -/
theorem turns_withRoomLock {room : RoomId} {body : Py α}
    (hbody : FollowsTurns config (.locked room) body fun _ g => Holds room g) :
    FollowsTurns config .idle (withRoomLock room body) fun _ g => g = .idle := by
  have hlocked : FollowsTurns config (.locked room)
      (Coro.finallyDo body (Coro.perform (Eff.sync (.lockRelease room)))) fun _ g => g = .idle :=
    Monitor.Follows.finallyDo <| hbody.mono fun _ _ hg =>
      Follows.perform_sync fun _ => ⟨.idle, step_release config hg, rfl⟩
  refine Monitor.Follows.bindE (Follows.sync_bind fun got => ?_)
  cases got with
  | true => exact ⟨.locked room, rfl, hlocked⟩
  | false =>
    refine ⟨.waiting room, rfl, Follows.await rfl fun res => ?_⟩
    cases res with
    | ok _ => exact ⟨.locked room, if_pos rfl, hlocked⟩
    | error _ => exact ⟨.idle, if_pos rfl, rfl⟩

/-! ## The runner -/

/-- When the call is over, the child is gone or the task was cancelled. -/
theorem turns_communicateOrKill {start : Time} {turn : Turn} {pid : Pid} {timeout : Nat} :
    FollowsTurns config (.registered start turn pid .unknown) (communicateOrKill pid timeout)
      fun res g => ∃ fate, g = .registered start turn pid fate ∧ fate ≠ .unknown ∧
        (outcomeOf res ≠ .raised → fate = .gone) := by
  refine Monitor.Follows.tryCatch (Follows.await rfl fun res => ?_)
  rcases res with x | v
  · by_cases hx : x = .timeoutError
    · -- the child is killed, and gone when `wait` returns
      subst hx
      refine ⟨.registered start turn pid .unknown, step_other config _, ?_⟩
      dsimp only
      rw [if_pos rfl]
      refine Monitor.Follows.bindE (Follows.perform_sync fun killed => ?_)
      rcases killed with y | _
      · exact ⟨_, if_pos rfl, .gone, rfl, by decide, fun _ => rfl⟩
      refine ⟨_, step_other config _, Monitor.Follows.bindE (Follows.await rfl fun waited => ?_)⟩
      rcases waited with y | _
      · by_cases hy : y = .cancelledError
        · subst hy
          exact ⟨_, if_pos rfl, .lost, rfl, by decide, fun h => absurd rfl h⟩
        · refine ⟨.registered start turn pid .gone, ?_, .gone, rfl, by decide, fun _ => rfl⟩
          cases y <;> first | exact if_pos rfl | exact absurd rfl hy
      refine ⟨.registered start turn pid .gone, if_pos rfl, Monitor.Follows.bindE ?_⟩
      refine Follows.tryExcept (Follows.await rfl fun drained => ⟨_, step_other config _, ?_⟩)
      rcases drained with y | _
      · exact ⟨⟨.gone, rfl, by decide, fun _ => rfl⟩, .gone, rfl, by decide, fun _ => rfl⟩
      · exact ⟨.gone, rfl, by decide, fun _ => rfl⟩
    -- Any other exception leaves it open whether the child has exited.
    · refine ⟨.registered start turn pid .lost, ?_, ?_⟩
      · cases x <;> first | exact if_pos rfl | exact absurd rfl hx
      dsimp only
      rw [if_neg hx]
      refine ⟨.lost, rfl, by decide, fun h => absurd ?_ h⟩
      cases x <;> first | rfl | exact absurd rfl hx
  · exact ⟨.registered start turn pid .gone, if_pos rfl, .gone, rfl, by decide, fun _ => rfl⟩

/-- `_run_claude` ends with a result after its child, or with an exception. -/
theorem turns_runClaude {start : Time} {turn : Turn} {args : List Str} {dir : Str}
    {timeout : Nat} :
    FollowsTurns config (.called start turn)
      (runClaude args dir turn.agentName turn.roomId timeout turn) fun res g =>
        (∀ v, res = .ok v → g = .ended start turn) ∧ Holds turn.roomId g := by
  refine Monitor.Follows.bindE (Follows.network_landing rfl fun launched => ?_)
  rcases launched with x | pid
  · refine ⟨.called start turn, step_other config _, rfl, fun _ => ⟨by simp, rfl, rfl⟩, ?_⟩
    intro landed
    refine ⟨.called start turn, turnMonitor_ignores rfl rfl _, ?_⟩
    rcases landed with y | _ <;> exact ⟨by simp, rfl, rfl⟩
  refine ⟨.launched start turn pid, if_pos ⟨rfl, rfl⟩, rfl, by simp, fun landed => ?_⟩
  rcases landed with y | _
  · exact ⟨.failed turn.roomId, rfl, by simp, rfl, rfl⟩
  refine ⟨.launched start turn pid, step_other config _, ?_⟩
  -- The child is registered, and whatever comes is between this and the pop.
  refine Follows.sync_bind fun _ => ⟨.registered start turn pid .unknown, if_pos ⟨rfl, rfl⟩, ?_⟩
  refine Monitor.Follows.bindE (Monitor.Follows.attempt (Monitor.Follows.finallyDo ?_))
  refine turns_communicateOrKill.mono fun res g hg => ?_
  obtain ⟨fate, rfl, hfate, hgone⟩ := hg
  -- The `finally` block takes the child out again.
  refine Follows.perform_sync fun _ => ⟨.popped start turn pid fate, if_pos rfl, ?_⟩
  refine Follows.sync_bind fun _ => ⟨_, if_pos ⟨rfl, rfl, hfate, hgone⟩, ?_⟩
  rcases res with x | ⟨out, err⟩
  · have hne : outcomeOf (Except.error x : Except Exn (Str × Str)) ≠ .result := by
      cases x <;> simp [outcomeOf]
    rw [if_neg hne]
    exact ⟨by simp, rfl, rfl⟩
  · refine Follows.sync_bind fun _ => ⟨.ended start turn, step_other config _, ?_⟩
    exact ⟨fun _ _ => rfl, rfl, rfl⟩

/-- The turn that is announced is the one that runs. -/
theorem turns_callRunner {start : Time} {turn : Turn} {dir : Str} {timeout : Nat}
    (hagent : config.agentOf turn.roomId = some turn.agentName) :
    FollowsTurns config (.timed turn.roomId start) (callRunner turn dir timeout) fun res g =>
      (∀ v, res = .ok v → g = .ended start turn) ∧ Holds turn.roomId g :=
  Follows.sync_bind fun _ => ⟨_, if_pos ⟨rfl, hagent⟩, turns_runClaude⟩

/-! ## Pending approvals -/

/-- An approval that is found is one that the query of this turn returned. -/
theorem turns_findPendingApproval {start : Time} {turn : Turn} :
    FollowsTurns config (.ended start turn) (Registry.findPendingApproval turn.agentName start)
      fun res g => (∀ p, res = .ok (some p) → g = .queried start turn (some p.approvalId)) ∧
        Holds turn.roomId g := by
  refine Follows.sync_bind fun enabled => ⟨_, step_other config _, ?_⟩
  split
  · refine Follows.tryExcept (Follows.network rfl fun res => ?_)
    rcases res with x | found
    · refine ⟨_, step_other config _, rfl, turnMonitor_ignores rfl rfl, ?_⟩
      exact ⟨⟨⟨by simp, rfl, rfl⟩, by simp, rfl, rfl⟩,
        fun y => ⟨⟨by simp, rfl, rfl⟩, by simp, rfl, rfl⟩⟩
    · refine ⟨_, if_pos ⟨rfl, rfl⟩, rfl, turnMonitor_ignores rfl rfl, ⟨?_, rfl, rfl⟩,
        fun y => ⟨⟨by simp, rfl, rfl⟩, by simp, rfl, rfl⟩⟩
      rintro p hp
      obtain rfl : found = some p := by simpa using hp
      rfl
  · exact ⟨by simp, rfl, rfl⟩

/-- What is recorded was found with the start of this turn. -/
theorem turns_recordPendingIfGated {start : Time} {turn : Turn} :
    FollowsTurns config (.ended start turn)
      (recordPendingIfGated turn.agentName turn.roomId turn.sessionId turn.threadRootId start)
      fun _ g => Holds turn.roomId g := by
  refine Follows.sync_bind fun _ => ⟨_, step_other config _, ?_⟩
  refine Follows.sync_bind fun enabled => ⟨_, step_other config _, ?_⟩
  cases enabled with
  | false => exact ⟨rfl, rfl⟩
  | true =>
    refine Monitor.Follows.bindE (turns_findPendingApproval.mono fun res g hg => ?_)
    rcases res with x | found
    · exact hg.2
    rcases found with _ | p
    · exact hg.2
    obtain rfl := hg.1 p rfl
    refine Monitor.Follows.bindE ?_
    refine turns_plain_bind plain_now ⟨rfl, rfl⟩ (fun now => ?_) fun _ => ⟨rfl, rfl⟩
    refine Monitor.Follows.bindE (Follows.execute fun res => ?_)
    rcases res with x | _
    · exact ⟨_, step_other config _, rfl, rfl⟩
    -- The row has the session, the thread and the room of the turn.
    refine ⟨.recorded start turn, if_pos ⟨rfl, rfl, rfl, rfl⟩, ?_⟩
    refine turns_plain (performsE_commit rfl) ⟨rfl, rfl⟩ fun res => ?_
    rcases res with x | _
    · exact ⟨rfl, rfl⟩
    · exact turns_plain (plain_linkSession _ _) ⟨rfl, rfl⟩ fun _ => ⟨rfl, rfl⟩

/-! ## Turns -/

/-- The turn of an approved approval keeps the lock that it runs under. -/
theorem turns_resumeTurn {row : PendingRow} {dir : Str} {agent : AgentName} {timeout : Nat}
    (hagent : config.agentOf row.roomId = some agent) :
    FollowsTurns config (.locked row.roomId) (resumeTurn config row dir agent timeout)
      fun _ g => Holds row.roomId g := by
  refine Follows.sync_bind fun start => ⟨.timed row.roomId start, rfl, ?_⟩
  refine Monitor.Follows.bindE (Monitor.Follows.attempt ?_)
  rw [resumeClaude_eq]
  refine (turns_callRunner hagent).mono fun res g hg => ?_
  dsimp only
  split
  · exact hg.2
  · exact turns_plain (plain_postAlias _ _ _ _) hg.2.calm fun _ => hg.2
  · exact turns_plain (plain_postAlias _ _ _ _) hg.2.calm fun _ => hg.2
  · obtain rfl := hg.1 _ rfl
    refine turns_plain_bind (plain_touchSession _) ⟨rfl, rfl⟩ (fun _ => ?_) fun _ => ⟨rfl, rfl⟩
    refine turns_plain_bind (plain_postResponse _ _ _ _ _ _ _ _ _) ⟨rfl, rfl⟩ (fun _ => ?_)
      fun _ => ⟨rfl, rfl⟩
    exact turns_recordPendingIfGated

/-- The turn of a thread reply keeps the lock that it runs under. -/
theorem turns_replyTurn {args : HandlerArgs} {message : Str} {row : SessionRow} {ack : EventId}
    (hagent : config.agentOf args.roomId = some args.agentName) :
    FollowsTurns config (.locked args.roomId) (replyTurn args message row ack)
      fun _ g => Holds args.roomId g := by
  refine Follows.sync_bind fun start => ⟨.timed args.roomId start, rfl, ?_⟩
  refine Monitor.Follows.bindE (Monitor.Follows.attempt ?_)
  rw [resumeClaude_eq]
  refine (turns_callRunner hagent).mono fun res g hg => ?_
  dsimp only
  split
  · exact turns_plain (plain_postAlias _ _ _ _) hg.2.calm fun _ => hg.2
  · exact hg.2
  · obtain rfl := hg.1 _ rfl
    refine turns_plain_bind (plain_touchSession _) ⟨rfl, rfl⟩ (fun _ => ?_) fun _ => ⟨rfl, rfl⟩
    refine turns_plain_bind (plain_postResponse _ _ _ _ _ _ _ _ _) ⟨rfl, rfl⟩ (fun _ => ?_)
      fun _ => ⟨rfl, rfl⟩
    exact turns_recordPendingIfGated

/-- The turn of a new session keeps the lock that it runs under. -/
theorem turns_spawnTurn {args : HandlerArgs} {message : Str}
    (hagent : config.agentOf args.roomId = some args.agentName) :
    FollowsTurns config (.locked args.roomId) (spawnTurn args message)
      fun _ g => Holds args.roomId g := by
  refine Follows.sync_bind fun session => ⟨_, step_other config _, ?_⟩
  refine turns_plain_bind (plain_postMessage _ _ _) ⟨rfl, rfl⟩ (fun ack => ?_) fun _ => ⟨rfl, rfl⟩
  refine turns_plain_bind (plain_insertSession _ _ _ _) ⟨rfl, rfl⟩ (fun _ => ?_) fun _ => ⟨rfl, rfl⟩
  refine turns_plain_bind (plain_registerAlias _ _) ⟨rfl, rfl⟩ (fun _ => ?_) fun _ => ⟨rfl, rfl⟩
  refine turns_plain_bind (plain_registerSession _ _ _ _ _) ⟨rfl, rfl⟩ (fun _ => ?_)
    fun _ => ⟨rfl, rfl⟩
  -- From the reading of the clock on, the turn is under way.
  refine Follows.sync_bind fun start => ⟨.timed args.roomId start, rfl, ?_⟩
  refine Monitor.Follows.bindE (Monitor.Follows.attempt ?_)
  rw [spawnClaude_eq]
  refine (turns_callRunner hagent).mono fun res g hg => ?_
  dsimp only
  split
  · exact turns_plain (plain_postAlias _ _ _ _) hg.2.calm fun _ => hg.2
  · exact hg.2
  · obtain rfl := hg.1 _ rfl
    refine turns_plain_bind (plain_postResponse _ _ _ _ _ _ _ _ _) ⟨rfl, rfl⟩ (fun _ => ?_)
      fun _ => ⟨rfl, rfl⟩
    exact turns_recordPendingIfGated

theorem turns_rootTurn {args : HandlerArgs} {message : Str}
    (hagent : config.agentOf args.roomId = some args.agentName) :
    FollowsTurns config (.locked args.roomId) (rootTurn args message)
      fun _ g => Holds args.roomId g := by
  refine Follows.sync_bind fun now => ⟨_, step_other config _, ?_⟩
  refine Follows.sync_bind fun last => ⟨_, step_other config _, ?_⟩
  dsimp only
  split
  · exact turns_plain (plain_notice _ _ _) ⟨rfl, rfl⟩ fun _ => ⟨rfl, rfl⟩
  · exact Follows.sync_bind fun _ => ⟨_, step_other config _, turns_spawnTurn hagent⟩

/-! ## Tasks -/

/-- `!cancel` has seen a process if it has found one, and is idle otherwise. -/
def SawFound (room : RoomId) (res : Except Exn (Option Pid)) (g : TurnStage) : Prop :=
  match res with
  | .ok (some pid) => g = .saw room pid
  | _ => g = .idle

theorem turns_pollActive {room : RoomId} (n : Nat) :
    FollowsTurns config .idle (pollActive room n) (SawFound room) := by
  induction n with
  | zero => exact rfl
  | succ n ih =>
    refine Monitor.Follows.bindE (Follows.await rfl fun res => ⟨_, step_other config _, ?_⟩)
    rcases res with x | _
    · exact rfl
    refine Follows.sync_bind fun found => ?_
    rcases found with _ | pid
    · exact ⟨.idle, rfl, ih⟩
    · exact ⟨.saw room pid, rfl, rfl⟩

theorem turns_findActive {room : RoomId} :
    FollowsTurns config .idle (findActive room) (SawFound room) := by
  refine Follows.sync_bind fun found => ?_
  rcases found with _ | pid
  · refine ⟨.idle, rfl, Follows.sync_bind fun held => ⟨_, step_other config _, ?_⟩⟩
    cases held with
    | true => exact turns_pollActive _
    | false => exact rfl
  · exact ⟨.saw room pid, rfl, rfl⟩

/-- `!cancel` signals the process it has just read. -/
theorem turns_handleCancelCommand {room : RoomId} {event : RoomMessageText} {mention : UserId} :
    FollowsTurns config .idle (handleCancelCommand room event mention) fun _ g => g = .idle := by
  -- Every way out of the command ends with a notice.
  have hnotice : ∀ body replyTo, FollowsTurns config .idle
      (do let _ ← postMessage room body replyTo) fun _ g => g = .idle :=
    fun _ _ => turns_plain (plain_notice _ _ _) ⟨rfl, rfl⟩ fun _ => rfl
  refine Monitor.Follows.bindE (turns_findActive.mono fun res g hg => ?_)
  rcases res with x | found
  · exact hg
  rcases found with _ | pid
  · obtain rfl : g = .idle := hg
    exact hnotice _ _
  · obtain rfl : g = .saw room pid := hg
    refine Monitor.Follows.bindE (Monitor.Follows.tryCatch (Follows.perform_sync fun sent => ?_))
    refine ⟨.idle, if_pos ⟨rfl, rfl⟩, ?_⟩
    rcases sent with x | _
    · dsimp only
      split
      · exact hnotice _ _
      · exact rfl
    · exact hnotice _ _

theorem turns_handleCommand {args : HandlerArgs} {message : Str} :
    FollowsTurns config .idle (handleCommand args message) fun _ g => g = .idle := by
  rw [handleCommand]
  dsimp only
  split
  · exact turns_plain (plain_handleHelpCommand _ _ _) ⟨rfl, rfl⟩ fun _ => rfl
  split
  · exact turns_plain (plain_handleSessionsCommand _ _ _ _ _) ⟨rfl, rfl⟩ fun _ => rfl
  split
  · exact turns_plain (plain_handleRecapCommand _ _ _ _ _ _) ⟨rfl, rfl⟩ fun _ => rfl
  split
  · exact turns_plain (plain_handleMirrorCommand _ _ _ _ _ _) ⟨rfl, rfl⟩ fun _ => rfl
  split
  · exact turns_handleCancelCommand
  · exact turns_plain (plain_notice _ _ _) ⟨rfl, rfl⟩ fun _ => rfl

theorem turns_handleEvent {args : HandlerArgs}
    (hagent : config.agentOf args.roomId = some args.agentName) :
    FollowsTurns config .idle (handleEvent args) fun _ g => g = .idle := by
  rw [handleEvent]
  split
  · exact rfl
  refine turns_plain_bind (performsE_fromExcept _) ⟨rfl, rfl⟩ (fun root => ?_) fun _ => rfl
  rcases root with _ | root
  · dsimp only
    split
    · exact turns_handleCommand
    · exact turns_withRoomLock (turns_rootTurn hagent)
  refine turns_plain_bind (performsE_execute rfl) ⟨rfl, rfl⟩ (fun row => ?_) fun _ => rfl
  rcases row with _ | row
  · exact turns_plain (plain_handleOrphan _ _) ⟨rfl, rfl⟩ fun _ => rfl
  refine turns_plain_bind (plain_postMessage _ _ _) ⟨rfl, rfl⟩ (fun ack => ?_) fun _ => rfl
  refine turns_plain_bind (plain_registerAlias _ _) ⟨rfl, rfl⟩ (fun _ => ?_) fun _ => rfl
  refine turns_plain_bind (plain_registerSession _ _ _ _ _) ⟨rfl, rfl⟩ (fun _ => ?_) fun _ => rfl
  exact turns_withRoomLock (turns_replyTurn hagent)

/-! ## Reconcile passes -/

theorem turns_deletePendingApproval {a : ApprovalId} {site : DeleteSite} :
    FollowsTurns config .idle (Store.deletePendingApproval a site) fun _ g => g = .idle := by
  refine Monitor.Follows.bindE (Follows.execute fun res => ⟨.idle, step_other config _, ?_⟩)
  cases res with
  | ok _ => exact turns_plain (performsE_commit rfl) ⟨rfl, rfl⟩ fun _ => rfl
  | error _ => exact rfl

/-- A program from `idle` to `idle`, then `f`. -/
theorem turns_idle_bind {p : Py α} {f : α → Py β}
    (hp : FollowsTurns config .idle p fun _ g => g = .idle)
    (hf : ∀ a, FollowsTurns config .idle (f a) fun _ g => g = .idle) :
    FollowsTurns config .idle (p >>= f) fun _ g => g = .idle := by
  refine Monitor.Follows.bindE (hp.mono fun res g hg => ?_)
  subst hg
  cases res with
  | ok a => exact hf a
  | error _ => exact rfl

theorem turns_resumeOnApproval {row : PendingRow} :
    FollowsTurns config .idle (resumeOnApproval config row) fun _ g => g = .idle := by
  rw [resumeOnApproval]
  split
  · exact turns_deletePendingApproval
  · next agent cfg hagent =>
    split
    · exact rfl
    · refine turns_idle_bind turns_deletePendingApproval fun _ => ?_
      exact turns_withRoomLock (turns_resumeTurn (by simp [Config.agentOf, hagent]))

theorem turns_reconcileRow {states : List (ApprovalId × ApprovalState)} {row : PendingRow} :
    FollowsTurns config .idle (reconcileRow config states row) fun _ g => g = .idle := by
  rw [reconcileRow]
  split
  · exact turns_resumeOnApproval
  · refine turns_idle_bind turns_deletePendingApproval fun _ => ?_
    exact turns_plain (plain_postAlias _ _ _ _) ⟨rfl, rfl⟩ fun _ => rfl
  · exact rfl

/-- A program that has nothing to do with turns, but may be cancelled. -/
theorem turns_other {p : Py α}
    (hp : PerformsE (fun e => ∀ r, TurnAct.of e r = .other ∨ TurnAct.of e r = .interrupt) p) :
    FollowsTurns config .idle p fun _ g => g = .idle := by
  refine Follows.ignored (hp.mono fun e he r => ?_) rfl fun _ => rfl
  change TurnStage.idle.step config (TurnAct.of e r) = some .idle
  rcases he r with h | h
  · rw [h, step_other]
  · rw [h, step_interrupt config rfl]

theorem turns_reconcileRows {pending : List PendingRow} :
    FollowsTurns config .idle (reconcileRows config pending) fun _ g => g = .idle := by
  refine turns_plain_bind plain_now ⟨rfl, rfl⟩ (fun now => ?_) fun _ => rfl
  refine Follows.sync_bind fun _ => ⟨.idle, step_other config _, ?_⟩
  refine turns_idle_bind (turns_other (performsE_expireStale (fun _ _ _ _ => .inl rfl)
    fun _ => .inl rfl)) fun live => ?_
  refine Follows.sync_bind fun _ => ⟨.idle, step_other config _, ?_⟩
  split
  · exact rfl
  -- The second await of a call may be cancelled, which no turn sees here.
  have hlanding : ∀ r, TurnAct.of (.await .pause) r = .other ∨
      TurnAct.of (.await .pause) r = .interrupt := by
    intro r
    cases r with
    | error _ => exact .inr rfl
    | ok _ => exact .inl rfl
  refine turns_idle_bind (turns_other (performsE_getApprovalStates (fun _ => .inl rfl)
    (fun _ => .inl rfl) hlanding)) fun states => ?_
  refine Monitor.Follows.forEach _ (J := fun _ g => g = .idle) rfl (fun _ h => h) ?_
  rintro row rest _ rfl
  refine turns_reconcileRow.mono fun res g hg => ?_
  cases res <;> exact hg

theorem turns_reconcileOnce :
    FollowsTurns config .idle (reconcileOnce config) fun _ g => g = .idle := by
  refine Monitor.Follows.finallyDo ?_
  have hpass : FollowsTurns config .idle (do
      if ← sync .registryEnabled then
        let pending ← Store.getPendingApprovals
        if pending = [] then pure () else reconcileRows config pending
      else pure ()) fun _ g => g = .idle := by
    refine Follows.sync_bind fun enabled => ⟨_, step_other config _, ?_⟩
    split
    · refine Monitor.Follows.bindE (Follows.execute fun res => ⟨.idle, step_other config _, ?_⟩)
      rcases res with x | pending
      · exact rfl
      dsimp only
      split
      · exact rfl
      · exact turns_reconcileRows
    · exact rfl
  refine hpass.mono fun _ g hg => ?_
  subst hg
  exact Follows.perform_sync fun _ => ⟨.idle, step_other config _, rfl⟩

theorem turns_reconcileRound :
    FollowsTurns config .idle (reconcileRound config) fun _ g => g = .idle := by
  refine turns_idle_bind (Follows.tryExcept (turns_reconcileOnce.mono fun res g hg => ?_))
    fun _ => turns_plain (performsE_await rfl) ⟨rfl, rfl⟩ fun _ => rfl
  subst hg
  cases res with
  | ok _ => exact rfl
  | error _ => exact ⟨rfl, rfl⟩

/-! ## Fibers -/

/-- The task of a message keeps the discipline. -/
theorem handler_conforms {args : HandlerArgs}
    (hagent : config.agentOf args.roomId = some args.agentName) :
    (turnMonitor config).Conforms Eff.awaits .idle (handlerFiber args) := by
  refine Monitor.Conforms.once ?_
  have hrun : FollowsTurns config .idle (do Py.await .start; handleEvent args)
      fun _ g => g = .idle := by
    refine Monitor.Follows.bindE (Follows.await rfl fun res => ⟨.idle, step_other config _, ?_⟩)
    cases res with
    | ok _ => exact turns_handleEvent hagent
    | error _ => exact rfl
  refine Monitor.Follows.bind hrun fun _ g hg => ?_
  subst hg
  exact Follows.perform_sync fun _ => ⟨.idle, step_other config _, rfl, .inl rfl⟩

/-- A round of a loop from `idle` ends in `idle`. -/
theorem turns_round {σ : Type} {p : Py σ} (hp : FollowsTurns config .idle p fun _ g => g = .idle) :
    (turnMonitor config).Follows Eff.awaits .idle (do nextRound endTask (← p.run))
      ((turnMonitor config).RoundEnd fun _ g => g = .idle) := by
  refine Monitor.Follows.bind hp fun res g hg => ?_
  subst hg
  cases res with
  | ok _ => exact ⟨rfl, rfl⟩
  | error _ =>
    exact Monitor.Follows.bind (Follows.perform_sync (e := .taskDone) (Q := fun _ g => g = .idle)
      fun _ => ⟨.idle, step_other config _, rfl⟩) fun _ g hg => by subst hg; exact ⟨rfl, .inl rfl⟩

/-- The reconcile loop keeps the discipline. -/
theorem reconcile_conforms :
    (turnMonitor config).Conforms Eff.awaits .idle (reconcileFiber config) := by
  refine ⟨fun _ g => g = .idle, ?_, ?_⟩
  · refine Monitor.Follows.bind (Monitor.Follows.bindE
      (Follows.await rfl fun res => ⟨.idle, step_other config _, ?_⟩)
      (Q := fun _ g => g = .idle)) fun res g hg => ?_
    · cases res with
      | ok _ => exact Follows.sync fun _ => ⟨.idle, step_other config _, rfl⟩
      | error _ => exact rfl
    · subst hg
      split
      · exact turns_round turns_reconcileRound
      · exact ⟨fun _ => rfl, fun _ => ⟨.idle, step_other config _, rfl, .inl rfl⟩⟩
  · rintro _ _ rfl
    exact turns_round turns_reconcileRound

/-- `main` takes no part in turns. -/
theorem turnMonitor_ignores_loop {e : Eff} (he : LoopEff config e) :
    (turnMonitor config).Ignores .system e := by
  by_cases hplain : Plain e
  · exact turnMonitor_ignores rfl hplain
  intro r
  cases e with
  | sync e =>
    cases e with
    | execute s => cases s <;> first | exact absurd rfl hplain | rfl | cases he.1
    | createTask request => cases request <;> first | rfl | exact if_pos he
    | mark m => cases m <;> cases he.1
    | _ => first | rfl | cases he.1
  | await e => cases e <;> first | exact absurd rfl hplain | rfl | cases he.1

/-- The shutdown is free to signal children and to cancel tasks. -/
theorem turnMonitor_ignores_shutdown {e : Eff} (he : ShutdownEff e) :
    (turnMonitor config).Ignores .closing e := by
  intro r
  cases e with
  | sync e => cases e <;> first | rfl | cases he
  | await e => cases e <;> first | rfl | cases he

/-- The cleanup loop takes no part in turns. -/
theorem cleanup_conforms :
    (turnMonitor config).Conforms Eff.awaits .idle (cleanupFiber config) := by
  have hignores : ∀ e, CleanupEff e → (turnMonitor config).Ignores .idle e := by
    intro e he
    by_cases hplain : Plain e
    · exact turnMonitor_ignores rfl hplain
    intro r
    unfold CleanupEff at he
    split at he
    · rfl
    · rfl
    · exact absurd (Plain.of_aside he.1) hplain
  exact .of_performs rfl (.inl rfl) (cleanup_performs.prog.mono hignores)
    fun s => (cleanup_performs.next s).mono hignores

/-- `main` takes no part in turns, and cancels tasks in its shutdown only. -/
theorem main_conforms : (turnMonitor config).Conforms Eff.awaits .system (mainFiber config) := by
  -- Startup and polls are no part of turns.
  have hloop : ∀ {σ : Type} {p : Py σ}, PerformsE (LoopEff config) p →
      FollowsTurns config .system p fun _ g => g = .system := fun hp =>
    Monitor.Follows.of_performs (hp.mono fun _ => turnMonitor_ignores_loop) rfl
  have hround : ∀ {σ : Type} (res : Except Exn σ), (turnMonitor config).Follows Eff.awaits .system
      (nextRound endMain res) ((turnMonitor config).RoundEnd fun _ g => g = .system) := by
    intro σ res
    cases res with
    | ok _ => exact ⟨rfl, rfl⟩
    | error _ =>
      obtain ⟨rest, heq, hrest⟩ := endMain_eq
      -- The shutdown cancels tasks, and then does nothing that concerns turns.
      have hend : (turnMonitor config).Follows Eff.awaits .system endMain
          fun _ g => g = .closing := by
        rw [heq]
        refine Monitor.Follows.bind (Q := fun _ g => g = .closing)
          (Follows.perform_sync fun _ => ⟨_, rfl, rfl⟩) fun u g hg => ?_
        subst hg
        exact .of_performs ((hrest u).mono fun _ => turnMonitor_ignores_shutdown) rfl
      refine Monitor.Follows.bind hend fun _ g hg => ?_
      subst hg
      exact ⟨rfl, .inr (.inr rfl)⟩
  refine ⟨fun _ g => g = .system, ?_, ?_⟩
  · refine Monitor.Follows.bind (hloop (performsE_started trivial loop_startup)) fun res g hg => ?_
    subst hg
    split
    · exact ⟨fun _ => rfl, fun _ => ⟨.system, step_other config _, rfl, .inr (.inl rfl)⟩⟩
    · refine Monitor.Follows.bind (hloop loop_pollStart) fun res g hg => ?_
      subst hg
      exact hround res
  · rintro since _ rfl
    refine Monitor.Follows.bind (hloop loop_pollRound) fun res g hg => ?_
    subst hg
    exact hround res

end MatrixDispatcher
