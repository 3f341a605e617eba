import MatrixDispatcher.Discipline.Plain
import MatrixDispatcher.Dispatcher

/-!
# Footprints of the tasks

Which effects each kind of task can perform at all: only `main` advances the sync token and
creates tasks, only the reconcile loop deletes pending approvals and calls the runner on account
of an approval. A discipline that is about one kind of task uses this for the others.

* `TurnEff accounts` — the effects of turns, which call the runner on account of `accounts`;
  `Busy` — those of a turn once the runner is called.
* `HandlerEff`, `ReconcileEff`, `CleanupEff`, `MainEff` — the effects of the four kinds of tasks.
  Those of `main` are split into `LoopEff`, with `PollEff` in it, and `ShutdownEff`.
* `handler_performs`, `reconcile_performs`, `cleanup_performs`, `main_performs`.
-/

namespace MatrixDispatcher

open Py Coro

variable {config : MatrixDispatcher.Config} {α : Type}

/-- The effects of turns and of `!cancel`. -/
def TurnEff (accounts : Option ApprovalId → Prop) : Eff → Prop
  | .sync (.lockTry _) | .sync (.lockRelease _) | .sync (.lockLocked _) | .sync .utcnow
  | .sync (.activeGet _) | .sync (.activeSet _ _) | .sync (.activePop _) | .sync (.kill _)
  | .sync (.sendSignal _ _) | .sync (.execute (.insertPendingApproval _))
  | .sync (.mark (.leftRun _ _ _)) | .sync (.mark (.recording _ _ _)) => True
  | .sync (.mark (.runnerCall turn)) => accounts turn.account
  | .await (.lockWait _) | .await (.exec _ _ _ _) | .await (.communicate _ _)
  | .await (.wait _) | .await (.drain _) | .await (.fetchPending _ _) => True
  | e => Plain e

/-- The effects of a turn once the runner is called. -/
def Busy : Eff → Prop
  | .sync (.activeSet _ _) | .sync (.activePop _) | .sync (.kill _)
  | .sync (.execute (.insertPendingApproval _)) | .sync (.mark (.leftRun _ _ _))
  | .sync (.mark (.recording _ _ _)) | .await (.exec _ _ _ _) | .await (.communicate _ _)
  | .await (.wait _) | .await (.drain _) | .await (.fetchPending _ _) => True
  | e => Plain e

/-- The effects of the task of a message: those of turns, and the rate limit in front of them. -/
def HandlerEff : Eff → Prop
  | .await .start | .sync .taskDone | .sync (.lastSpawnGet _) | .sync (.lastSpawnSet _ _) => True
  | e => TurnEff (· = none) e

/-- The effects of the reconcile loop. -/
def ReconcileEff : Eff → Prop
  | .await .start | .sync .taskDone | .sync (.execute .getPendingApprovals)
  | .sync (.execute (.deletePendingApproval _ _)) | .await (.fetchStates _)
  | .sync (.mark (.sweep _)) | .sync (.mark (.swept _)) | .sync (.mark .passOver) => True
  | e => TurnEff (fun _ => True) e

/-- The effects of the cleanup loop. -/
def CleanupEff : Eff → Prop
  | .await .start | .sync .taskDone => True
  | e => Still e

/-- The effects of the poll loop. -/
def PollEff (config : MatrixDispatcher.Config) : Eff → Prop
  | .sync (.execute .getSince) | .sync (.execute (.setSince _ _)) | .await (.sync _) => True
  | .sync (.createTask (.handle args)) => config.agentOf args.roomId = some args.agentName
  | e => Still e

/-- The effects of `main` before its shutdown. -/
def LoopEff (config : MatrixDispatcher.Config) : Eff → Prop
  | .await .start | .sync .taskDone | .await .openRegistry | .sync (.createTask .cleanup)
  | .sync (.createTask .reconcile) => True
  | e => PollEff config e

/-- The effects of the shutdown of `main`. -/
def ShutdownEff : Eff → Prop
  | .sync .closeDb | .sync .activeItems | .sync (.sendSignal _ _) | .sync .registryEnabled
  | .sync .poolClear | .sync (.cancelTask _) | .sync .handlersOutstanding | .sync .taskDone
  | .await .closePool | .await .closeClient | .await (.join _) | .await .gather
  | .await .gatherCancelled => True
  | _ => False

/-- The effects of `main`. -/
def MainEff (config : MatrixDispatcher.Config) (e : Eff) : Prop :=
  LoopEff config e ∨ e = .sync (.mark .closing) ∨ ShutdownEff e

section

variable {accounts : Option ApprovalId → Prop} {e : Eff}

/-- A turn may do what is plain. -/
theorem TurnEff.of_plain (h : Plain e) : TurnEff accounts e := by
  unfold TurnEff
  split <;> trivial

/-- What is plain keeps a turn busy. -/
theorem Busy.of_plain (h : Plain e) : Busy e := by
  unfold Busy
  split <;> trivial

/-- So does what a run of a child does. -/
theorem Busy.of_run {argv : List Str} {dir : Str} {agent : AgentName} {turn : Turn}
    (h : RunEff argv dir agent turn e) : Busy e := by
  unfold RunEff at h
  split at h <;> trivial

/-- So does what is recorded after it. -/
theorem Busy.of_record {room : RoomId} {session : SessionId} {root : EventId}
    (h : RecordEff room session root e) : Busy e := by
  unfold RecordEff at h
  split at h <;> trivial

/-- A turn may be busy. -/
theorem TurnEff.of_busy (h : Busy e) : TurnEff accounts e := by
  unfold Busy at h
  split at h <;> first | trivial | exact .of_plain h

/-- A handler may do what a turn without an approval does. -/
theorem HandlerEff.of_turn (h : TurnEff (· = none) e) : HandlerEff e := by
  unfold HandlerEff
  split <;> trivial

/-- A pass may do what any turn does. -/
theorem ReconcileEff.of_turn (h : TurnEff (fun _ => True) e) : ReconcileEff e := by
  unfold ReconcileEff
  split <;> trivial

/-- A pass may do what is plain. -/
theorem ReconcileEff.of_plain (h : Plain e) : ReconcileEff e := .of_turn (.of_plain h)

/-- The cleanup loop may do what is still. -/
theorem CleanupEff.of_still (h : Still e) : CleanupEff e := by
  unfold CleanupEff
  split <;> trivial

/-- What the cleanup loop does, a handler may do. -/
theorem HandlerEff.of_cleanup (h : CleanupEff e) : HandlerEff e := by
  unfold CleanupEff at h
  split at h
  · trivial
  · trivial
  · exact .of_turn (.of_plain (.of_aside h.1))

/-- The poll loop may do what is still. -/
theorem PollEff.of_still (h : Still e) : PollEff config e := by
  unfold PollEff
  split <;> first | trivial | cases h.1

/-- `main` may do what the poll loop does. -/
theorem LoopEff.of_poll (h : PollEff config e) : LoopEff config e := by
  unfold LoopEff
  split <;> trivial

/-- And so what is still. -/
theorem LoopEff.of_still (h : Still e) : LoopEff config e := .of_poll (.of_still h)

end

/-! ## Turns -/

section

variable {accounts : Option ApprovalId → Prop}

/-- Plain programs are fit for turns. -/
theorem turn_plain {p : Py α} (hp : PerformsE Plain p) : PerformsE (TurnEff accounts) p :=
  hp.mono fun _ => TurnEff.of_plain

/-- The lock adds its own three effects to those of the body. -/
theorem performsE_withRoomLock {P : Eff → Prop} {room : RoomId} {body : Py α}
    (htry : P (.sync (.lockTry room))) (hwait : P (.await (.lockWait room)))
    (hrelease : P (.sync (.lockRelease room))) (hbody : PerformsE P body) :
    PerformsE P (withRoomLock room body) := by
  refine performsE_bind (performsE_bind (performsE_sync htry) fun got => ?_) fun _ => ?_
  · split
    · exact performsE_pure _
    · exact performsE_await hwait
  · exact performsE_finallyDo hbody ⟨hrelease, fun _ => trivial⟩

/-- A turn may take the lock of a room. -/
theorem turn_withRoomLock {room : RoomId} {body : Py α}
    (hbody : PerformsE (TurnEff accounts) body) :
    PerformsE (TurnEff accounts) (withRoomLock room body) :=
  performsE_withRoomLock trivial trivial trivial hbody

/-- It may run a child, whatever its arguments are. -/
theorem turn_runClaude {argv : List Str} {dir : Str} {agent : AgentName} {room : RoomId}
    {timeout : Nat} {turn : Turn} :
    PerformsE (TurnEff accounts) (runClaude argv dir agent room timeout turn) :=
  (run_runClaude timeout).mono fun _ he => .of_busy (.of_run he)

/-- It may call the runner on an account that is allowed. -/
theorem turn_callRunner {turn : Turn} {dir : Str} {timeout : Nat} (h : accounts turn.account) :
    PerformsE (TurnEff accounts) (callRunner turn dir timeout) :=
  performsE_bind (performsE_sync h) fun _ => turn_runClaude

/-- It may record what its child left pending. -/
theorem turn_recordPendingIfGated {agent : AgentName} {room : RoomId} {session : SessionId}
    {root : EventId} {start : Time} :
    PerformsE (TurnEff accounts) (recordPendingIfGated agent room session root start) :=
  (record_recordPendingIfGated start).mono fun _ he => .of_busy (.of_record he)

/-- The turn of an approval is on the account of that approval. -/
theorem turn_resumeTurn {row : PendingRow} {dir : Str} {agent : AgentName} {timeout : Nat}
    (h : accounts (some row.approvalId)) :
    PerformsE (TurnEff accounts) (resumeTurn config row dir agent timeout) := by
  refine performsE_bind (performsE_sync trivial) fun start => ?_
  refine performsE_bind (performsE_attempt (turn_callRunner h)) fun res => ?_
  split
  · exact performsE_throw _
  · exact turn_plain (plain_postAlias _ _ _ _)
  · exact turn_plain (plain_postAlias _ _ _ _)
  · refine performsE_bind (turn_plain (plain_touchSession _)) fun _ => ?_
    refine performsE_bind (turn_plain (plain_postResponse _ _ _ _ _ _ _ _ _)) fun _ => ?_
    exact turn_recordPendingIfGated

end

/-! ## Messages -/

/-- The turn of a reply is on nobody's account. -/
theorem turn_replyTurn {args : HandlerArgs} {message : Str} {row : SessionRow} {ack : EventId} :
    PerformsE (TurnEff (· = none)) (replyTurn args message row ack) := by
  refine performsE_bind (performsE_sync trivial) fun start => ?_
  refine performsE_bind (performsE_attempt (turn_callRunner rfl)) fun res => ?_
  split
  · exact turn_plain (plain_postAlias _ _ _ _)
  · exact performsE_throw _
  · refine performsE_bind (turn_plain (plain_touchSession _)) fun _ => ?_
    refine performsE_bind (turn_plain (plain_postResponse _ _ _ _ _ _ _ _ _)) fun _ => ?_
    exact turn_recordPendingIfGated

/-- Nor is that of a new session. -/
theorem turn_spawnTurn {args : HandlerArgs} {message : Str} :
    PerformsE (TurnEff (· = none)) (spawnTurn args message) := by
  refine performsE_bind (performsE_sync rfl) fun session => ?_
  refine performsE_bind (turn_plain (plain_postMessage _ _ _)) fun ack => ?_
  refine performsE_bind (turn_plain (plain_insertSession _ _ _ _)) fun _ => ?_
  refine performsE_bind (turn_plain (plain_registerAlias _ _)) fun _ => ?_
  refine performsE_bind (turn_plain (plain_registerSession _ _ _ _ _)) fun _ => ?_
  refine performsE_bind (performsE_sync trivial) fun start => ?_
  refine performsE_bind (performsE_attempt (turn_callRunner rfl)) fun res => ?_
  split
  · exact turn_plain (plain_postAlias _ _ _ _)
  · exact performsE_throw _
  · refine performsE_bind (turn_plain (plain_postResponse _ _ _ _ _ _ _ _ _)) fun _ => ?_
    exact turn_recordPendingIfGated

/-- What `!cancel` does is allowed in turns. -/
theorem TurnEff.of_cancel {e : Eff} (h : CancelEff e) : TurnEff accounts e := by
  unfold CancelEff at h
  split at h <;> first | trivial | exact .of_plain (.of_aside h.1)

/-- `!cancel` belongs to no turn, but does nothing that turns may not do. -/
theorem turn_handleCancelCommand {room : RoomId} {event : RoomMessageText} {mention : UserId} :
    PerformsE (TurnEff (· = none)) (handleCancelCommand room event mention) :=
  (cancel_handleCancelCommand room event mention).mono fun _ => TurnEff.of_cancel

/-- Neither do the other commands. -/
theorem turn_handleCommand {args : HandlerArgs} {message : Str} :
    PerformsE (TurnEff (· = none)) (handleCommand args message) := by
  rw [handleCommand]
  dsimp only
  split
  · exact turn_plain (plain_handleHelpCommand _ _ _)
  split
  · exact turn_plain (plain_handleSessionsCommand _ _ _ _ _)
  split
  · exact turn_plain (plain_handleRecapCommand _ _ _ _ _ _)
  split
  · exact turn_plain (plain_handleMirrorCommand _ _ _ _ _ _)
  split
  · exact turn_handleCancelCommand
  · exact turn_plain (plain_notice _ _ _)

/-- A reply up to its turn, and the turn. -/
theorem turn_handleReply {args : HandlerArgs} {message : Str} {row : SessionRow} :
    PerformsE (TurnEff (· = none)) (handleReply args message row) := by
  refine performsE_bind (turn_plain (plain_postMessage _ _ _)) fun ack => ?_
  refine performsE_bind (turn_plain (plain_registerAlias _ _)) fun _ => ?_
  refine performsE_bind (turn_plain (plain_registerSession _ _ _ _ _)) fun _ => ?_
  exact turn_withRoomLock turn_replyTurn

/-- A message at the root of a room reads and writes the timestamp of the rate limit. -/
theorem handler_rootTurn {args : HandlerArgs} {message : Str} :
    PerformsE HandlerEff (rootTurn args message) := by
  have hturn : ∀ {p : Py Unit}, PerformsE (TurnEff (· = none)) p → PerformsE HandlerEff p :=
    fun hp => hp.mono fun _ => HandlerEff.of_turn
  refine performsE_bind (performsE_sync rfl) fun now => ?_
  refine performsE_bind (performsE_sync trivial) fun last => ?_
  dsimp only
  split
  · exact hturn (turn_plain (plain_notice _ _ _))
  · exact performsE_bind (performsE_sync trivial) fun _ => hturn turn_spawnTurn

/-- The effects of `handle_event`. -/
theorem handler_handleEvent (args : HandlerArgs) : PerformsE HandlerEff (handleEvent args) := by
  -- Turns, commands and orphaned replies do nothing that a handler does not.
  have hturn : ∀ {p : Py Unit}, PerformsE (TurnEff (· = none)) p → PerformsE HandlerEff p :=
    fun hp => hp.mono fun _ => HandlerEff.of_turn
  rw [handleEvent]
  split
  · exact performsE_pure _
  refine performsE_bind (performsE_fromExcept _) fun root => ?_
  rcases root with _ | root
  · dsimp only
    split
    · exact hturn turn_handleCommand
    · exact performsE_withRoomLock trivial trivial trivial handler_rootTurn
  refine performsE_bind (performsE_execute rfl) fun row => ?_
  rcases row with _ | row
  · exact hturn (turn_plain (plain_handleOrphan _ _))
  · exact hturn turn_handleReply

/-! ## Reconcile passes -/

/-- Only passes delete rows of `pending_approvals`. -/
theorem reconcile_deletePendingApproval {a : ApprovalId} {site : DeleteSite} :
    PerformsE ReconcileEff (Store.deletePendingApproval a site) :=
  performsE_bind (performsE_execute trivial) fun _ => performsE_commit rfl

/-- Plain programs are fit for passes. -/
theorem reconcile_plain {p : Py α} (hp : PerformsE Plain p) : PerformsE ReconcileEff p :=
  hp.mono fun _ => ReconcileEff.of_plain

/-- `_resume_on_approval` deletes the row and takes a turn. -/
theorem reconcile_resumeOnApproval {row : PendingRow} :
    PerformsE ReconcileEff (resumeOnApproval config row) := by
  rw [resumeOnApproval]
  split
  · exact reconcile_deletePendingApproval
  · split
    · exact performsE_throw _
    · refine performsE_bind reconcile_deletePendingApproval fun _ => ?_
      exact (turn_withRoomLock (turn_resumeTurn trivial)).mono fun _ => ReconcileEff.of_turn

/-- A live row is resumed, denied or left alone. -/
theorem reconcile_reconcileRow {states : List (ApprovalId × ApprovalState)} {row : PendingRow} :
    PerformsE ReconcileEff (reconcileRow config states row) := by
  rw [reconcileRow]
  split
  · exact reconcile_resumeOnApproval
  · refine performsE_bind reconcile_deletePendingApproval fun _ => ?_
    exact reconcile_plain (plain_postAlias _ _ _ _)
  · exact performsE_pure _

/-- The effects of `reconcile_once`. -/
theorem reconcile_reconcileOnce : PerformsE ReconcileEff (reconcileOnce config) := by
  refine performsE_finallyDo ?_ ⟨trivial, fun _ => trivial⟩
  refine performsE_bind (performsE_sync rfl) fun enabled => ?_
  split
  · refine performsE_bind (performsE_execute trivial) fun pending => ?_
    split
    · exact performsE_pure _
    refine performsE_bind (reconcile_plain plain_now) fun now => ?_
    refine performsE_bind (performsE_sync trivial) fun _ => ?_
    refine performsE_bind (performsE_expireStale (fun _ _ _ => trivial) rfl) fun live => ?_
    refine performsE_bind (performsE_sync trivial) fun _ => ?_
    split
    · exact performsE_pure _
    · refine performsE_bind (performsE_getApprovalStates rfl trivial rfl) fun states => ?_
      exact performsE_forEach fun row => reconcile_reconcileRow
  · exact performsE_pure _

/-- Its exceptions are swallowed, and the loop sleeps. -/
theorem reconcile_reconcileRound : PerformsE ReconcileEff (reconcileRound config) :=
  performsE_bind (performsE_tryExcept reconcile_reconcileOnce fun _ => performsE_pure _) fun _ =>
    performsE_await rfl

/-! ## Polling -/

/-- The token is stored by a statement of its own. -/
theorem polls_setSince {token : Token} : PerformsE (PollEff config) (Store.setSince token) := by
  refine performsE_bind (still_now.mono fun _ => PollEff.of_still) fun _ => ?_
  exact performsE_bind (performsE_execute trivial) fun _ => performsE_commit ⟨rfl, rfl⟩

/-- Messages are dispatched with the agent of their room. -/
theorem polls_dispatchRoom {room : RoomId × List TimelineEvent} :
    PerformsE (PollEff config) (dispatchRoom config room) := by
  rw [dispatchRoom]
  split
  · exact performsE_pure _
  · next agent cfg hagent =>
    split
    · exact performsE_throw _
    · refine performsE_forEach fun event => ?_
      cases event with
      | other => exact performsE_pure _
      | text event =>
        refine performsE_sync ?_
        change config.agentOf room.1 = some agent
        rw [Config.agentOf, hagent]
        rfl

/-- The effects of a round of the poll loop, whose messages become handlers. -/
theorem polls_pollRound {since : Option Token} :
    PerformsE (PollEff config) (pollRound config since) := by
  refine performsE_bind (performsE_attempt (performsE_await trivial)) fun resp => ?_
  split
  · exact performsE_throw _
  · exact performsE_bind (performsE_await ⟨rfl, rfl⟩) fun _ => performsE_pure _
  · exact performsE_bind (performsE_await ⟨rfl, rfl⟩) fun _ => performsE_pure _
  · refine performsE_bind (performsE_attempt ?_) fun done => ?_
    · exact performsE_bind polls_setSince fun _ => performsE_forEach fun _ => polls_dispatchRoom
    · split
      · exact performsE_throw _
      · exact performsE_bind (performsE_await ⟨rfl, rfl⟩) fun _ => performsE_pure _

/-- The effects of the priming sync. -/
theorem polls_pollStart : PerformsE (PollEff config) pollStart := by
  refine performsE_bind (performsE_execute trivial) fun since => ?_
  split
  · exact performsE_pure _
  · refine performsE_bind (performsE_await trivial) fun seed => ?_
    split
    · exact performsE_bind polls_setSince fun _ => performsE_pure _
    · exact performsE_pure _

/-- The poll loop runs in `main`. -/
theorem loop_pollRound {since : Option Token} :
    PerformsE (LoopEff config) (pollRound config since) :=
  polls_pollRound.mono fun _ => LoopEff.of_poll

/-- So does the priming sync. -/
theorem loop_pollStart : PerformsE (LoopEff config) pollStart :=
  polls_pollStart.mono fun _ => LoopEff.of_poll

/-- `main` opens the registry, and creates the two other loops. -/
theorem loop_startup : PerformsE (LoopEff config) (startup config) := by
  refine performsE_bind ?_ fun _ => ?_
  · rw [notifyStartup]
    split
    · exact performsE_pure _
    · exact performsE_tryExcept ((still_notice _ _ _).mono fun _ => LoopEff.of_still) fun _ =>
        performsE_pure _
  refine performsE_bind (performsE_await trivial) fun _ => ?_
  exact performsE_bind (performsE_sync trivial) fun _ => performsE_sync trivial

/-- The shutdown is the announcement that it begins, and effects of its own. -/
theorem shutdown_eq : ∃ rest : Unit → Py Unit, shutdown = (do rest (← sync (.mark .closing))) ∧
    ∀ u, PerformsE ShutdownEff (rest u) := by
  have hjoin : ∀ t, PerformsE ShutdownEff (cancelAndJoin t) := fun t =>
    performsE_bind (performsE_sync trivial) fun _ =>
      performsE_bind (performsE_attempt (performsE_await trivial)) fun _ => performsE_pure _
  -- By induction on the children that are registered.
  have hterminate : ∀ items, PerformsE ShutdownEff (terminateAll items) := by
    intro items
    induction items with
    | nil => exact performsE_pure _
    | cons item items ih =>
      refine performsE_bind ?_ fun _ => ih
      refine performsE_tryCatch (performsE_mk ⟨trivial, fun _ => trivial⟩) fun x => ?_
      split
      · exact performsE_pure _
      · exact performsE_throw _
  refine ⟨_, rfl, fun _ => ?_⟩
  refine performsE_bind (hjoin _) fun _ => performsE_bind (hjoin _) fun _ => ?_
  refine performsE_bind ?_ fun _ => ?_
  · refine performsE_bind (performsE_sync trivial) fun enabled => ?_
    split
    · refine performsE_finallyDo (performsE_tryExcept (performsE_await trivial) fun _ =>
        performsE_pure _) ⟨trivial, fun _ => trivial⟩
    · exact performsE_pure _
  refine performsE_bind (performsE_sync trivial) fun items => ?_
  refine performsE_bind (hterminate _) fun _ => ?_
  refine performsE_bind ?_ fun _ => ?_
  · refine performsE_bind (performsE_sync trivial) fun outstanding => ?_
    split
    · refine performsE_bind (performsE_await trivial) fun inTime => ?_
      split
      · exact performsE_pure _
      · exact performsE_await trivial
    · exact performsE_pure _
  exact performsE_bind (performsE_sync trivial) fun _ => performsE_await trivial

/-- The end of `main`, in the same form. -/
theorem endMain_eq : ∃ rest : Unit → Coro Eff Eff.Ret Unit,
    endMain = (do rest (← Coro.perform (Eff.sync (.mark .closing)))) ∧
      ∀ u, (rest u).Performs ShutdownEff := by
  obtain ⟨rest, heq, hrest⟩ := shutdown_eq
  refine ⟨fun u => do
    let _ ← (rest u).run
    endTask, ?_, fun u => Performs.bind (hrest u) fun _ => ⟨trivial, fun _ => trivial⟩⟩
  rw [endMain, heq]
  rfl

/-! ## Tasks -/

/-- Every effect of the fiber satisfies `P`. -/
structure FiberPerforms (P : Eff → Prop) (fiber : Fiber Eff Eff.Ret) : Prop where
  prog : fiber.prog.Performs P
  next : ∀ s, (fiber.next s).Performs P

/-- The end of a task is one effect. -/
theorem performs_endTask {P : Eff → Prop} (h : P (.sync .taskDone)) : endTask.Performs P :=
  ⟨h, fun _ => trivial⟩

/-- What `nextRound` adds to a round. -/
theorem performs_nextRound {P : Eff → Prop} {onEnd : Coro Eff Eff.Ret Unit}
    (hend : onEnd.Performs P) {res : Except Exn α} : (nextRound onEnd res).Performs P := by
  cases res with
  | ok s => exact trivial
  | error x => exact Performs.bind hend fun _ => trivial

/-- A task that is started, runs `p` and ends. -/
theorem performsE_started {P : Eff → Prop} (hstart : P (.await .start)) {p : Py α}
    (hp : PerformsE P p) : PerformsE P (do Py.await .start; p) :=
  performsE_bind (performsE_await hstart) fun _ => hp

/-- The effects of a handler from its start to its end. -/
theorem handler_performs (args : HandlerArgs) : FiberPerforms HandlerEff (handlerFiber args) := by
  refine ⟨Performs.bind (Performs.bind ?_ fun _ => ⟨trivial, fun _ => trivial⟩) fun _ => trivial,
    fun _ => trivial⟩
  exact performsE_started trivial (handler_handleEvent args)

/-- The effects of the reconcile loop over all its rounds. -/
theorem reconcile_performs : FiberPerforms ReconcileEff (reconcileFiber config) := by
  have hround : ∀ p : Py Unit, PerformsE ReconcileEff p →
      Performs ReconcileEff (do nextRound endTask (← p.run)) := fun p hp =>
    Performs.bind hp fun _ => performs_nextRound (performs_endTask trivial)
  refine ⟨Performs.bind (performsE_started trivial (performsE_sync rfl)) fun res => ?_,
    fun _ => hround _ reconcile_reconcileRound⟩
  split
  · exact hround _ reconcile_reconcileRound
  · exact ⟨trivial, fun _ => trivial⟩

/-- The effects of the cleanup loop over all its rounds. -/
theorem cleanup_performs : FiberPerforms CleanupEff (cleanupFiber config) := by
  have hstill : PerformsE CleanupEff (cleanupRound config) :=
    (still_cleanupRound _).mono fun _ => CleanupEff.of_still
  have hround : ∀ p : Py Unit, PerformsE CleanupEff p →
      Performs CleanupEff (do nextRound endTask (← p.run)) := fun p hp =>
    Performs.bind hp fun _ => performs_nextRound (performs_endTask trivial)
  exact ⟨hround _ (performsE_started trivial hstill), fun _ => hround _ hstill⟩

/-- The effects of `main`, the shutdown among them. -/
theorem main_performs : FiberPerforms (MainEff config) (mainFiber config) := by
  have hend : endMain.Performs (MainEff config) := by
    obtain ⟨rest, heq, hrest⟩ := endMain_eq
    rw [heq]
    exact ⟨.inr (.inl rfl), fun u => (hrest u).mono fun _ h => .inr (.inr h)⟩
  have hloop : ∀ {σ : Type} {p : Py σ}, PerformsE (LoopEff config) p →
      p.run.Performs (MainEff config) := fun hp => hp.mono fun _ => .inl
  refine ⟨Performs.bind (hloop (performsE_started trivial loop_startup)) fun res => ?_,
    fun since => Performs.bind (hloop loop_pollRound) fun _ => performs_nextRound hend⟩
  split
  · exact ⟨.inl trivial, fun _ => trivial⟩
  · exact Performs.bind (hloop loop_pollStart) fun _ => performs_nextRound hend

end MatrixDispatcher
