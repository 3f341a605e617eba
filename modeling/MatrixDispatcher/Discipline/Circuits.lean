import MatrixDispatcher.Discipline.Footprint
import MatrixDispatcher.Discipline.Rules
import MatrixDispatcher.Discipline.Supervise

/-!
# Monitors that every program brings back

Some disciplines concern a few places of the source only: where a lock is acquired, or where the
database is written. Each of these places takes the monitor away from a state and brings it back
there, and nothing else that a task does has to do with it. One walk through the programs is enough
for all such monitors.

* `Eff.passive` — the effect neither acquires a lock nor writes the database.
* `Circuit` — what the monitor must say about those places.
* `Circuit.coverage` — every task of the dispatcher then conforms to it.
-/

namespace MatrixDispatcher

open Py Coro

/-- The statement writes. -/
def Stmt.writes : Stmt → Bool
  | .getSince | .getSessionByEvent _ | .recentSessions _ _ | .sessionIds _
  | .getPendingApprovals => false
  | _ => true

/-- The statement is one of the retention cleanup. -/
def Stmt.cleans : Stmt → Bool
  | .deleteStaleAliases _ | .deleteStaleSessions _ | .sweepOrphanAliases => true
  | _ => false

/-- The effect neither acquires a lock nor writes the database. -/
def Eff.passive : Eff → Bool
  | .sync (.execute s) => !s.writes
  | .sync .commit | .sync (.lockTry _) | .await (.lockWait _) => false
  | _ => true

variable {γ α β : Type} {M : Monitor Eff Eff.Ret γ} {g : γ}

/-- From state `g`, the coroutine is accepted and ends in state `g`. -/
abbrev Returning (M : Monitor Eff Eff.Ret γ) (g : γ) (p : Py α) : Prop :=
  M.Follows Eff.awaits g p.run fun _ g' => g' = g

/-- What a monitor must say about the places that a discipline concerns. -/
structure Circuit (M : Monitor Eff Eff.Ret γ) (g : γ) : Prop where
  calm : M.atomic g = false
  final : M.final g
  ignores : ∀ {e}, Eff.passive e = true → M.Ignores g e
  /-- A statement of its own, which is committed. -/
  write : ∀ {s}, s.writes = true → s.cleans = false →
    Returning M g (do let _ ← execute s; commit)
  cleanup : ∀ {days}, Returning M g (Store.runCleanup days)
  acquire : ∀ {room}, Returning M g (acquireRoomLock room)

/-! ## Programs in general -/

namespace Returning

/-- Nothing is done. -/
theorem pure {a : α} : Returning M g (Pure.pure a : Py α) := rfl

/-- An exception ends the program where it is. -/
theorem throw {x : Exn} : Returning M g (MonadExcept.throw x : Py α) := rfl

/-- One program after the other; an exception of the first one skips the second. -/
theorem bind {p : Py α} {f : α → Py β} (hp : Returning M g p) (hf : ∀ a, Returning M g (f a)) :
    Returning M g (p >>= f) := by
  refine Monitor.Follows.bindE (hp.mono fun res g' hg' => ?_)
  subst hg'
  cases res with
  | ok a => exact hf a
  | error x => rfl

/-- The handler starts where the exception was raised. -/
theorem tryCatch {p : Py α} {handler : Exn → Py α} (hp : Returning M g p)
    (hhandler : ∀ x, Returning M g (handler x)) :
    Returning M g (MonadExcept.tryCatch p handler) := by
  refine Monitor.Follows.tryCatch (hp.mono fun res g' hg' => ?_)
  subst hg'
  cases res with
  | ok a => rfl
  | error x => exact hhandler x

/-- The same for a handler that lets cancellations pass. -/
theorem tryExcept {p : Py α} {handler : Exn → Py α} (hp : Returning M g p)
    (hhandler : ∀ x, Returning M g (handler x)) : Returning M g (Py.tryExcept p handler) := by
  refine tryCatch hp fun x => ?_
  split
  · exact hhandler x
  · exact throw

/-- The result of a program, or its exception, as a value. -/
theorem attempt {p : Py α} (hp : Returning M g p) : Returning M g (Coro.attempt p) :=
  Monitor.Follows.attempt (hp.mono fun _ _ hg' => hg')

/-- The last part runs on every way out. -/
theorem finallyDo {p : Py α} {fin : Coro Eff Eff.Ret Unit} (hp : Returning M g p)
    (hfin : M.Follows Eff.awaits g fin fun _ g' => g' = g) :
    Returning M g (Coro.finallyDo p fin) := by
  refine Monitor.Follows.finallyDo (hp.mono fun _ g' hg' => ?_)
  subst hg'
  exact hfin

/-- A loop, by induction on its list. -/
theorem forEach {ι : Type} {xs : List ι} {f : ι → Py Unit} (hf : ∀ x, Returning M g (f x)) :
    Returning M g (Coro.forEach xs f) := by
  induction xs with
  | nil => exact pure
  | cons x rest ih => exact (hf x).bind fun _ => ih

/-- A value that was computed without effects. -/
theorem fromExcept {res : Except Exn α} : Returning M g (Py.fromExcept res) := by
  cases res
  · exact throw
  · exact pure

end Returning

open Returning

namespace Circuit

variable (C : Circuit M g)

include C

/-- A program without locks and writes. -/
theorem quiet {p : Py α} (hp : PerformsE (fun e => Eff.passive e = true) p) : Returning M g p :=
  Monitor.Follows.of_performs (hp.mono fun _ => C.ignores) C.calm

/-- A passive effect that the task performs itself. -/
theorem sync {e : SyncEff} (h : Eff.passive (.sync e) = true) : Returning M g (Py.sync e) :=
  C.quiet (performsE_sync h)

/-- A passive operation that the task waits for. -/
theorem await {e : AwaitEff} (h : Eff.passive (.await e) = true) : Returning M g (Py.await e) :=
  C.quiet (performsE_await h)

/-- `Circuit.sync` for a coroutine that raises no exception. -/
theorem perform {e : SyncEff} (h : Eff.passive (.sync e) = true) :
    M.Follows Eff.awaits g (Coro.perform (Eff.sync e)) fun _ g' => g' = g :=
  Monitor.Follows.of_performs ⟨C.ignores h, fun _ => trivial⟩ C.calm

/-- A statement that only reads. -/
theorem execute {s : Stmt} (h : s.writes = false) : Returning M g (Py.execute s) :=
  C.quiet (performsE_execute (by simp [Eff.passive, h]))

/-- A network operation and its landing. -/
theorem network {e : AwaitEff} (h : Eff.passive (.await e) = true) : Returning M g (Py.network e) :=
  C.quiet (performsE_network h rfl)

/-! ## The database -/

/-- The clock. -/
theorem now : Returning M g Store.now := (C.sync rfl).bind fun _ => Returning.pure

/-- An alias is written, unless the event id is empty. -/
theorem registerAlias {e root : EventId} : Returning M g (Store.registerAlias e root) := by
  rw [Store.registerAlias]
  split
  · exact Returning.pure
  · exact C.write rfl rfl

/-- A session is written at the time that the clock shows. -/
theorem insertSession {root : EventId} {room : RoomId} {agent : AgentName} {session : SessionId} :
    Returning M g (Store.insertSession root room agent session) :=
  C.now.bind fun _ => C.write rfl rfl

/-- So is the time of its last use. -/
theorem touchSession {root : EventId} : Returning M g (Store.touchSession root) :=
  C.now.bind fun _ => C.write rfl rfl

/-- So is the sync token. -/
theorem setSince {since : Token} : Returning M g (Store.setSince since) :=
  C.now.bind fun _ => C.write rfl rfl

/-- So is a pending approval. -/
theorem insertPendingApproval {a : ApprovalId} {root : EventId} {session : SessionId}
    {room : RoomId} {tool : Str} :
    Returning M g (Store.insertPendingApproval a root session room tool) :=
  C.now.bind fun _ => C.write rfl rfl

/-- Its row is deleted and the deletion committed. -/
theorem deletePendingApproval {a : ApprovalId} {site : DeleteSite} :
    Returning M g (Store.deletePendingApproval a site) :=
  C.write rfl rfl

/-! ## Posts -/

/-- A post is no write of the database. -/
theorem postMessage {room : RoomId} {body : Str} {replyTo : Option EventId} :
    Returning M g (postMessage room body replyTo) :=
  C.network rfl

/-- A post whose event id is dropped. -/
theorem notice {room : RoomId} {body : Str} {replyTo : Option EventId} :
    Returning M g (do let _ ← MatrixDispatcher.postMessage room body replyTo) :=
  C.postMessage.bind fun _ => Returning.pure

/-- A post whose event id becomes an alias. -/
theorem postAlias {room : RoomId} {body : Str} {replyTo : Option EventId} {root : EventId} :
    Returning M g (do
      let e ← MatrixDispatcher.postMessage room body replyTo
      Store.registerAlias e root) :=
  C.postMessage.bind fun _ => C.registerAlias

/-- Each chunk is posted, and its alias written; by induction on the chunks. -/
theorem postChunks {room : RoomId} {mention : UserId} {target root : EventId} {i : Nat}
    {chunks : List Str} : Returning M g (postChunks room mention target root i chunks) := by
  induction chunks generalizing i with
  | nil => exact Returning.pure
  | cons chunk chunks ih =>
    exact C.postMessage.bind fun _ => C.registerAlias.bind fun _ => ih

/-- The chunks of a response, after the text was cut. -/
theorem postResponse {room : RoomId} {output : Str} {rc : Int} {session : SessionId}
    {mention : UserId} {maxLen : Nat} {target : EventId} {action : Str} {root : EventId} :
    Returning M g (postResponse room output rc session mention maxLen target action root) := by
  rw [MatrixDispatcher.postResponse]
  split
  · exact C.postAlias
  · exact Returning.fromExcept.bind fun _ => C.postChunks

/-! ## The registry -/

/-- A call of the registry whose exceptions are swallowed. -/
theorem failOpen {default : α} {p : Py α} (hp : Returning M g p) :
    Returning M g (Registry.failOpen default p) := by
  refine (C.sync rfl).bind fun enabled => ?_
  split
  · exact hp.tryExcept fun _ => Returning.pure
  · exact Returning.pure

/-- `_register_session`, with and without a registry. -/
theorem registerSession {session : SessionId} {agent : AgentName} {room : RoomId}
    {dir url : Str} : Returning M g (registerSession session agent room dir url) := by
  refine (C.sync rfl).bind fun enabled => ?_
  split
  · exact C.failOpen (C.network rfl)
  · exact Returning.pure

/-- `_record_pending_if_gated` writes one row if an approval is pending. -/
theorem recordPendingIfGated {agent : AgentName} {room : RoomId} {session : SessionId}
    {root : EventId} {start : Time} :
    Returning M g (recordPendingIfGated agent room session root start) := by
  refine (C.sync rfl).bind fun _ => (C.sync rfl).bind fun enabled => ?_
  split
  · refine (C.failOpen (C.network rfl)).bind fun found => ?_
    split
    · exact Returning.pure
    · exact C.insertPendingApproval.bind fun _ => C.failOpen (C.network rfl)
  · exact Returning.pure

/-! ## Turns -/

/-- The lock is acquired by `Circuit.acquire`; that it is released is passive. -/
theorem withRoomLock {room : RoomId} {body : Py α} (hbody : Returning M g body) :
    Returning M g (withRoomLock room body) :=
  C.acquire.bind fun _ => hbody.finallyDo (C.perform rfl)

/-- A child is started and waited for: all of `RunEff` is passive. -/
theorem runClaude {argv : List Str} {dir : Str} {agent : AgentName} {room : RoomId}
    {timeout : Nat} {turn : Turn} :
    Returning M g (runClaude argv dir agent room timeout turn) := by
  refine C.quiet ((run_runClaude timeout).mono fun e he => ?_)
  unfold RunEff at he
  split at he <;> first | rfl | cases he

/-- The mark of the call, and the child. -/
theorem callRunner {turn : Turn} {dir : Str} {timeout : Nat} :
    Returning M g (callRunner turn dir timeout) :=
  (C.sync rfl).bind fun _ => C.runClaude

/-- A turn of an approval, by the outcome of its child. -/
theorem resumeTurn {config : MatrixDispatcher.Config} {row : PendingRow} {dir : Str}
    {agent : AgentName} {timeout : Nat} :
    Returning M g (resumeTurn config row dir agent timeout) := by
  refine (C.sync rfl).bind fun start => C.callRunner.attempt.bind fun res => ?_
  split
  · exact Returning.throw
  · exact C.postAlias
  · exact C.postAlias
  · exact C.touchSession.bind fun _ => C.postResponse.bind fun _ => C.recordPendingIfGated

/-- A turn of a reply, by the outcome of its child. -/
theorem replyTurn {args : HandlerArgs} {message : Str} {row : SessionRow} {ack : EventId} :
    Returning M g (replyTurn args message row ack) := by
  refine (C.sync rfl).bind fun start => C.callRunner.attempt.bind fun res => ?_
  split
  · exact C.postAlias
  · exact Returning.throw
  · exact C.touchSession.bind fun _ => C.postResponse.bind fun _ => C.recordPendingIfGated

/-- A turn of a new session, by the outcome of its child. -/
theorem spawnTurn {args : HandlerArgs} {message : Str} :
    Returning M g (spawnTurn args message) := by
  refine (C.sync rfl).bind fun session => C.postMessage.bind fun ack => ?_
  refine C.insertSession.bind fun _ => C.registerAlias.bind fun _ => ?_
  refine C.registerSession.bind fun _ => (C.sync rfl).bind fun start => ?_
  refine C.callRunner.attempt.bind fun res => ?_
  split
  · exact C.postAlias
  · exact Returning.throw
  · exact C.postResponse.bind fun _ => C.recordPendingIfGated

/-- The rate limit, and a turn if it allows one. -/
theorem rootTurn {args : HandlerArgs} {message : Str} :
    Returning M g (rootTurn args message) := by
  refine (C.sync rfl).bind fun now => (C.sync rfl).bind fun last => ?_
  dsimp only
  split
  · exact C.notice
  · exact (C.sync rfl).bind fun _ => C.spawnTurn

/-! ## Commands -/

/-- A transcript is read up to its first user message. -/
theorem readFirstUserMessage {session : SessionId} {dir : Str} :
    Returning M g (readFirstUserMessage session dir) := by
  refine (C.sync rfl).bind fun file => ?_
  rcases file with _ | ⟨lines, failure⟩
  · exact Returning.pure
  refine Returning.fromExcept.bind fun summary => ?_
  rcases summary with _ | summary
  · dsimp only
    split
    · exact Returning.pure
    · exact Returning.pure
    · exact Returning.throw
  · exact Returning.pure

/-- The lines of `!sessions`, by induction on the rows. -/
theorem postSessions {room : RoomId} {dir : Str} {header : EventId} {i : Nat}
    {rows : List SessionRow} : Returning M g (postSessions room dir header i rows) := by
  induction rows generalizing i with
  | nil => exact Returning.pure
  | cons row rows ih =>
    exact C.readFirstUserMessage.bind fun _ => C.postMessage.bind fun _ =>
      C.registerAlias.bind fun _ => ih

/-- The header of `!sessions`, and its lines. -/
theorem handleSessionsCommand {room : RoomId} {event : RoomMessageText} {mention : UserId}
    {agent : AgentName} {dir : Str} :
    Returning M g (handleSessionsCommand room event mention agent dir) := by
  refine (C.execute rfl).bind fun rows => ?_
  split
  · exact C.notice
  · exact C.postMessage.bind fun _ => C.postSessions

/-- A transcript is read to its end. -/
theorem readLastNTurns {session : SessionId} {dir : Str} {n : Nat} :
    Returning M g (readLastNTurns session dir n) := by
  refine (C.sync rfl).bind fun file => ?_
  rcases file with _ | ⟨lines, failure⟩
  · exact Returning.pure
  refine Returning.fromExcept.bind fun turns => ?_
  split
  · exact Returning.pure
  · exact Returning.pure
  · exact Returning.throw

/-- The chunks of a recap, by induction. -/
theorem postRecap {room : RoomId} {event : RoomMessageText} {chunks : List Str} :
    Returning M g (postRecap room event chunks) := by
  induction chunks with
  | nil => exact Returning.pure
  | cons chunk chunks ih => exact C.postMessage.bind fun _ => ih

/-- `!recap` for the session that was used last. -/
theorem handleRecapCommand {room : RoomId} {event : RoomMessageText} {mention : UserId}
    {dir : Str} {maxLen : Nat} {arg : Str} :
    Returning M g (handleRecapCommand room event mention dir maxLen arg) := by
  refine (C.execute rfl).bind fun rows => ?_
  split
  · exact C.notice
  · refine C.readLastNTurns.bind fun body => ?_
    split
    · exact C.notice
    · exact Returning.fromExcept.bind fun _ => C.postRecap

/-- `!mirror` writes a session and an alias if it finds a transcript. -/
theorem handleMirrorCommand {room : RoomId} {event : RoomMessageText} {mention : UserId}
    {agent : AgentName} {dir url : Str} :
    Returning M g (handleMirrorCommand room event mention agent dir url) := by
  have hfind : Returning M g (findUnmirroredSessionId dir room) := by
    refine Returning.bind (p := ExceptT.mk (Coro.perform (Eff.sync (.listTranscripts dir))))
      (C.quiet (performsE_mk ⟨rfl, fun _ => trivial⟩)) fun files => ?_
    split
    · exact Returning.pure
    · exact (C.execute rfl).bind fun _ => Returning.pure
  refine hfind.bind fun found => ?_
  split
  · exact C.notice
  · exact C.insertSession.bind fun _ => C.registerSession.bind fun _ => C.postAlias

/-- `!cancel` reads the registrations and the lock. -/
theorem handleCancelCommand {room : RoomId} {event : RoomMessageText} {mention : UserId} :
    Returning M g (handleCancelCommand room event mention) := by
  -- By induction on the number of looks at the registrations that are left.
  have hpoll : ∀ n, Returning M g (pollActive room n) := by
    intro n
    induction n with
    | zero => exact Returning.pure
    | succ n ih =>
      refine (C.await rfl).bind fun _ => (C.sync rfl).bind fun found => ?_
      split
      · exact Returning.pure
      · exact ih
  -- A registered child is found at once, or waited for while the lock is held.
  have hfind : Returning M g (findActive room) := by
    refine (C.sync rfl).bind fun found => ?_
    split
    · exact Returning.pure
    · refine (C.sync rfl).bind fun held => ?_
      split
      · exact hpoll _
      · exact Returning.pure
  refine hfind.bind fun found => ?_
  split
  · exact C.notice
  · refine Returning.bind (Returning.tryCatch ?_ fun x => ?_) fun _ => C.notice
    · exact C.quiet (performsE_mk ⟨rfl, fun _ => trivial⟩)
    · split
      · exact Returning.pure
      · exact Returning.throw

/-- The command that the message names. -/
theorem handleCommand {args : HandlerArgs} {message : Str} :
    Returning M g (handleCommand args message) := by
  rw [MatrixDispatcher.handleCommand]
  dsimp only
  split
  · exact C.notice
  split
  · exact C.handleSessionsCommand
  split
  · exact C.handleRecapCommand
  split
  · exact C.handleMirrorCommand
  split
  · exact C.handleCancelCommand
  · exact C.notice

/-! ## Messages -/

/-- The acknowledgement of a reply, its alias, and the turn. -/
theorem handleReply {args : HandlerArgs} {message : Str} {row : SessionRow} :
    Returning M g (handleReply args message row) := by
  refine C.postMessage.bind fun ack => C.registerAlias.bind fun _ => ?_
  exact C.registerSession.bind fun _ => C.withRoomLock C.replyTurn

/-- A reply to an unknown event. -/
theorem handleOrphan {args : HandlerArgs} {e : EventId} :
    Returning M g (handleOrphan args e) := by
  refine ((C.network rfl).tryExcept fun _ => Returning.pure).bind fun sender => ?_
  split
  · exact C.notice
  · exact Returning.pure

/-- A message, by its thread root and what is found for it. -/
theorem handleEvent {args : HandlerArgs} : Returning M g (handleEvent args) := by
  rw [MatrixDispatcher.handleEvent]
  split
  · exact Returning.pure
  refine Returning.fromExcept.bind fun root => ?_
  rcases root with _ | root
  · dsimp only
    split
    · exact C.handleCommand
    · exact C.withRoomLock C.rootTurn
  refine (C.execute rfl).bind fun row => ?_
  rcases row with _ | row
  · exact C.handleOrphan
  · exact C.handleReply

/-! ## Reconcile passes -/

section

variable {config : MatrixDispatcher.Config}

/-- The row of an approval is deleted before its turn. -/
theorem resumeOnApproval {row : PendingRow} : Returning M g (resumeOnApproval config row) := by
  rw [MatrixDispatcher.resumeOnApproval]
  split
  · exact C.deletePendingApproval
  · split
    · exact Returning.throw
    · exact C.deletePendingApproval.bind fun _ => C.withRoomLock C.resumeTurn

/-- The expiry loop, by induction on the rows. -/
theorem expireStale {now : Int} {rows : List PendingRow} :
    Returning M g (expireStale now rows) := by
  induction rows with
  | nil => exact Returning.pure
  | cons row rows ih =>
    rw [MatrixDispatcher.expireStale]
    split
    · exact C.deletePendingApproval.bind fun _ => ih
    · exact ih.bind fun _ => Returning.pure

/-- A live row, by the state of its approval. -/
theorem reconcileRow {states : List (ApprovalId × ApprovalState)} {row : PendingRow} :
    Returning M g (reconcileRow config states row) := by
  rw [MatrixDispatcher.reconcileRow]
  split
  · exact C.resumeOnApproval
  · exact C.deletePendingApproval.bind fun _ => C.postAlias
  · exact Returning.pure

/-- A pass: the expiry loop, the lookup of the states, and the live rows one by one. -/
theorem reconcileOnce : Returning M g (reconcileOnce config) := by
  refine Returning.finallyDo ?_ (C.perform rfl)
  refine (C.sync rfl).bind fun enabled => ?_
  split
  · refine (C.execute rfl).bind fun rows => ?_
    split
    · exact Returning.pure
    refine C.now.bind fun now => (C.sync rfl).bind fun _ => C.expireStale.bind fun live => ?_
    refine (C.sync rfl).bind fun _ => ?_
    split
    · exact Returning.pure
    refine Returning.bind ?_ fun states => Returning.forEach fun row => C.reconcileRow
    rw [Registry.getApprovalStates]
    split
    · exact Returning.pure
    · exact C.failOpen (C.network rfl)
  · exact Returning.pure

end

/-! ## Loops and tasks -/

section

variable {config : MatrixDispatcher.Config}

/-- The token is stored, and then the handlers are created. -/
theorem processResponse {next : Token} {rooms : Rooms} :
    Returning M g (processResponse config next rooms) := by
  refine C.setSince.bind fun _ => Returning.forEach fun room => ?_
  rw [dispatchRoom]
  split
  · exact Returning.pure
  split
  · exact Returning.throw
  refine Returning.forEach fun event => ?_
  cases event with
  | other => exact Returning.pure
  | text event => exact C.sync rfl

/-- A round of the poll loop, by the outcome of its sync. -/
theorem pollRound {since : Option Token} : Returning M g (pollRound config since) := by
  refine (C.await rfl).attempt.bind fun resp => ?_
  split
  · exact Returning.throw
  · exact (C.await rfl).bind fun _ => Returning.pure
  · exact (C.await rfl).bind fun _ => Returning.pure
  · refine C.processResponse.attempt.bind fun done => ?_
    split
    · exact Returning.throw
    · exact (C.await rfl).bind fun _ => Returning.pure

/-- The stored token, or the priming sync. -/
theorem pollStart : Returning M g pollStart := by
  refine (C.execute rfl).bind fun since => ?_
  split
  · exact Returning.pure
  · refine (C.await rfl).bind fun seed => ?_
    split
    · exact C.setSince.bind fun _ => Returning.pure
    · exact Returning.pure

/-- What `main` does before the poll loop. -/
theorem startup : Returning M g (startup config) := by
  refine Returning.bind ?_ fun _ => (C.await rfl).bind fun _ =>
    (C.sync rfl).bind fun _ => C.sync rfl
  rw [notifyStartup]
  split
  · exact Returning.pure
  · exact C.notice.tryExcept fun _ => Returning.pure

/-- What `main` does after it; the lists it runs over are handled by induction. -/
theorem shutdown : Returning M g shutdown := by
  have hjoin : ∀ t, Returning M g (cancelAndJoin t) := fun t =>
    (C.sync rfl).bind fun _ => (C.await rfl).attempt.bind fun _ => Returning.pure
  -- By induction on the children that are left; one that has exited is passed over.
  have hterminate : ∀ items, Returning M g (terminateAll items) := by
    intro items
    induction items with
    | nil => exact Returning.pure
    | cons item items ih =>
      refine Returning.bind (Returning.tryCatch ?_ fun x => ?_) fun _ => ih
      · exact C.quiet (performsE_mk ⟨rfl, fun _ => trivial⟩)
      · split
        · exact Returning.pure
        · exact Returning.throw
  refine (C.sync rfl).bind fun _ => (hjoin _).bind fun _ => (hjoin _).bind fun _ => ?_
  refine Returning.bind ?_ fun _ => (C.sync rfl).bind fun items => (hterminate _).bind fun _ => ?_
  · refine (C.sync rfl).bind fun enabled => ?_
    split
    · exact ((C.await rfl).tryExcept fun _ => Returning.pure).finallyDo (C.perform rfl)
    · exact Returning.pure
  refine Returning.bind ?_ fun _ => (C.sync rfl).bind fun _ => C.await rfl
  refine (C.sync rfl).bind fun outstanding => ?_
  split
  · refine (C.await rfl).bind fun inTime => ?_
    split
    · exact Returning.pure
    · exact C.await rfl
  · exact Returning.pure

/-- A program that a task ends with. -/
theorem ending {p : Coro Eff Eff.Ret Unit} {σ : Type} {J : σ → γ → Prop}
    (hp : M.Follows Eff.awaits g p fun _ g' => g' = g) :
    M.Follows Eff.awaits g (do p; Coro.ret none) (M.RoundEnd J) :=
  Monitor.Follows.bind hp fun _ _ hg' => hg' ▸ ⟨C.calm, C.final⟩

/-- A round of a loop. -/
theorem round {σ : Type} {p : Py σ} {onEnd : Coro Eff Eff.Ret Unit} (hp : Returning M g p)
    (hend : M.Follows Eff.awaits g onEnd fun _ g' => g' = g) :
    M.Follows Eff.awaits g (do nextRound onEnd (← p.run)) (M.RoundEnd fun _ g' => g' = g) := by
  refine Monitor.Follows.bind hp fun res g' hg' => ?_
  subst hg'
  cases res with
  | ok s => exact ⟨C.calm, rfl⟩
  | error x => exact C.ending hend

/-- The end of a task is passive. -/
theorem endTask : M.Follows Eff.awaits g endTask fun _ g' => g' = g := C.perform rfl

/-- So is the end of `main`, which follows the shutdown. -/
theorem endMain : M.Follows Eff.awaits g endMain fun _ g' => g' = g :=
  Monitor.Follows.bind C.shutdown fun _ _ hg' => hg' ▸ C.endTask

/-- `main` conforms to every circuit. -/
theorem conforms_main : M.Conforms Eff.awaits g (mainFiber config) := by
  refine ⟨fun _ g' => g' = g, ?_, fun s g' hg' => hg' ▸ C.round C.pollRound C.endMain⟩
  refine Monitor.Follows.bind ((C.await rfl).bind fun _ => C.startup) fun res g' hg' => ?_
  subst hg'
  cases res with
  | error x => exact C.ending C.endTask
  | ok _ => exact C.round C.pollStart C.endMain

/-- So does the cleanup loop. -/
theorem conforms_cleanup : M.Conforms Eff.awaits g (cleanupFiber config) := by
  have hround : Returning M g (cleanupRound config) := by
    refine Returning.bind (Returning.tryExcept ?_ fun _ => Returning.pure) fun _ => C.await rfl
    exact C.cleanup.bind fun _ => Returning.pure
  exact ⟨fun _ g' => g' = g, C.round ((C.await rfl).bind fun _ => hround) C.endTask,
    fun s g' hg' => hg' ▸ C.round hround C.endTask⟩

/-- So does the reconcile loop. -/
theorem conforms_reconcile : M.Conforms Eff.awaits g (reconcileFiber config) := by
  have hround : Returning M g (reconcileRound config) :=
    (C.reconcileOnce.tryExcept fun _ => Returning.pure).bind fun _ => C.await rfl
  refine ⟨fun _ g' => g' = g, ?_, fun s g' hg' => hg' ▸ C.round hround C.endTask⟩
  refine Monitor.Follows.bind ((C.await rfl).bind fun _ => C.sync rfl) fun res g' hg' => ?_
  subst hg'
  split
  · exact C.round hround C.endTask
  · exact C.ending C.endTask

/-- So does every handler. -/
theorem conforms_handler {args : HandlerArgs} :
    M.Conforms Eff.awaits g (handlerFiber args) := by
  refine Monitor.Conforms.once ?_
  refine Monitor.Follows.bind ((C.await rfl).bind fun _ => C.handleEvent) fun _ g' hg' => ?_
  subst hg'
  refine Monitor.Follows.mono (fun _ g'' hg'' => ?_) C.endTask
  subst hg''
  exact ⟨C.calm, C.final⟩

end

/-- Every task of the dispatcher conforms to the monitor, from state `g` on. -/
def coverage (config : MatrixDispatcher.Config) : Coverage config M where
  enter _ := g
  ok _ := True
  ok_main := trivial
  create _ := trivial
  atomic _ := C.calm
  conforms {request} _ := by
    cases request with
    | main => exact C.conforms_main
    | cleanup => exact C.conforms_cleanup
    | reconcile => exact C.conforms_reconcile
    | handle args => exact C.conforms_handler

end Circuit

end MatrixDispatcher
