import MatrixDispatcher.Coro.Basic
import MatrixDispatcher.Db
import MatrixDispatcher.Json

/-!
# The effects of the dispatcher

The dispatcher's coroutines are programs over the effects below. `SyncEff` holds what a coroutine
does without giving up the processor: reads of the clock, SQL statements, the shared dictionaries
of `runner.py`, locks that are free, signals. `AwaitEff` holds the operations that are awaited;
each of them can end with an exception, at least with the `CancelledError` of a cancelled task.

* `Eff`, `Eff.Ret` — the effects and the types of their responses.
* `Py` — coroutines that can raise.
* `network` — an awaited operation whose response arrives later than it is made.

Some effects carry data that the program does not compute with, under the heading *observation*:
`Turn`, `DeleteSite` and `Mark` only tell the trace of a run what is going on.
-/

namespace MatrixDispatcher

/-! ## Exceptions -/

/-- The classes of exceptions that occur. -/
inductive Exn where
  /-- `asyncio.CancelledError`, the one class here outside of `Exception`. -/
  | cancelledError
  | timeoutError
  | integrityError
  /-- `sqlite3.OperationalError`, such as a locked database. -/
  | operationalError
  /-- `sqlite3.ProgrammingError`: the database is closed. -/
  | programmingError
  | processLookupError
  /-- `OSError`, such as a missing binary, directory or transcript. -/
  | osError
  | valueError
  | recursionError
  | attributeError
  | keyError
  /-- Any other exception of a client library. -/
  | clientError
  deriving DecidableEq

/-- `except Exception` catches the exception. -/
def Exn.isException : Exn → Bool
  | .cancelledError => false
  | _ => true

/-! ## Tasks and requests -/

/-- A trusted or untrusted `m.room.message` of type `m.text`, with its `source`. -/
structure RoomMessageText where
  eventId : EventId
  sender : UserId
  body : Str
  source : Json

/-- An entry of a room timeline. -/
inductive TimelineEvent where
  | text (event : RoomMessageText)
  | other

/-- The timelines of the joined rooms in a `SyncResponse`. -/
abbrev Rooms := List (RoomId × List TimelineEvent)

/-- What `client.sync` returns: a `SyncResponse`, or an error response. -/
inductive SyncResult where
  | response (nextBatch : Token) (rooms : Rooms)
  | error

/-- The arguments of `handle_event`, except for the client and the database. -/
structure HandlerArgs where
  roomId : RoomId
  event : RoomMessageText
  trustedSender : UserId
  mentionUser : UserId
  maxMessageLength : Nat
  agentName : AgentName
  projectDir : Str
  botUserId : UserId
  subprocessTimeoutSeconds : Nat
  scopedMcpUrl : Str

/-- The tasks that are created in a process. -/
inductive Request where
  | main
  | cleanup
  | reconcile
  | handle (args : HandlerArgs)

/-- Names of tasks. -/
inductive Tid where
  | main
  | cleanup
  | reconcile
  | handler (n : Nat)
  deriving DecidableEq

/-- A child process, numbered in the order of creation. -/
abbrev Pid := Nat

/-! ## Observations -/

/-- Observation: the functions that start a child. -/
inductive RunnerFn where
  | spawnClaude
  | resumeClaude
  deriving DecidableEq

/-- Observation: a call of `spawn_claude` or `resume_claude`, for which session and thread it is
made, the approval on whose account it is made, and the prompt or message it passes on. -/
structure Turn where
  roomId : RoomId
  agentName : AgentName
  sessionId : SessionId
  threadRootId : EventId
  account : Option ApprovalId
  runner : RunnerFn
  text : Str
  deriving DecidableEq

/-- Observation: the place in the source from which `delete_pending_approval` is called. -/
inductive DeleteSite where
  | expired
  | noAgent
  | claim
  | denied
  deriving DecidableEq

/-- Observation: how `_run_claude` was left. -/
inductive Outcome where
  | result
  | timeout
  | raised
  deriving DecidableEq

/-- Observation: a point that a task passes. -/
inductive Mark where
  /-- `spawn_claude` or `resume_claude` is called. -/
  | runnerCall (turn : Turn)
  /-- `_run_claude` is left after it had started a child. -/
  | leftRun (roomId : RoomId) (pid : Pid) (outcome : Outcome)
  /-- `_record_pending_if_gated` is called. -/
  | recording (roomId : RoomId) (sessionId : SessionId) (threadRootId : EventId)
  /-- `reconcile_once` starts its expiry loop with this clock reading. -/
  | sweep (now : Int)
  /-- The expiry loop of `reconcile_once` is over, and leaves these approvals to be reconciled. -/
  | swept (approvalIds : List ApprovalId)
  /-- `reconcile_once` is over, however it ended. -/
  | passOver
  /-- `main` starts to shut down. -/
  | closing
  deriving DecidableEq

/-! ## SQL statements -/

/-- The statements of `db.py` and `commands.py`, with their parameters. -/
inductive Stmt where
  | getSince
  | setSince (since : Token) (now : Int)
  | getSessionByEvent (eventId : EventId)
  | registerAlias (eventId threadRootId : EventId)
  | insertSession (threadRootId : EventId) (roomId : RoomId) (agent : AgentName)
      (sessionId : SessionId) (now : Int)
  | touchSession (threadRootId : EventId) (now : Int)
  | recentSessions (roomId : RoomId) (limit : Nat)
  | sessionIds (roomId : RoomId)
  | insertPendingApproval (row : PendingRow)
  | getPendingApprovals
  | deletePendingApproval (approvalId : ApprovalId) (site : DeleteSite)
  | deleteStaleAliases (cutoff : Int)
  | deleteStaleSessions (cutoff : Int)
  | sweepOrphanAliases

namespace Stmt

/-- What the cursor of a statement is used for. -/
abbrev Ret : Stmt → Type
  | getSince => Option Token
  | getSessionByEvent _ => Option SessionRow
  | recentSessions _ _ => List SessionRow
  | sessionIds _ => List SessionId
  | getPendingApprovals => List PendingRow
  | deleteStaleAliases _ => Nat
  | deleteStaleSessions _ => Nat
  | sweepOrphanAliases => Nat
  | _ => Unit

/-- Execute the statement. -/
def exec (db : Tables) : (s : Stmt) → Except IntegrityError (s.Ret × Tables)
  | getSince => .ok (db.getSince, db)
  | setSince since now => .ok ((), db.setSince since now)
  | getSessionByEvent e => .ok (db.getSessionByEvent e, db)
  | registerAlias e root => (db.registerAlias e root).map ((), ·)
  | insertSession root room agent session now =>
    (db.insertSession root room agent session now).map ((), ·)
  | touchSession root now => .ok ((), db.touchSession root now)
  | recentSessions room limit => .ok (db.recentSessions room limit, db)
  | sessionIds room => .ok (db.sessionIds room, db)
  | insertPendingApproval row => .ok ((), db.insertPendingApproval row)
  | getPendingApprovals => .ok (db.getPendingApprovals, db)
  | deletePendingApproval a _ => .ok ((), db.deletePendingApproval a)
  | deleteStaleAliases cutoff => .ok (db.deleteStaleAliases cutoff)
  | deleteStaleSessions cutoff => db.deleteStaleSessions cutoff
  | sweepOrphanAliases => .ok db.sweepOrphanAliases

end Stmt

/-! ## The registry's rows -/

/-- The states of an approval in `hitl_approvals`. -/
inductive ApprovalState where
  | pending
  | approved
  | denied
  | consumed
  | other (name : Str)
  deriving DecidableEq

/-- The columns that `find_pending_approval` returns. -/
structure PendingApproval where
  approvalId : ApprovalId
  toolName : Option Str
  createdAt : Time

/-- A transcript file: missing, or its lines (`none` for a line that is not JSON) and the
exception, if any, that ends the reading. -/
inductive Transcript where
  | missing
  | file (lines : List Loaded) (failure : Option Exn)

/-! ## Effects -/

/-- Effects during which a task keeps the processor. -/
inductive SyncEff where
  /-- `time.time()`. -/
  | time
  /-- `datetime.now(UTC)`. -/
  | utcnow
  /-- `str(uuid.uuid4())`. -/
  | uuid4
  /-- `db.execute(…)`, with the fetch of the rows. -/
  | execute (s : Stmt)
  /-- `db.commit()`. -/
  | commit
  /-- `db.close()`. -/
  | closeDb
  /-- The start of `_room_lock(room).acquire()`: take the lock if it is free and nobody waits for
  it, or queue for it. -/
  | lockTry (roomId : RoomId)
  | lockRelease (roomId : RoomId)
  /-- `_room_locks.get(room)` and its `locked()`. -/
  | lockLocked (roomId : RoomId)
  | activeGet (roomId : RoomId)
  | activeSet (roomId : RoomId) (pid : Pid)
  | activePop (roomId : RoomId)
  | activeItems
  | lastSpawnGet (roomId : RoomId)
  | lastSpawnSet (roomId : RoomId) (t : Time)
  /-- `proc.kill()`. -/
  | kill (pid : Pid)
  /-- `proc.send_signal(SIGTERM)`, sent for the process of a room. -/
  | sendSignal (roomId : RoomId) (pid : Pid)
  /-- `proc.returncode`. -/
  | returncode (pid : Pid)
  /-- `registry.enabled`. -/
  | registryEnabled
  /-- `self._pool = None`. -/
  | poolClear
  /-- `asyncio.create_task(…)`. -/
  | createTask (request : Request)
  | cancelTask (t : Tid)
  /-- `bool(_handlers)`. -/
  | handlersOutstanding
  /-- The task ends and its done callbacks run. -/
  | taskDone
  | readTranscript (sessionId : SessionId) (projectDir : Str)
  /-- The stems and modification times of `project_jsonl_dir(dir).glob("*.jsonl")`, if the
  directory exists. -/
  | listTranscripts (projectDir : Str)
  | mark (m : Mark)

/-- The type of responses to an effect. -/
abbrev SyncEff.Ret : SyncEff → Type
  | time => Time
  | utcnow => Time
  | uuid4 => SessionId
  | execute s => Except Exn s.Ret
  | commit => Except Exn Unit
  | lockTry _ => Bool
  | lockLocked _ => Bool
  | activeGet _ => Option Pid
  | activeItems => List (RoomId × Pid)
  | lastSpawnGet _ => Option Time
  | kill _ => Except Exn Unit
  | sendSignal _ _ => Except Exn Unit
  | returncode _ => Option Int
  | registryEnabled => Bool
  | handlersOutstanding => Bool
  | readTranscript _ _ => Transcript
  | listTranscripts _ => Except Exn (Option (List (Str × Time)))
  | _ => Unit

/-- Awaited operations. -/
inductive AwaitEff where
  /-- A task that was created begins to run. -/
  | start
  | sleep
  /-- The task goes on after the event loop has seen a response arrive. -/
  | pause
  /-- The rest of `_room_lock(room).acquire()`: wait for the turn in the queue. -/
  | lockWait (roomId : RoomId)
  | sync (since : Option Token)
  | roomSend (roomId : RoomId) (body : Str) (replyTo : Option EventId)
  /-- `client.room_get_event`, with the sender of the event if there is one. -/
  | roomGetEvent (roomId : RoomId) (eventId : EventId)
  | closeClient
  /-- `get_registry()`. -/
  | openRegistry
  | upsertSession (sessionId : SessionId) (agentId : AgentName) (roomId : RoomId)
      (projectDir : Str) (scopedMcpUrl : Option Str)
  /-- The `SELECT` of `find_pending_approval`. -/
  | fetchPending (agentId : AgentName) (since : Time)
  | linkSession (approvalId : ApprovalId) (sessionId : SessionId)
  /-- The `SELECT` of `get_approval_states`. -/
  | fetchStates (approvalIds : List ApprovalId)
  | closePool
  /-- `asyncio.create_subprocess_exec`, with `AGENT_ID` and `AGENT_TYPE` set to the agent. -/
  | exec (argv : List Str) (cwd : Str) (agentId : AgentName) (turn : Turn)
  /-- `asyncio.wait_for(proc.communicate(), timeout)`, with the decoded and stripped outputs. -/
  | communicate (pid : Pid) (timeout : Nat)
  | wait (pid : Pid)
  /-- `proc.communicate()` after the process has exited. -/
  | drain (pid : Pid)
  /-- `await task`. -/
  | join (t : Tid)
  /-- `wait_for(gather(*_handlers), 10)`: whether the handlers ended in time; if not, they are
  cancelled. -/
  | gather
  /-- The rest of that call, once the handlers are cancelled. -/
  | gatherCancelled

/-- The type of values of an operation that does not raise. -/
abbrev AwaitEff.Val : AwaitEff → Type
  | sync _ => SyncResult
  | roomSend _ _ _ => EventId
  | roomGetEvent _ _ => Option UserId
  | fetchPending _ _ => Option PendingApproval
  | fetchStates _ => List (ApprovalId × ApprovalState)
  | exec _ _ _ _ => Pid
  | communicate _ _ => Str × Str
  | gather => Bool
  | _ => Unit

/-- The effects of a task. -/
inductive Eff where
  | sync (e : SyncEff)
  | await (e : AwaitEff)

namespace Eff

/-- The type of responses to an effect. -/
abbrev Ret : Eff → Type
  | sync e => e.Ret
  | await e => Except Exn e.Val

/-- The task gives up the processor at the effect. -/
def awaits : Eff → Bool
  | sync _ => false
  | await _ => true

end Eff

/-- A coroutine of the dispatcher that returns an `α` or raises. -/
abbrev Py (α : Type) := ExceptT Exn (Coro Eff Eff.Ret) α

namespace Py

/-- Perform a synchronous effect. -/
def sync (e : SyncEff) : Py e.Ret := ExceptT.lift (Coro.perform (Eff.sync e))

/-- Await an operation. -/
def await (e : AwaitEff) : Py e.Val := ExceptT.mk (Coro.perform (Eff.await e))

/-- Execute a statement. -/
def execute (s : Stmt) : Py s.Ret := ExceptT.mk (Coro.perform (Eff.sync (.execute s)))

/-- `db.commit()`. -/
def commit : Py Unit := ExceptT.mk (Coro.perform (Eff.sync .commit))

/-- Await an operation of another program: it happens there at one time, and this task goes on
at a later time, when others may have run. -/
def network (e : AwaitEff) : Py e.Val := do
  let res ← Coro.attempt (await e)
  match res with
  | .error .cancelledError => throw .cancelledError
  | .error x => do
    await .pause
    throw x
  | .ok v => do
    await .pause
    pure v

/-- Raise what a function without effects has raised. -/
def fromExcept {α : Type} : Except Exn α → Py α
  | .ok v => pure v
  | .error x => throw x

/-- `try: p except Exception: handler`. -/
def tryExcept {α : Type} (p : Py α) (handler : Exn → Py α) : Py α :=
  tryCatch p fun x => if x.isException then handler x else throw x

end Py

end MatrixDispatcher
