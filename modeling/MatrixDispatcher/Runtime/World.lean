import MatrixDispatcher.Runtime.Effect
import MatrixDispatcher.Coro.Machine
import Mathlib.Data.List.AList

/-!
# The world the dispatcher runs in

The state that the tasks share (the dictionaries of `runner.py`, the locks, the connection to the
database), the state outside of the process (the database file, the children, the approval
registry), and what each effect does to it.

* `World` — the state; `trace` records what happened in a run, latest first.
* `execSync`, `execAwait` — the response to an effect and the world after it, given an `Answer`
  that settles what is not determined by the world.
* `exec` — the two together, with the observation that the effect adds to the trace.
* `Move` — the moves of the other programs: children, operator, registry.

An operation on a flagged (cancelled) task is answered with `CancelledError` and with nothing
else, as the event loop does.
-/

namespace MatrixDispatcher

/-- The rows of `hitl_approvals`, with the child that minted the approval. -/
structure Approval where
  approvalId : ApprovalId
  agentId : AgentName
  toolName : Option Str
  createdAt : Time
  state : ApprovalState
  sessionId : Option SessionId
  /-- Observation: the child of the dispatcher that the approval comes from. -/
  mintedBy : Option Pid

/-- An `asyncio.Lock`: who holds it, and who waits for it, in the order of arrival. -/
structure Lock where
  owner : Option Tid
  waiters : List Tid

/-- The lock that nobody uses. -/
def Lock.free : Lock := ⟨none, []⟩

/-- How a child is doing. -/
inductive ProcStatus where
  | alive
  | exited (rc : Int) (stdout stderr : Str)
  deriving DecidableEq

/-- A child process. -/
structure Proc where
  /-- Observation: the task that started the child. -/
  starter : Tid
  /-- Observation: the turn that the child was started for. -/
  turn : Turn
  argv : List Str
  cwd : Str
  /-- The value of `AGENT_ID` in its environment. -/
  agentId : AgentName
  status : ProcStatus

/-- What a run has done. -/
inductive Obs where
  /-- The poll loop starts with the stored token. -/
  | started (since : Option Token)
  | synced (since : Option Token) (result : SyncResult)
  | dispatched (args : HandlerArgs)
  | posted (t : Tid) (roomId : RoomId) (body : Str) (replyTo : Option EventId) (eventId : EventId)
  /-- A row was written to `pending_approvals`. -/
  | recorded (row : PendingRow)
  /-- The registry answered `get_approval_states`. -/
  | served (states : List (ApprovalId × ApprovalState))
  | signalled (t : Tid) (roomId : RoomId) (pid : Pid)
  | marked (t : Tid) (m : Mark)
  /-- The process died and was started again. -/
  | restarted

/-- The state of the dispatcher and its surroundings. -/
structure World where
  /-- The contents of the database file. -/
  disk : Tables
  /-- What the connection sees: the file, and the writes that are not committed yet. -/
  db : Tables
  dbOpen : Bool
  locks : RoomId → Lock
  /-- `_active_processes`. -/
  active : AList fun _ : RoomId => Pid
  /-- `_last_spawn_at`. -/
  lastSpawn : RoomId → Option Time
  /-- `_handlers`. -/
  handlers : List Tid
  /-- The registry has a pool. -/
  pool : Bool
  /-- The tasks whose cancellation is still to be delivered. -/
  cancelled : List Tid
  finished : List Tid
  /-- The tasks that were created and have not begun to run. -/
  inbox : List (Tid × Request)
  nextHandler : Nat
  /-- The children, by their number. -/
  procs : List Proc
  /-- `hitl_approvals`. -/
  approvals : Table ApprovalId Approval (·.approvalId)
  /-- The `sessions` table of the registry. -/
  registered : List SessionId
  /-- The latest reading of the clock that stamps turns and approvals. -/
  clock : Time
  trace : List Obs

/-- The world in which the dispatcher is started for the first time. -/
def World.initial : World where
  disk := .empty
  db := .empty
  dbOpen := true
  locks _ := .free
  active := ∅
  lastSpawn _ := none
  handlers := []
  pool := false
  cancelled := []
  finished := []
  inbox := [(.main, .main)]
  nextHandler := 0
  procs := []
  approvals := .empty
  registered := []
  clock := 0
  trace := []

/-- What another program or a person does. -/
inductive Move where
  /-- A child asks for an approval and is refused for the time being. -/
  | mint (a : Approval)
  /-- The registry's row of an approval gets a new state. -/
  | setState (a : ApprovalId) (state : ApprovalState)
  | exit (pid : Pid) (rc : Int) (stdout stderr : Str)
  /-- `SIGINT`: the main task is cancelled. -/
  | interrupt

/-- What settles a step that the world does not determine. -/
inductive Answer where
  /-- The effect happens. -/
  | done
  | clock (t : Time)
  | text (s : Str)
  | synced (result : SyncResult)
  | sender (s : Option UserId)
  | transcript (f : Transcript)
  | listing (files : Option (List (Str × Time)))
  | raised (x : Exn)
  /-- The number of a task in the inbox. -/
  | pick (n : Nat)
  | move (m : Move)

/-! ## Processes, locks and approvals -/

/-- Change the status of a child. -/
def setStatus (procs : List Proc) (pid : Pid) (status : ProcStatus) : List Proc :=
  procs.modify pid fun p => { p with status := status }

/-- Some child of that number is alive. -/
def World.Alive (w : World) (pid : Pid) : Prop :=
  ∃ p, w.procs[pid]? = some p ∧ p.status = .alive

/-- The outputs of a child that has exited. -/
def World.exitOf (w : World) (pid : Pid) : Option (Int × Str × Str) :=
  match w.procs[pid]? with
  | some ⟨_, _, _, _, _, .exited rc out err⟩ => some (rc, out, err)
  | _ => none

/-- The state of an approval in the registry. -/
def World.stateOf (w : World) (a : ApprovalId) : Option ApprovalState :=
  (w.approvals.find? a).map (·.state)

/-- The row that `find_pending_approval` selects: of the approvals of the agent that are pending
and not older than `since`, the latest. -/
def latestPending (approvals : List Approval) (agentId : AgentName) (since : Time) :
    Option Approval :=
  latestBy (·.createdAt) <| approvals.filter fun a =>
    a.agentId == agentId && a.state == .pending && decide (since ≤ a.createdAt)

/-- The rows that `get_approval_states` selects. -/
def statesOf (approvals : List Approval) (ids : List ApprovalId) :
    List (ApprovalId × ApprovalState) :=
  (approvals.filter fun a => ids.contains a.approvalId).map fun a => (a.approvalId, a.state)

namespace World

/-- Add to the trace. -/
def observe (w : World) (o : Option Obs) : World := { w with trace := o.toList ++ w.trace }

def setLock (w : World) (room : RoomId) (l : Lock) : World :=
  { w with locks := Function.update w.locks room l }

/-! ## Synchronous effects -/

/-- Execute a statement. It fails for want of a database, of a lock on it, or because it violates
a constraint; then it changes nothing. -/
def execStmt (w : World) (a : Answer) (s : Stmt) : Option (Except Exn s.Ret × World) :=
  match a with
  | .raised .operationalError => some (.error .operationalError, w)
  | .done =>
    if w.dbOpen then
      match s.exec w.db with
      | .ok (r, db) => some (.ok r, { w with db := db })
      | .error _ => some (.error .integrityError, w)
    else some (.error .programmingError, w)
  | _ => none

/-- Commit. If it fails, the writes stay uncommitted. -/
def execCommit (w : World) : Answer → Option (Except Exn Unit × World)
  | .raised .operationalError => some (.error .operationalError, w)
  | .done =>
    if w.dbOpen then some (.ok (), { w with disk := w.db })
    else some (.error .programmingError, w)
  | _ => none

/-- Create a task. -/
def create (w : World) : Request → World
  | .main => { w with inbox := w.inbox ++ [(.main, .main)] }
  | .cleanup => { w with inbox := w.inbox ++ [(.cleanup, .cleanup)] }
  | .reconcile => { w with inbox := w.inbox ++ [(.reconcile, .reconcile)] }
  | .handle args =>
    { w with
      inbox := w.inbox ++ [(Tid.handler w.nextHandler, Request.handle args)]
      handlers := .handler w.nextHandler :: w.handlers
      nextHandler := w.nextHandler + 1 }

/-- A signal to a child: it fails if the transport knows that the child has exited. -/
def signal (w : World) (a : Answer) (pid : Pid) : Option (Except Exn Unit) :=
  match a with
  | .done => some (.ok ())
  | .raised .processLookupError =>
    if (w.exitOf pid).isSome then some (.error .processLookupError) else none
  | _ => none

end World

open World

/-- The response of a synchronous effect of task `t`, and the world after it. -/
def execSync (t : Tid) (a : Answer) (w : World) : (e : SyncEff) → Option (e.Ret × World)
  | .time =>
    match a with
    | .clock now => some (now, w)
    | _ => none
  | .utcnow =>
    match a with
    | .clock now => some (now, { w with clock := now })
    | _ => none
  | .uuid4 =>
    match a with
    | .text s => some (s, w)
    | _ => none
  | .execute s => w.execStmt a s
  | .commit => w.execCommit a
  | .closeDb => some ((), { w with dbOpen := false, db := w.disk })
  | .lockTry room =>
    if (w.locks room).owner = none ∧ (w.locks room).waiters = [] then
      some (true, w.setLock room ⟨some t, []⟩)
    else
      some (false, w.setLock room ⟨(w.locks room).owner, (w.locks room).waiters ++ [t]⟩)
  | .lockRelease room => some ((), w.setLock room ⟨none, (w.locks room).waiters⟩)
  | .lockLocked room => some ((w.locks room).owner.isSome, w)
  | .activeGet room => some (w.active.lookup room, w)
  | .activeSet room pid => some ((), { w with active := w.active.insert room pid })
  | .activePop room => some ((), { w with active := w.active.erase room })
  | .activeItems => some (w.active.entries.reverse.map fun item => (item.1, item.2), w)
  | .lastSpawnGet room => some (w.lastSpawn room, w)
  | .lastSpawnSet room now =>
    some ((), { w with lastSpawn := Function.update w.lastSpawn room (some now) })
  | .kill pid => (w.signal a pid).map (·, w)
  | .sendSignal _ pid => (w.signal a pid).map (·, w)
  | .returncode pid => some ((w.exitOf pid).map (·.1), w)
  | .registryEnabled => some (w.pool, w)
  | .poolClear => some ((), { w with pool := false })
  | .createTask request => some ((), w.create request)
  | .cancelTask u =>
    if u ∈ w.finished then some ((), w)
    else some ((), { w with cancelled := u :: w.cancelled.erase u })
  | .handlersOutstanding => some (!w.handlers.isEmpty, w)
  | .taskDone =>
    some ((), { w with handlers := w.handlers.erase t, finished := t :: w.finished })
  | .readTranscript _ _ =>
    match a with
    | .transcript f => some (f, w)
    | _ => none
  | .listTranscripts _ =>
    match a with
    | .listing files => some (.ok files, w)
    | .raised .osError => some (.error .osError, w)
    | _ => none
  | .mark _ => some ((), w)

/-! ## Awaited operations -/

/-- The operation fails with an exception of its own. -/
def failure {α : Type} (w : World) : Answer → Option (Except Exn α × World)
  | .raised x => if x.isException then some (.error x, w) else none
  | _ => none

/-- The awaited operation of a task that is not being cancelled. -/
def execOperation (t : Tid) (a : Answer) (w : World) :
    (e : AwaitEff) → Option (Except Exn e.Val × World)
  | .start | .sleep | .pause =>
    match a with
    | .done => some (.ok (), w)
    | _ => none
  | .lockWait room =>
    -- the lock goes to the first waiter once it is free
    if (w.locks room).owner = none ∧ (w.locks room).waiters.head? = some t then
      some (.ok (), w.setLock room ⟨some t, (w.locks room).waiters.tail⟩)
    else none
  | .sync _ =>
    match a with
    | .synced result => some (.ok result, w)
    | a => failure w a
  | .roomSend _ _ _ =>
    match a with
    | .text e => some (.ok e, w)
    | a => failure w a
  | .roomGetEvent _ _ =>
    match a with
    | .sender s => some (.ok s, w)
    | a => failure w a
  | .closeClient | .closePool =>
    match a with
    | .done => some (.ok (), w)
    | a => failure w a
  | .openRegistry =>
    -- any failure to build a pool is caught; the client is then a disabled one
    match a with
    | .done => some (.ok (), { w with pool := true })
    | .raised _ => some (.ok (), { w with pool := false })
    | _ => none
  | .upsertSession session _ _ _ _ =>
    match a with
    | .done => some (.ok (), { w with registered := session :: w.registered })
    | a => failure w a
  | .fetchPending agent since =>
    match a with
    | .done =>
      some (.ok ((latestPending w.approvals.rows agent since).map fun row =>
        ⟨row.approvalId, row.toolName, row.createdAt⟩), w)
    | a => failure w a
  | .linkSession approval session =>
    match a with
    | .done =>
      some (.ok (),
        { w with
          approvals := w.approvals.update (·.approvalId == approval)
            ({ · with sessionId := some session }) fun _ => rfl })
    | a => failure w a
  | .fetchStates ids =>
    match a with
    | .done => some (.ok (statesOf w.approvals.rows ids), w)
    | a => failure w a
  | .exec argv cwd agentId turn =>
    match a with
    | .done =>
      some (.ok w.procs.length,
        { w with procs := w.procs ++ [⟨t, turn, argv, cwd, agentId, .alive⟩] })
    | a => failure w a
  | .communicate pid _ =>
    match a with
    | .done => (w.exitOf pid).map fun (_, out, err) => (.ok (out, err), w)
    | .raised .timeoutError => some (.error .timeoutError, w)
    | _ => none
  | .wait pid =>
    match a with
    | .done => if (w.exitOf pid).isSome then some (.ok (), w) else none
    | _ => none
  | .drain pid =>
    match a with
    | .done => if (w.exitOf pid).isSome then some (.ok (), w) else none
    | a => failure w a
  | .join u => if u ∈ w.finished then some (.ok (), w) else none
  | .gather =>
    match a with
    | .done => if w.handlers = [] then some (.ok true, w) else none
    | .raised .timeoutError => some (.ok false, { w with cancelled := w.cancelled ++ w.handlers })
    | _ => none
  | .gatherCancelled => if w.handlers = [] then some (.ok (), w) else none

/-- A task that is cancelled stops waiting for a lock. -/
def deliverCancel (t : Tid) (w : World) (e : AwaitEff) : World :=
  let w := { w with cancelled := w.cancelled.filter (· ≠ t) }
  match e with
  | .lockWait room => w.setLock room ⟨(w.locks room).owner, (w.locks room).waiters.erase t⟩
  | _ => w

/-- The response of an awaited operation of task `t`, and the world after it. -/
def execAwait (t : Tid) (a : Answer) (w : World) (e : AwaitEff) :
    Option (Except Exn e.Val × World) :=
  if t ∈ w.cancelled then some (.error .cancelledError, deliverCancel t w e)
  else execOperation t a w e

/-- The response of an effect of task `t`, and the world after it up to the trace. -/
def execQuietly (t : Tid) (a : Answer) : (e : Eff) → World → Option (e.Ret × World)
  | .sync e, w => execSync t a w e
  | .await e, w => execAwait t a w e

/-- The observation that an effect and its response add to the trace. -/
def obsOf (t : Tid) : (e : Eff) → e.Ret → Option Obs
  | .sync (.execute .getSince), .ok since => some (.started since)
  | .sync (.execute (.insertPendingApproval row)), .ok _ => some (.recorded row)
  | .sync (.createTask (.handle args)), _ => some (.dispatched args)
  | .sync (.sendSignal room pid), _ => some (.signalled t room pid)
  | .sync (.mark m), _ => some (.marked t m)
  | .await (.sync since), .ok result => some (.synced since result)
  | .await (.roomSend room body replyTo), .ok e => some (.posted t room body replyTo e)
  | .await (.fetchStates _), .ok states => some (.served states)
  | _, _ => none

/-- The response of an effect of task `t`, and the world after it. -/
def exec (t : Tid) (a : Answer) (e : Eff) (w : World) : Option (e.Ret × World) :=
  (execQuietly t a e w).map fun (r, w') => (r, w'.observe (obsOf t e r))

/-! ## Moves of the surroundings -/

/-- A move of another program. Approvals get ids that no approval has had. -/
def World.moved (w : World) : Move → Option World
  | .mint a =>
    if h : w.approvals.hasKey a.approvalId = false then
      some { w with approvals := w.approvals.insertNew a h, clock := a.createdAt }
    else none
  | .setState a state =>
    if w.approvals.hasKey a then
      some { w with
        approvals := w.approvals.update (·.approvalId == a) ({ · with state := state })
          fun _ => rfl }
    else none
  | .exit pid rc out err =>
    match w.procs[pid]? with
    | some ⟨_, _, _, _, _, .alive⟩ =>
      some { w with procs := setStatus w.procs pid (.exited rc out err) }
    | _ => none
  | .interrupt =>
    if .main ∈ w.finished then none
    else some { w with cancelled := .main :: w.cancelled.erase .main }

/-- The process dies and another one is started. The database file, the children, the registry
and the clock outlive it. -/
def World.crashed (w : World) : World :=
  { World.initial with
    disk := w.disk
    db := w.disk
    nextHandler := w.nextHandler
    procs := w.procs
    approvals := w.approvals
    registered := w.registered
    clock := w.clock
    trace := .restarted :: w.trace }

end MatrixDispatcher
