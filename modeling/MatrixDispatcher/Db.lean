import MatrixDispatcher.Config
import MatrixDispatcher.Sql.Table
import Mathlib.Data.List.Sort

/-!
# The SQLite store

The four tables of `init_db` and the statements of `db.py`. A statement that violates a
constraint fails with an exception and leaves the tables as they are; foreign keys are enforced,
as `open_db` asks for. The clock reading that a function of `db.py` takes is an argument here.

* `Tables` — the contents of the database.
* `Tables.getSessionByEvent`, `Tables.registerAlias`, … — the functions of `db.py`.
* `Tables.runCleanup` — the three `DELETE`s of the retention cleanup, in their order.
-/

namespace MatrixDispatcher

/-- The constraint violations that `sqlite3.IntegrityError` reports here. -/
inductive IntegrityError where
  | unique
  | foreignKey
  deriving DecidableEq

/-- A row of `sessions`. -/
structure SessionRow where
  threadRootId : EventId
  roomId : RoomId
  agent : AgentName
  sessionId : SessionId
  createdAt : Int
  lastUsedAt : Int
  deriving DecidableEq

/-- A row of `event_aliases`. -/
structure AliasRow where
  eventId : EventId
  threadRootId : EventId
  deriving DecidableEq

/-- A row of `poll_state`. -/
structure PollRow where
  roomId : RoomId
  since : Token
  updatedAt : Int
  deriving DecidableEq

/-- A row of `pending_approvals`. -/
structure PendingRow where
  approvalId : ApprovalId
  threadRootId : EventId
  sessionId : SessionId
  roomId : RoomId
  toolName : Str
  createdAt : Int
  deriving DecidableEq

/-- The contents of the database. -/
structure Tables where
  sessions : Table EventId SessionRow (·.threadRootId)
  eventAliases : Table EventId AliasRow (·.eventId)
  pollState : Table RoomId PollRow (·.roomId)
  pendingApprovals : Table ApprovalId PendingRow (·.approvalId)

namespace Tables

/-- The database that `init_db` creates. -/
def empty : Tables := ⟨.empty, .empty, .empty, .empty⟩

/-! ## `poll_state` -/

/-- The key under which the one sync token is stored. -/
def globalKey : RoomId := lit "global"

def getSince (db : Tables) : Option Token := (db.pollState.find? globalKey).map (·.since)

def setSince (db : Tables) (since : Token) (now : Int) : Tables :=
  { db with pollState := db.pollState.insertOrReplace ⟨globalKey, since, now⟩ }

/-! ## `sessions` and `event_aliases` -/

def getSession (db : Tables) (threadRootId : EventId) : Option SessionRow :=
  db.sessions.find? threadRootId

/-- Look up a session by any related event id: thread root, ack, or response chunk. -/
def getSessionByEvent (db : Tables) (eventId : EventId) : Option SessionRow :=
  match db.sessions.find? eventId with
  | some row => some row
  | none =>
    match db.eventAliases.find? eventId with
    | some row => db.sessions.find? row.threadRootId
    | none => none

/-- `INSERT OR IGNORE` into `event_aliases`: a known event id is left alone, and an unknown
thread root violates the foreign key. -/
def registerAlias (db : Tables) (eventId threadRootId : EventId) :
    Except IntegrityError Tables :=
  if eventId = [] then .ok db
  else if h : db.eventAliases.hasKey eventId = false then
    if db.sessions.hasKey threadRootId then
      .ok { db with eventAliases := db.eventAliases.insertNew ⟨eventId, threadRootId⟩ h }
    else .error .foreignKey
  else .ok db

def insertSession (db : Tables) (threadRootId : EventId) (roomId : RoomId) (agent : AgentName)
    (sessionId : SessionId) (now : Int) : Except IntegrityError Tables :=
  if h : db.sessions.hasKey threadRootId = false then
    let row : SessionRow := ⟨threadRootId, roomId, agent, sessionId, now, now⟩
    .ok { db with sessions := db.sessions.insertNew row h }
  else .error .unique

def touchSession (db : Tables) (threadRootId : EventId) (now : Int) : Tables :=
  let touched (row : SessionRow) : Bool := row.threadRootId == threadRootId
  { db with sessions := db.sessions.update touched ({ · with lastUsedAt := now }) fun _ => rfl }

/-- `SELECT * FROM sessions WHERE room_id = ? ORDER BY last_used_at DESC LIMIT ?`. SQLite reads
`idx_last_used` backwards, so that of two rows used at the same time the later one comes first. -/
def recentSessions (db : Tables) (roomId : RoomId) (limit : Nat) : List SessionRow :=
  ((db.sessions.rows.filter (·.roomId == roomId)).reverse.insertionSort
    fun a b => b.lastUsedAt ≤ a.lastUsedAt).take limit

/-- `SELECT session_id FROM sessions WHERE room_id = ?`. -/
def sessionIds (db : Tables) (roomId : RoomId) : List SessionId :=
  (db.sessions.rows.filter (·.roomId == roomId)).map (·.sessionId)

/-! ## `pending_approvals` -/

def insertPendingApproval (db : Tables) (row : PendingRow) : Tables :=
  { db with pendingApprovals := db.pendingApprovals.insertOrReplace row }

def getPendingApprovals (db : Tables) : List PendingRow := db.pendingApprovals.rows

def deletePendingApproval (db : Tables) (approvalId : ApprovalId) : Tables :=
  { db with pendingApprovals :=
      db.pendingApprovals.deleteWhere fun row => row.approvalId == approvalId }

/-! ## Retention cleanup -/

/-- The session has not been used since `cutoff`. -/
def stale (cutoff : Int) (row : SessionRow) : Bool := decide (row.lastUsedAt < cutoff)

/-- The thread root of `row` is that of a session not used since `cutoff`. -/
def staleAlias (db : Tables) (cutoff : Int) (row : AliasRow) : Bool :=
  (db.sessions.find? row.threadRootId).any (stale cutoff)

/-- The thread root of `row` is that of no session. -/
def orphanAlias (db : Tables) (row : AliasRow) : Bool := !db.sessions.hasKey row.threadRootId

/-- `DELETE FROM event_aliases WHERE thread_root_id IN (…)`, with its row count. -/
def deleteStaleAliases (db : Tables) (cutoff : Int) : Nat × Tables :=
  (db.eventAliases.count (db.staleAlias cutoff),
    { db with eventAliases := db.eventAliases.deleteWhere (db.staleAlias cutoff) })

/-- `DELETE FROM sessions WHERE last_used_at < ?`, with its row count. Without `ON DELETE CASCADE`
it fails while an alias refers to a row it deletes. -/
def deleteStaleSessions (db : Tables) (cutoff : Int) : Except IntegrityError (Nat × Tables) :=
  if db.eventAliases.rows.any (db.staleAlias cutoff) then .error .foreignKey
  else .ok (db.sessions.count (stale cutoff),
    { db with sessions := db.sessions.deleteWhere (stale cutoff) })

/-- `DELETE FROM event_aliases WHERE thread_root_id NOT IN (…)`, with its row count. -/
def sweepOrphanAliases (db : Tables) : Nat × Tables :=
  (db.eventAliases.count db.orphanAlias,
    { db with eventAliases := db.eventAliases.deleteWhere db.orphanAlias })

/-- `run_cleanup`: the number of sessions and of aliases deleted. If the second statement fails,
the first one has been executed. -/
def runCleanup (db : Tables) (retentionDays : Int) (now : Int) :
    Except IntegrityError (Nat × Nat) × Tables :=
  let cutoff := now - retentionDays * 86400
  let (aliases, db₁) := db.deleteStaleAliases cutoff
  match db₁.deleteStaleSessions cutoff with
  | .error e => (.error e, db₁)
  | .ok (sessions, db₂) =>
    let (orphans, db₃) := db₂.sweepOrphanAliases
    (.ok (sessions, aliases + orphans), db₃)

/-- Once the aliases of stale sessions are deleted, no alias refers to a stale session. -/
theorem any_staleAlias_deleteStaleAliases (db : Tables) (cutoff : Int) :
    (db.deleteStaleAliases cutoff).2.eventAliases.rows.any
      ((db.deleteStaleAliases cutoff).2.staleAlias cutoff) = false := by
  refine List.any_eq_false.mpr fun row hrow => ?_
  have hnot : db.staleAlias cutoff row = false := (Table.mem_deleteWhere.mp hrow).2
  exact Bool.eq_false_iff.mp hnot

section

variable (db : Tables) (retentionDays now : Int)

/-- The cleanup does not fail, and this is what it leaves. -/
theorem runCleanup_eq : ∃ n, db.runCleanup retentionDays now =
    (.ok n,
      { db with
        sessions := db.sessions.deleteWhere (stale (now - retentionDays * 86400))
        eventAliases := (db.eventAliases.deleteWhere
          (db.staleAlias (now - retentionDays * 86400))).deleteWhere fun row =>
            !(db.sessions.deleteWhere (stale (now - retentionDays * 86400))).hasKey
              row.threadRootId }) := by
  simp only [runCleanup, deleteStaleSessions, any_staleAlias_deleteStaleAliases]
  exact ⟨_, rfl⟩

theorem runCleanup_ok : ∃ n, (db.runCleanup retentionDays now).1 = .ok n :=
  (db.runCleanup_eq retentionDays now).imp fun _ h => by rw [h]

theorem runCleanup_sessions : (db.runCleanup retentionDays now).2.sessions =
    db.sessions.deleteWhere (stale (now - retentionDays * 86400)) := by
  obtain ⟨_, h⟩ := db.runCleanup_eq retentionDays now
  rw [h]

/-- An alias survives the cleanup if its session does. -/
theorem find?_runCleanup_eventAliases (e : EventId) :
    (db.runCleanup retentionDays now).2.eventAliases.find? e =
      (db.eventAliases.find? e).filter fun row =>
        (db.runCleanup retentionDays now).2.sessions.hasKey row.threadRootId := by
  obtain ⟨_, h⟩ := db.runCleanup_eq retentionDays now
  simp only [h, Table.find?_deleteWhere, Table.hasKey]
  rcases db.eventAliases.find? e with _ | row
  · rfl
  -- a stale session keeps no alias, and the sweep takes the aliases of no session
  rcases hsession : db.sessions.find? row.threadRootId with _ | session
  · simp [Option.filter, staleAlias, hsession]
  · cases hstale : stale (now - retentionDays * 86400) session <;>
      simp [Option.filter, staleAlias, hsession, hstale]

end

end Tables

end MatrixDispatcher
