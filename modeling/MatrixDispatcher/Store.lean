import MatrixDispatcher.Runtime.Effect

/-!
# The functions of `db.py`

Each function executes its statements and commits; the pieces between are separate effects, so
that a failure or the end of the process can fall between them.
-/

namespace MatrixDispatcher

namespace Store

open Py

/-- `int(time.time())`. -/
def now : Py Int := do
  let t ← sync .time
  pure t.seconds

def getSince : Py (Option Token) := execute .getSince

def setSince (since : Token) : Py Unit := do
  execute (.setSince since (← now))
  commit

def getSessionByEvent (eventId : EventId) : Py (Option SessionRow) :=
  execute (.getSessionByEvent eventId)

/-- Register a dispatcher-posted event id so that replies to it resolve to the right session. -/
def registerAlias (eventId threadRootId : EventId) : Py Unit := do
  if eventId = [] then pure ()
  else
    execute (.registerAlias eventId threadRootId)
    commit

def insertSession (threadRootId : EventId) (roomId : RoomId) (agent : AgentName)
    (sessionId : SessionId) : Py Unit := do
  execute (.insertSession threadRootId roomId agent sessionId (← now))
  commit

def touchSession (threadRootId : EventId) : Py Unit := do
  execute (.touchSession threadRootId (← now))
  commit

/-- Record a pending approval to reconcile. Idempotent on the approval id. -/
def insertPendingApproval (approvalId : ApprovalId) (threadRootId : EventId)
    (sessionId : SessionId) (roomId : RoomId) (toolName : Str) : Py Unit := do
  execute (.insertPendingApproval
    ⟨approvalId, threadRootId, sessionId, roomId, toolName, ← now⟩)
  commit

def getPendingApprovals : Py (List PendingRow) := execute .getPendingApprovals

def deletePendingApproval (approvalId : ApprovalId) (site : DeleteSite) : Py Unit := do
  execute (.deletePendingApproval approvalId site)
  commit

/-- The numbers of sessions and aliases deleted. -/
def runCleanup (retentionDays : Int) : Py (Nat × Nat) := do
  let cutoff := (← now) - retentionDays * 86400
  let aliases ← execute (.deleteStaleAliases cutoff)
  let sessions ← execute (.deleteStaleSessions cutoff)
  let orphans ← execute .sweepOrphanAliases
  commit
  pure (sessions, aliases + orphans)

end Store

end MatrixDispatcher
