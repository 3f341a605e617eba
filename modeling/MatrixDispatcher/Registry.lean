import MatrixDispatcher.Runner

/-!
# The registry client

The methods of `RegistryClient`. All calls are fail-open: without a pool a method does nothing,
and an exception of the database is swallowed.
-/

namespace MatrixDispatcher

namespace Registry

open Py

/-- `if self._pool is None: return default`, and otherwise `p` with its exceptions swallowed. -/
def failOpen {α : Type} (default : α) (p : Py α) : Py α := do
  if ← sync .registryEnabled then tryExcept p fun _ => pure default
  else pure default

/-- Insert or refresh a `sessions` row for this dispatcher session. -/
def upsertSession (sessionId : SessionId) (agentId : AgentName) (roomId : RoomId)
    (projectDir : Str) (scopedMcpUrl : Option Str) : Py Unit :=
  failOpen () (network (.upsertSession sessionId agentId roomId projectDir scopedMcpUrl))

/-- The most recent still-pending approval of `agentId` created at or after `sinceTs`. -/
def findPendingApproval (agentId : AgentName) (sinceTs : Time) : Py (Option PendingApproval) :=
  failOpen none (network (.fetchPending agentId sinceTs))

/-- Attach an approval's originating session for the audit trail. -/
def linkSession (approvalId : ApprovalId) (sessionId : SessionId) : Py Unit :=
  failOpen () (network (.linkSession approvalId sessionId))

/-- The states of the given approvals, those that the registry has. -/
def getApprovalStates (approvalIds : List ApprovalId) :
    Py (List (ApprovalId × ApprovalState)) := do
  if approvalIds = [] then pure []
  else failOpen [] (network (.fetchStates approvalIds))

def close : Py Unit := do
  if ← sync .registryEnabled then
    Coro.finallyDo (tryExcept (await .closePool) fun _ => pure ())
      (Coro.perform (Eff.sync .poolClear))
  else pure ()

end Registry

end MatrixDispatcher
