import MatrixDispatcher.Registry

/-!
# Resume on approval

Session-registry writes, post-turn pending detection, and the reconcile loop that resumes a
session once its operator approval lands.
-/

namespace MatrixDispatcher

open Py

/-- Best-effort upsert of the registry's `sessions` row for this turn. -/
def registerSession (sessionId : SessionId) (agentName : AgentName) (roomId : RoomId)
    (projectDir scopedMcpUrl : Str) : Py Unit := do
  if ← sync .registryEnabled then
    Registry.upsertSession sessionId agentName roomId projectDir
      (if scopedMcpUrl = [] then none else some scopedMcpUrl)
  else pure ()

/-- After a turn exits, correlate the approval it still waits for, if there is one, to it. -/
def recordPendingIfGated (agentName : AgentName) (roomId : RoomId) (sessionId : SessionId)
    (threadRootId : EventId) (turnStart : Time) : Py Unit := do
  sync (.mark (.recording roomId sessionId threadRootId))
  if ← sync .registryEnabled then
    match ← Registry.findPendingApproval agentName turnStart with
    | none => pure ()
    | some pending =>
      Store.insertPendingApproval pending.approvalId threadRootId sessionId roomId
        (pending.toolName.getD [])
      Registry.linkSession pending.approvalId sessionId
  else pure ()

/-- The message that makes the agent retry its call. -/
def nudge (toolName : Str) (approvalId : ApprovalId) : Str :=
  lit "Operator approved your pending request for `" ++ toolName ++ lit "` (approval " ++
    approvalId ++ lit "). Retry the exact same tool call now — same arguments — to consume the " ++
    lit "approval."

/-- The turn of `_resume_on_approval`, under the room lock. -/
def resumeTurn (config : Config) (row : PendingRow) (projectDir : Str) (agentName : AgentName)
    (timeout : Nat) : Py Unit := do
  let mentionUser := config.mentionUser.getD []
  let turnStart ← sync .utcnow
  let res ← Coro.attempt (resumeClaude row.sessionId (nudge row.toolName row.approvalId)
    projectDir agentName row.roomId timeout row.threadRootId (some row.approvalId))
  match res with
  | .error .cancelledError => throw .cancelledError
  | .error .timeoutError =>
    let evt ← postMessage row.roomId
      (mentionUser ++ lit " Session " ++ row.sessionId.short ++
        lit " timed out resuming after approval.") (some row.threadRootId)
    Store.registerAlias evt row.threadRootId
  | .error _ =>
    let evt ← postMessage row.roomId
      (mentionUser ++ lit " Session " ++ row.sessionId.short ++
        lit " failed to resume after approval (approval " ++ row.approvalId ++
        lit "); please retry the request manually.") (some row.threadRootId)
    Store.registerAlias evt row.threadRootId
  | .ok (exitCode, output) =>
    Store.touchSession row.threadRootId
    postResponse row.roomId output exitCode row.sessionId mentionUser
      (config.maxMessageLength.getD 4000) row.threadRootId (lit "resume") row.threadRootId
    -- a resumed turn may itself hit another gate
    recordPendingIfGated agentName row.roomId row.sessionId row.threadRootId turnStart

/-- Resume the originating session for one approved approval. The local row is deleted before the
resume. -/
def resumeOnApproval (config : Config) (row : PendingRow) : Py Unit := do
  match config.roomToAgent row.roomId with
  | none => Store.deletePendingApproval row.approvalId .noAgent
  | some (agentName, agentCfg) =>
    match agentCfg.projectDir with
    | none => throw .keyError
    | some projectDir =>
      Store.deletePendingApproval row.approvalId .claim
      withRoomLock row.roomId (resumeTurn config row projectDir agentName agentCfg.timeout)

/-- The expiry loop of `reconcile_once`: the rows that are still live. -/
def expireStale (now : Int) : List PendingRow → Py (List PendingRow)
  | [] => pure []
  | row :: rest => do
    if now - row.createdAt > PENDING_APPROVAL_EXPIRY_SECONDS then
      Store.deletePendingApproval row.approvalId .expired
      expireStale now rest
    else
      let live ← expireStale now rest
      pure (row :: live)

/-- `states.get(approval_id)`. -/
def stateIn (states : List (ApprovalId × ApprovalState)) (approvalId : ApprovalId) :
    Option ApprovalState :=
  (states.reverse.find? fun s => s.1 == approvalId).map (·.2)

/-- One live row in the second loop of `reconcile_once`. -/
def reconcileRow (config : Config) (states : List (ApprovalId × ApprovalState))
    (row : PendingRow) : Py Unit := do
  match stateIn states row.approvalId with
  | some .approved => resumeOnApproval config row
  | some .denied =>
    Store.deletePendingApproval row.approvalId .denied
    let evt ← postMessage row.roomId
      (config.mentionUser.getD [] ++ lit " Operator denied the pending request for `" ++
        row.toolName.orElse (lit "the tool") ++ lit "`; not retrying.") (some row.threadRootId)
    Store.registerAlias evt row.threadRootId
  | _ => pure ()

/-- What `reconcile_once` does with the rows that the table had. -/
def reconcileRows (config : Config) (pending : List PendingRow) : Py Unit := do
  let now ← Store.now
  sync (.mark (.sweep now))
  let live ← expireStale now pending
  sync (.mark (.swept (live.map (·.approvalId))))
  if live = [] then pure ()
  else
    let states ← Registry.getApprovalStates (live.map (·.approvalId))
    Coro.forEach live (reconcileRow config states)

/-- One reconcile pass: expire stale locals, then resume or deny by the registry's state. -/
def reconcileOnce (config : Config) : Py Unit :=
  Coro.finallyDo (do
    if ← sync .registryEnabled then
      let pending ← Store.getPendingApprovals
      if pending = [] then pure () else reconcileRows config pending
    else pure ())
    (Coro.perform (Eff.sync (.mark .passOver)))

end MatrixDispatcher
