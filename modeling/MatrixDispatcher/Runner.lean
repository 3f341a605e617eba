import MatrixDispatcher.Matrixio

/-!
# The subprocess runner

`_run_claude` with `spawn_claude` and `resume_claude`, the per-room lock, and `!cancel`. The
thread root and the approval on whose account a turn runs are handed along as observations.
-/

namespace MatrixDispatcher

open Py

/-! ## The per-room lock -/

/-- `await _room_lock(room).acquire()`. -/
def acquireRoomLock (roomId : RoomId) : Py Unit := do
  if ← sync (.lockTry roomId) then pure ()
  else await (.lockWait roomId)

/-- `async with _room_lock(room): body`. -/
def withRoomLock {α : Type} (roomId : RoomId) (body : Py α) : Py α := do
  acquireRoomLock roomId
  Coro.finallyDo body (Coro.perform (Eff.sync (.lockRelease roomId)))

/-! ## Children -/

/-- `await wait_for(proc.communicate(), timeout)` with its handler for a timeout: the child is
killed, and the exception raised again once the child is gone. -/
def communicateOrKill (pid : Pid) (timeout : Nat) : Py (Str × Str) :=
  tryCatch (await (.communicate pid timeout)) fun x =>
    if x = .timeoutError then do
      ExceptT.mk (Coro.perform (Eff.sync (.kill pid)))
      await (.wait pid)
      tryExcept (await (.drain pid)) fun _ => pure ()
      throw .timeoutError
    else throw x

/-- Observation: how the `try` block of `_run_claude` ended. -/
def outcomeOf {α : Type} : Except Exn α → Outcome
  | .ok _ => .result
  | .error .timeoutError => .timeout
  | .error _ => .raised

/-- Run claude with the given arguments, registering the child for `!cancel`. Returns the exit
code and the output; raises `TimeoutError` on a timeout. -/
def runClaude (args : List Str) (projectDir : Str) (agentName : AgentName) (roomId : RoomId)
    (timeout : Nat) (turn : Turn) : Py (Int × Str) := do
  let pid ← network (.exec args projectDir agentName turn)
  sync (.activeSet roomId pid)
  let res ← Coro.attempt (Coro.finallyDo (communicateOrKill pid timeout)
    (Coro.perform (Eff.sync (.activePop roomId))))
  sync (.mark (.leftRun roomId pid (outcomeOf res)))
  let (stdout, stderr) ← fromExcept res
  let rc := (← sync (.returncode pid)).getD (-1)
  pure (rc, if rc = 0 then stdout else stderr.take 500)

def spawnClaude (sessionId : SessionId) (prompt : Str) (projectDir : Str)
    (agentName : AgentName) (roomId : RoomId) (timeout : Nat) (threadRootId : EventId) :
    Py (Int × Str) := do
  let turn : Turn := ⟨roomId, agentName, sessionId, threadRootId, none, .spawnClaude, prompt⟩
  sync (.mark (.runnerCall turn))
  runClaude [lit "claude", lit "-p", lit "--session-id", sessionId, prompt] projectDir agentName
    roomId timeout turn

def resumeClaude (sessionId : SessionId) (message : Str) (projectDir : Str)
    (agentName : AgentName) (roomId : RoomId) (timeout : Nat) (threadRootId : EventId)
    (account : Option ApprovalId) : Py (Int × Str) := do
  let turn : Turn :=
    ⟨roomId, agentName, sessionId, threadRootId, account, .resumeClaude, message⟩
  sync (.mark (.runnerCall turn))
  runClaude [lit "claude", lit "-p", lit "--resume", sessionId, message] projectDir agentName
    roomId timeout turn

/-! ## `!cancel` -/

/-- `proc.send_signal(signal.SIGTERM)` with `ProcessLookupError` suppressed. -/
def sendSigterm (roomId : RoomId) (pid : Pid) : Py Unit :=
  tryCatch (ExceptT.mk (Coro.perform (Eff.sync (.sendSignal roomId pid)))) fun x =>
    if x = .processLookupError then pure () else throw x

/-- Look for the child of a room again, up to `n` times, each time after a short sleep. -/
def pollActive (roomId : RoomId) : Nat → Py (Option Pid)
  | 0 => pure none
  | n + 1 => do
    await .sleep
    match ← sync (.activeGet roomId) with
    | some pid => pure (some pid)
    | none => pollActive roomId n

/-- The child to cancel. If the room lock is held but no child is registered yet, the spawn may
be in `create_subprocess_exec`; then wait briefly for the child to land. -/
def findActive (roomId : RoomId) : Py (Option Pid) := do
  match ← sync (.activeGet roomId) with
  | some pid => pure (some pid)
  | none =>
    if ← sync (.lockLocked roomId) then pollActive roomId CANCEL_POLLS
    else pure none

def handleCancelCommand (roomId : RoomId) (event : RoomMessageText) (mentionUser : UserId) :
    Py Unit := do
  match ← findActive roomId with
  | none =>
    let _ ← postMessage roomId (mentionUser ++ lit " No active session in this room.")
      (some event.eventId)
  | some pid =>
    sendSigterm roomId pid
    let _ ← postMessage roomId
      (mentionUser ++ lit " Sent SIGTERM to active session (pid " ++ natText pid ++ lit ").")
      (some event.eventId)

end MatrixDispatcher
