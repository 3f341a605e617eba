import MatrixDispatcher.Commands

/-!
# Orchestration

Event dispatch, the poll, cleanup and reconcile loops, and `main`. A loop is given as the program
of one round; the variables that it carries from round to round are the round's argument and
result, and a round that returns `none` ends the task.
-/

namespace MatrixDispatcher

open Py

/-! ## Message processing -/

/-- The commands of room-root messages that start with `!`. -/
def handleCommand (args : HandlerArgs) (userMessage : Str) : Py Unit := do
  let (word, arg) := userMessage.splitWord
  let cmd := word.lower
  if cmd = lit "!help" then handleHelpCommand args.roomId args.event args.mentionUser
  else if cmd = lit "!sessions" then
    handleSessionsCommand args.roomId args.event args.mentionUser args.agentName args.projectDir
  else if cmd = lit "!recap" then
    handleRecapCommand args.roomId args.event args.mentionUser args.projectDir
      args.maxMessageLength arg
  else if cmd = lit "!mirror" then
    handleMirrorCommand args.roomId args.event args.mentionUser args.agentName args.projectDir
      args.scopedMcpUrl
  else if cmd = lit "!cancel" then
    handleCancelCommand args.roomId args.event args.mentionUser
  else
    let _ ← postMessage args.roomId
      (args.mentionUser ++ lit " Unknown command `" ++ cmd ++ lit "`. Send `!help` for the list.")
      (some args.event.eventId)

/-- `f"{mention_user} Session {short_id} timed out after {timeout}s."`. -/
def timedOutText (args : HandlerArgs) (sessionId : SessionId) : Str :=
  args.mentionUser ++ lit " Session " ++ sessionId.short ++ lit " timed out after " ++
    natText args.subprocessTimeoutSeconds ++ lit "s."

/-- The part of a thread reply that runs under the room lock. -/
def replyTurn (args : HandlerArgs) (userMessage : Str) (row : SessionRow) (ack : EventId) :
    Py Unit := do
  let turnStart ← sync .utcnow
  let res ← Coro.attempt (resumeClaude row.sessionId userMessage args.projectDir args.agentName
    args.roomId args.subprocessTimeoutSeconds row.threadRootId none)
  match res with
  | .error .timeoutError =>
    let notice ← postMessage args.roomId (timedOutText args row.sessionId)
      (some (ack.orElse args.event.eventId))
    Store.registerAlias notice row.threadRootId
  | .error x => throw x
  | .ok (exitCode, output) =>
    Store.touchSession row.threadRootId
    postResponse args.roomId output exitCode row.sessionId args.mentionUser args.maxMessageLength
      (ack.orElse args.event.eventId) (lit "resume") row.threadRootId
    recordPendingIfGated args.agentName args.roomId row.sessionId row.threadRootId turnStart

/-- A thread reply to a tracked session. -/
def handleReply (args : HandlerArgs) (userMessage : Str) (row : SessionRow) : Py Unit := do
  let ack ← postMessage args.roomId
    (lit "Resuming... (session " ++ row.sessionId.short ++ lit ")") (some args.event.eventId)
  Store.registerAlias ack row.threadRootId
  registerSession row.sessionId args.agentName args.roomId args.projectDir args.scopedMcpUrl
  withRoomLock args.roomId (replyTurn args userMessage row ack)

/-- A reply whose thread root has no session. A new one is never started from it. -/
def handleOrphan (args : HandlerArgs) (threadRoot : EventId) : Py Unit := do
  let parentSender ← getEventSender args.roomId threadRoot
  if args.botUserId ≠ [] ∧ parentSender = some args.botUserId then
    let _ ← postMessage args.roomId
      (args.mentionUser ++ lit " No active session for that thread (it may have expired). " ++
        lit "Send a new message (not a reply) to start one, or `!sessions` to list recent ones.")
      (some args.event.eventId)
  else pure ()

/-- The prompt of a new session. -/
def spawnPrompt (agentName : AgentName) (userMessage : Str) : Str :=
  lit "[Invoked via Matrix room #" ++ agentName ++
    lit " by @ted. Output your response as plain text only. " ++
    lit "Do NOT use mcp__matrix__ tools or any Matrix MCP — " ++
    lit "the dispatcher will post your stdout to the room automatically.]\n\n" ++ userMessage

/-- The new session of a room-root message that passes the rate limit. -/
def spawnTurn (args : HandlerArgs) (userMessage : Str) : Py Unit := do
  let root := args.event.eventId
  let sessionId ← sync .uuid4
  let ack ← postMessage args.roomId (lit "Working... (session " ++ sessionId.short ++ lit ")")
    (some root)
  -- stored before the spawn, so that thread replies can resume it even if the spawn fails
  Store.insertSession root args.roomId args.agentName sessionId
  Store.registerAlias ack root
  registerSession sessionId args.agentName args.roomId args.projectDir args.scopedMcpUrl
  let turnStart ← sync .utcnow
  let res ← Coro.attempt (spawnClaude sessionId (spawnPrompt args.agentName userMessage)
    args.projectDir args.agentName args.roomId args.subprocessTimeoutSeconds root)
  match res with
  | .error .timeoutError =>
    let notice ← postMessage args.roomId (timedOutText args sessionId) (some (ack.orElse root))
    Store.registerAlias notice root
  | .error x => throw x
  | .ok (exitCode, output) =>
    postResponse args.roomId output exitCode sessionId args.mentionUser args.maxMessageLength
      (ack.orElse root) (lit "spawn") root
    recordPendingIfGated args.agentName args.roomId sessionId root turnStart

/-- The part of a room-root message that runs under the room lock: rate limit and spawn. -/
def rootTurn (args : HandlerArgs) (userMessage : Str) : Py Unit := do
  let now ← sync .time
  let last := (← sync (.lastSpawnGet args.roomId)).getD 0
  if now - last < secondsToTime RATE_LIMIT_SECONDS then
    let remaining := (secondsToTime RATE_LIMIT_SECONDS - (now - last)).seconds
    let _ ← postMessage args.roomId
      (args.mentionUser ++ lit " Rate-limited; try again in " ++ intText remaining ++ lit "s.")
      (some args.event.eventId)
  else
    sync (.lastSpawnSet args.roomId now)
    spawnTurn args userMessage

def handleEvent (args : HandlerArgs) : Py Unit := do
  -- sender gate: silently discard what the trusted sender did not send
  if args.event.sender ≠ args.trustedSender then pure ()
  else
    let userMessage := args.event.body.strip
    match ← fromExcept (extractThreadRoot args.event) with
    | some threadRoot =>
      match ← Store.getSessionByEvent threadRoot with
      | some row => handleReply args userMessage row
      | none => handleOrphan args threadRoot
    | none =>
      if (lit "!").isPrefixOf userMessage then handleCommand args userMessage
      else withRoomLock args.roomId (rootTurn args userMessage)

/-! ## Polling loop -/

/-- The arguments that `poll_loop` passes to `handle_event`. -/
def handlerArgs (config : Config) (roomId : RoomId) (agentName : AgentName) (cfg : AgentCfg)
    (projectDir : Str) (event : RoomMessageText) : HandlerArgs where
  roomId := roomId
  event := event
  trustedSender := config.trustedSender.getD []
  mentionUser := config.mentionUser.getD []
  maxMessageLength := config.maxMessageLength.getD 4000
  agentName := agentName
  projectDir := projectDir
  botUserId := config.botUserId.getD []
  subprocessTimeoutSeconds := cfg.timeout
  scopedMcpUrl := cfg.scopedMcpUrl.getD []

/-- One event of a timeline: dispatch a message as a task of its own. -/
def dispatchEvent (config : Config) (roomId : RoomId) (agentName : AgentName) (cfg : AgentCfg)
    (projectDir : Str) : TimelineEvent → Py Unit
  | .other => pure ()
  | .text event =>
    sync (.createTask (.handle (handlerArgs config roomId agentName cfg projectDir event)))

/-- One room of a sync response. -/
def dispatchRoom (config : Config) (room : RoomId × List TimelineEvent) : Py Unit :=
  match config.roomToAgent room.1 with
  | none => pure ()
  | some (agentName, cfg) =>
    match cfg.projectDir with
    | none => throw .keyError
    | some projectDir =>
      Coro.forEach room.2 (dispatchEvent config room.1 agentName cfg projectDir)

/-- Store the new token, then dispatch the messages. -/
def processResponse (config : Config) (nextBatch : Token) (rooms : Rooms) : Py Unit := do
  Store.setSince nextBatch
  Coro.forEach rooms (dispatchRoom config)

/-- One round of the loop, from the token in `since` to the token of the next round. Exceptions
of the `try` block are logged; those of the sleeps leave the loop. -/
def pollRound (config : Config) (since : Option Token) : Py (Option Token) := do
  let resp ← Coro.attempt (await (.sync since))
  match resp with
  | .error .cancelledError => throw .cancelledError
  | .error _ =>
    await .sleep
    pure since
  | .ok .error =>
    -- a cancellation of this sleep is raised again, any other exception is impossible
    await .sleep
    pure since
  | .ok (.response nextBatch rooms) =>
    let done ← Coro.attempt (processResponse config nextBatch rooms)
    match done with
    | .error .cancelledError => throw .cancelledError
    | _ =>
      await .sleep
      pure (some nextBatch)

/-- The beginning of `poll_loop`: the stored token, or that of a priming sync. -/
def pollStart : Py (Option Token) := do
  match ← Store.getSince with
  | some since => pure (some since)
  | none =>
    match ← await (.sync none) with
    | .response nextBatch _ =>
      Store.setSince nextBatch
      pure (some nextBatch)
    | .error => pure none

/-! ## The other loops -/

/-- One round of `cleanup_loop`. -/
def cleanupRound (config : Config) : Py Unit := do
  tryExcept (do let _ ← Store.runCleanup (config.sessionRetentionDays.getD 30)) fun _ => pure ()
  await .sleep

/-- One round of `reconcile_loop`. -/
def reconcileRound (config : Config) : Py Unit := do
  tryExcept (reconcileOnce config) fun _ => pure ()
  await .sleep

/-! ## Entry point -/

/-- The room of the startup notification. -/
def notifyRoom (config : Config) : Option RoomId :=
  (config.agents.find? fun entry =>
    entry.1 == config.startupNotificationAgent.getD (lit "claudebox")).map (·.2.roomId)

/-- The list of agent names as `list.__repr__` shows plain names. -/
def agentList (config : Config) : Str :=
  lit "[" ++ joinWith (lit ", ") (config.agents.map fun entry => lit "'" ++ entry.1 ++ lit "'") ++
    lit "]"

/-- Post the startup notification, if its room is configured. -/
def notifyStartup (config : Config) : Py Unit :=
  match notifyRoom config with
  | none => pure ()
  | some room =>
    tryExcept (do
      let _ ← postMessage room (lit "matrix-dispatcher started — agents: " ++ agentList config)
        none) fun _ => pure ()

/-- `main` up to the creation of the other two loops. -/
def startup (config : Config) : Py Unit := do
  notifyStartup config
  await .openRegistry
  sync (.createTask .cleanup)
  sync (.createTask .reconcile)

/-- Cancel a task and wait for its end. -/
def cancelAndJoin (t : Tid) : Py Unit := do
  sync (.cancelTask t)
  let _ ← Coro.attempt (await (.join t))

/-- `SIGTERM` to the registered children. -/
def terminateAll : List (RoomId × Pid) → Py Unit
  | [] => pure ()
  | (room, pid) :: rest => do
    sendSigterm room pid
    terminateAll rest

/-- Brief grace period for the handlers in flight. -/
def awaitHandlers : Py Unit := do
  if ← sync .handlersOutstanding then
    if ← await .gather then pure ()
    else await .gatherCancelled
  else pure ()

/-- The `finally` block of `main`. -/
def shutdown : Py Unit := do
  sync (.mark .closing)
  cancelAndJoin .cleanup
  cancelAndJoin .reconcile
  Registry.close
  terminateAll (← sync .activeItems)
  awaitHandlers
  sync .closeDb
  await .closeClient

/-- How a loop goes on after a round. -/
def nextRound {σ : Type} (onEnd : Coro Eff Eff.Ret Unit) :
    Except Exn σ → Coro Eff Eff.Ret (Option σ)
  | .ok s => pure (some s)
  | .error _ => do
    onEnd
    pure none

/-- What is done at the end of a task. -/
def endTask : Coro Eff Eff.Ret Unit := Coro.perform (Eff.sync .taskDone)

/-- The end of `main`: the `finally` block of its `try`, then the end of the task. -/
def endMain : Coro Eff Eff.Ret Unit := do
  let _ ← shutdown.run
  endTask

/-- `main`: its beginning, which has no `finally` block, then `poll_loop`. -/
def mainProgram (config : Config) : Coro Eff Eff.Ret (Option (Option Token)) := do
  match ← (do await .start; startup config : Py Unit).run with
  | .error _ => do
    endTask
    pure none
  | .ok () => nextRound endMain (← pollStart.run)

end MatrixDispatcher
