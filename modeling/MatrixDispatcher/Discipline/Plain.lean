import MatrixDispatcher.App

/-!
# Plain programs

Most of what a task does concerns neither the room locks, the children, the rate limit, the pending
approvals nor the sync token: it posts, reads transcripts, keeps sessions and aliases. Such effects
are called plain, and the programs made of them only are listed here once, for all the disciplines.
Those that neither look for a session, nor make one, nor add to its thread leave sessions aside.
Programs that do not call the registry either are local, or, if they leave sessions aside, still.
-/

namespace MatrixDispatcher

open Py Coro

namespace Eff

/-- The statement concerns sessions and aliases only. -/
def plainStmt : Stmt → Bool
  | .getSince | .setSince _ _ | .insertPendingApproval _ | .getPendingApprovals
  | .deletePendingApproval _ _ => false
  | _ => true

/-- The effect concerns neither locks, children, the rate limit, pending approvals nor the sync
token. -/
def plain : Eff → Bool
  | .sync (.execute s) => plainStmt s
  | .sync e =>
    match e with
    | .time | .uuid4 | .commit | .returncode _ | .registryEnabled | .readTranscript _ _
    | .listTranscripts _ => true
    | _ => false
  | .await e =>
    match e with
    | .sleep | .pause | .roomSend _ _ _ | .roomGetEvent _ _ | .upsertSession _ _ _ _ _
    | .linkSession _ _ => true
    | _ => false

end Eff

/-- `Eff.plain` as a proposition. -/
abbrev Plain (e : Eff) : Prop := e.plain = true

/-- The effect is plain, and neither looks for a session, nor makes one, nor adds to its thread. -/
def Eff.aside : Eff → Bool
  | .sync (.execute (.getSessionByEvent _)) | .sync (.execute (.insertSession _ _ _ _ _))
  | .sync (.execute (.registerAlias _ _)) | .sync .uuid4 | .sync (.listTranscripts _) => false
  | e => e.plain

/-- `Eff.aside` as a proposition. -/
abbrev Aside (e : Eff) : Prop := e.aside = true

/-- An effect that is `Aside` is `Plain`. -/
theorem Plain.of_aside {e : Eff} (h : Aside e) : Plain e := by
  unfold Aside Eff.aside at h
  split at h <;> first | cases h | exact h

/-- The effect is one of the calls of the registry. -/
def Eff.registers : Eff → Bool
  | .sync .registryEnabled | .await (.upsertSession _ _ _ _ _) | .await (.linkSession _ _) => true
  | _ => false

/-- The effect is plain, and no call of the registry. -/
abbrev Local (e : Eff) : Prop := Plain e ∧ e.registers = false

/-- The effect leaves sessions aside, and is no call of the registry. -/
abbrev Still (e : Eff) : Prop := Aside e ∧ e.registers = false

/-- An effect that is `Still` is `Local`. -/
theorem Local.of_still {e : Eff} (h : Still e) : Local e := ⟨.of_aside h.1, h.2⟩

section Rules

variable {P : Eff → Prop} {α : Type}

/-- A synchronous effect. -/
theorem performsE_sync {e : SyncEff} (h : P (.sync e)) : PerformsE P (sync e) :=
  performsE_lift h

/-- An operation that is awaited. -/
theorem performsE_await {e : AwaitEff} (h : P (.await e)) : PerformsE P (await e) :=
  ⟨h, fun _ => trivial⟩

/-- A statement. -/
theorem performsE_execute {s : Stmt} (h : P (.sync (.execute s))) : PerformsE P (execute s) :=
  ⟨h, fun _ => trivial⟩

/-- The commit of what was executed. -/
theorem performsE_commit (h : P (.sync .commit)) : PerformsE P commit :=
  ⟨h, fun _ => trivial⟩

/-- A value that was computed without any effect, or its exception. -/
theorem performsE_fromExcept (res : Except Exn α) : PerformsE P (fromExcept res) := by
  cases res
  · exact performsE_throw _
  · exact performsE_pure _

/-- `try: p except Exception: handler`. -/
theorem performsE_tryExcept {p : Py α} {handler : Exn → Py α} (hp : PerformsE P p)
    (hhandler : ∀ x, PerformsE P (handler x)) : PerformsE P (tryExcept p handler) := by
  refine performsE_tryCatch hp fun x => ?_
  split
  · exact hhandler x
  · exact performsE_throw x

/-- A network operation is awaited, and so is the turn of the event loop in which it lands. -/
theorem performsE_network {e : AwaitEff} (h : P (.await e)) (hpause : P (.await .pause)) :
    PerformsE P (network e) := by
  have hlanding : ∀ q : Py e.Val, PerformsE P q → PerformsE P (do await .pause; q) :=
    fun q hq => performsE_bind (performsE_await hpause) fun _ => hq
  refine performsE_bind (performsE_attempt (performsE_await h)) fun res => ?_
  split
  · exact performsE_throw _
  · exact hlanding _ (performsE_throw _)
  · exact hlanding _ (performsE_pure _)

/-- The lookup of approval states asks whether there is a registry, and fetches them. -/
theorem performsE_getApprovalStates {ids : List ApprovalId} (hask : P (.sync .registryEnabled))
    (hfetch : P (.await (.fetchStates ids))) (hpause : P (.await .pause)) :
    PerformsE P (Registry.getApprovalStates ids) := by
  rw [Registry.getApprovalStates]
  split
  · exact performsE_pure _
  refine performsE_bind (performsE_sync hask) fun enabled => ?_
  split
  · exact performsE_tryExcept (performsE_network hfetch hpause) fun _ => performsE_pure _
  · exact performsE_pure _

/-- The expiry loop deletes rows past the expiry age. -/
theorem performsE_expireStale {now : Int} {rows : List PendingRow}
    (hdelete : ∀ row ∈ rows, now - row.createdAt > PENDING_APPROVAL_EXPIRY_SECONDS →
      P (.sync (.execute (.deletePendingApproval row.approvalId .expired))))
    (hcommit : P (.sync .commit)) : PerformsE P (expireStale now rows) := by
  induction rows with
  | nil => exact performsE_pure _
  | cons row rows ih =>
    obtain ⟨hrow, hrows⟩ := List.forall_mem_cons.mp hdelete
    rw [expireStale]
    split
    · next hold =>
      exact performsE_bind (performsE_bind (performsE_execute (hrow hold)) fun _ =>
        performsE_commit hcommit) fun _ => ih hrows
    · exact performsE_bind (ih hrows) fun _ => performsE_pure _

end Rules

/-! ## Calls of the runner -/

/-- The turn that `resume_claude` makes. -/
def resumeOf (agent : AgentName) (room : RoomId) (session : SessionId) (root : EventId)
    (account : Option ApprovalId) (message : Str) : Turn :=
  ⟨room, agent, session, root, account, .resumeClaude, message⟩

/-- The turn that `spawn_claude` makes. -/
def spawnOf (agent : AgentName) (room : RoomId) (session : SessionId) (root : EventId)
    (prompt : Str) : Turn :=
  ⟨room, agent, session, root, none, .spawnClaude, prompt⟩

/-- The command line of a turn. -/
def Turn.argv (turn : Turn) : List Str :=
  match turn.runner with
  | .spawnClaude => [lit "claude", lit "-p", lit "--session-id", turn.sessionId, turn.text]
  | .resumeClaude => [lit "claude", lit "-p", lit "--resume", turn.sessionId, turn.text]

/-- Call the runner for a turn: what `resume_claude` and `spawn_claude` have in common. -/
def callRunner (turn : Turn) (dir : Str) (timeout : Nat) : Py (Int × Str) := do
  sync (.mark (.runnerCall turn))
  runClaude turn.argv dir turn.agentName turn.roomId timeout turn

/-- `resume_claude` is `callRunner` on the turn `resumeOf`. -/
theorem resumeClaude_eq {session : SessionId} {message dir : Str} {agent : AgentName}
    {room : RoomId} {timeout : Nat} {root : EventId} {account : Option ApprovalId} :
    resumeClaude session message dir agent room timeout root account =
      callRunner (resumeOf agent room session root account message) dir timeout := rfl

/-- `spawn_claude` is `callRunner` on the turn `spawnOf`. -/
theorem spawnClaude_eq {session : SessionId} {prompt dir : Str} {agent : AgentName}
    {room : RoomId} {timeout : Nat} {root : EventId} :
    spawnClaude session prompt dir agent room timeout root =
      callRunner (spawnOf agent room session root prompt) dir timeout := rfl

/-! ## The still programs -/

/-- A network operation is still if its effect is. -/
theorem still_network {e : AwaitEff} (h : Still (.await e)) : PerformsE Still (network e) :=
  performsE_network h ⟨rfl, rfl⟩

/-- The clock is no session. -/
theorem still_now : PerformsE Still Store.now :=
  performsE_bind (performsE_sync ⟨rfl, rfl⟩) fun _ => performsE_pure _

/-- A statement followed by a commit. -/
theorem still_write {s : Stmt} (h : Still (.sync (.execute s))) :
    PerformsE Still (do let _ ← execute s; commit) :=
  performsE_bind (performsE_execute h) fun _ => performsE_commit ⟨rfl, rfl⟩

/-- `touch_session` writes to a row that is there, and looks nothing up. -/
theorem still_touchSession (root : EventId) : PerformsE Still (Store.touchSession root) :=
  performsE_bind still_now fun _ => still_write ⟨rfl, rfl⟩

/-- The cleanup deletes sessions, but neither makes nor finds any. -/
theorem still_runCleanup (days : Int) : PerformsE Still (Store.runCleanup days) := by
  refine performsE_bind still_now fun _ => ?_
  refine performsE_bind (performsE_execute ⟨rfl, rfl⟩) fun _ => ?_
  refine performsE_bind (performsE_execute ⟨rfl, rfl⟩) fun _ => ?_
  refine performsE_bind (performsE_execute ⟨rfl, rfl⟩) fun _ => ?_
  exact performsE_bind (performsE_commit ⟨rfl, rfl⟩) fun _ => performsE_pure _

/-- A post is still, whoever it replies to. -/
theorem still_postMessage (room : RoomId) (body : Str) (replyTo : Option EventId) :
    PerformsE Still (postMessage room body replyTo) :=
  still_network ⟨rfl, rfl⟩

/-- A post whose event id is dropped. -/
theorem still_notice (room : RoomId) (body : Str) (replyTo : Option EventId) :
    PerformsE Still (do let _ ← postMessage room body replyTo) :=
  performsE_bind (still_postMessage _ _ _) fun _ => performsE_pure _

/-- The lookup of a sender is the request `room_get_event`, whose failure is swallowed. -/
theorem still_getEventSender (room : RoomId) (e : EventId) :
    PerformsE Still (getEventSender room e) :=
  performsE_tryExcept (still_network ⟨rfl, rfl⟩) fun _ => performsE_pure _

/-- The first user message comes from one transcript file. -/
theorem still_readFirstUserMessage (session : SessionId) (dir : Str) :
    PerformsE Still (readFirstUserMessage session dir) := by
  refine performsE_bind (performsE_sync ⟨rfl, rfl⟩) fun file => ?_
  rcases file with _ | ⟨lines, failure⟩
  · exact performsE_pure _
  refine performsE_bind (performsE_fromExcept _) fun summary => ?_
  rcases summary with _ | summary
  · dsimp only
    split
    · exact performsE_pure _
    · exact performsE_pure _
    · exact performsE_throw _
  · exact performsE_pure _

/-- So do the last turns; an error of the reader ends the program. -/
theorem still_readLastNTurns (session : SessionId) (dir : Str) (n : Nat) :
    PerformsE Still (readLastNTurns session dir n) := by
  refine performsE_bind (performsE_sync ⟨rfl, rfl⟩) fun file => ?_
  rcases file with _ | ⟨lines, failure⟩
  · exact performsE_pure _
  refine performsE_bind (performsE_fromExcept _) fun turns => ?_
  split
  · exact performsE_pure _
  · exact performsE_pure _
  · exact performsE_throw _

/-- The chunks of a recap are posted one by one. -/
theorem still_postRecap (room : RoomId) (event : RoomMessageText) (chunks : List Str) :
    PerformsE Still (postRecap room event chunks) := by
  induction chunks with
  | nil => exact performsE_pure _
  | cons chunk chunks ih => exact performsE_bind (still_postMessage _ _ _) fun _ => ih

/-- `!help` posts one text. -/
theorem still_handleHelpCommand (room : RoomId) (event : RoomMessageText) (mention : UserId) :
    PerformsE Still (handleHelpCommand room event mention) :=
  still_notice _ _ _

/-- `!recap` lists the sessions of the room, which is no lookup by event, and reads one transcript.
-/
theorem still_handleRecapCommand (room : RoomId) (event : RoomMessageText) (mention : UserId)
    (dir : Str) (maxLen : Nat) (arg : Str) :
    PerformsE Still (handleRecapCommand room event mention dir maxLen arg) := by
  refine performsE_bind (performsE_execute ⟨rfl, rfl⟩) fun rows => ?_
  split
  · exact still_notice _ _ _
  · refine performsE_bind (still_readLastNTurns _ _ _) fun body => ?_
    split
    · exact still_notice _ _ _
    · exact performsE_bind (performsE_fromExcept _) fun _ => still_postRecap _ _ _

/-- A reply to an unknown event asks who sent that event, and posts at most a notice. -/
theorem still_handleOrphan (args : HandlerArgs) (e : EventId) :
    PerformsE Still (handleOrphan args e) := by
  refine performsE_bind (still_getEventSender _ _) fun sender => ?_
  split
  · exact still_notice _ _ _
  · exact performsE_pure _

/-- A round of the cleanup loop survives the exceptions of the cleanup and sleeps. -/
theorem still_cleanupRound (config : MatrixDispatcher.Config) :
    PerformsE Still (cleanupRound config) := by
  refine performsE_bind (performsE_tryExcept ?_ fun _ => performsE_pure _) fun _ =>
    performsE_await ⟨rfl, rfl⟩
  exact performsE_bind (still_runCleanup _) fun _ => performsE_pure _

/-! ## The programs that leave sessions aside -/

/-- Every still program leaves sessions aside. -/
theorem aside_still {α : Type} {p : Py α} (hp : PerformsE Still p) : PerformsE Aside p :=
  hp.mono fun _ h => h.1

/-- `RegistryClient` methods ask whether there is a pool, and swallow the exceptions of the call. -/
theorem aside_failOpen {α : Type} (default : α) {p : Py α} (hp : PerformsE Aside p) :
    PerformsE Aside (Registry.failOpen default p) := by
  refine performsE_bind (performsE_sync rfl) fun enabled => ?_
  split
  · exact performsE_tryExcept hp fun _ => performsE_pure _
  · exact performsE_pure _

/-- `link_session` is one such call. -/
theorem aside_linkSession (a : ApprovalId) (session : SessionId) :
    PerformsE Aside (Registry.linkSession a session) :=
  aside_failOpen _ (performsE_network rfl rfl)

/-- So is `_register_session`, and it asks for the pool a second time. -/
theorem aside_registerSession (session : SessionId) (agent : AgentName) (room : RoomId)
    (dir url : Str) : PerformsE Aside (registerSession session agent room dir url) := by
  refine performsE_bind (performsE_sync rfl) fun enabled => ?_
  split
  · exact aside_failOpen _ (performsE_network rfl rfl)
  · exact performsE_pure _

/-! ## The local programs -/

/-- Every still program is local. -/
theorem local_still {α : Type} {p : Py α} (hp : PerformsE Still p) : PerformsE Local p :=
  hp.mono fun _ => Local.of_still

/-- An alias is entered unless the event id is empty. -/
theorem local_registerAlias (e root : EventId) : PerformsE Local (Store.registerAlias e root) := by
  rw [Store.registerAlias]
  split
  · exact performsE_pure _
  · exact performsE_bind (performsE_execute ⟨rfl, rfl⟩) fun _ => performsE_commit ⟨rfl, rfl⟩

/-- A post, whose event id becomes an alias. -/
theorem local_postAlias (room : RoomId) (body : Str) (replyTo : Option EventId)
    (root : EventId) : PerformsE Local
      (do let e ← postMessage room body replyTo; Store.registerAlias e root) :=
  performsE_bind (local_still (still_postMessage _ _ _)) fun _ => local_registerAlias _ _

/-- The chunks after the first one, each with its alias. -/
theorem local_postChunks (room : RoomId) (mention : UserId) (target root : EventId) (i : Nat)
    (chunks : List Str) : PerformsE Local (postChunks room mention target root i chunks) := by
  induction chunks generalizing i with
  | nil => exact performsE_pure _
  | cons chunk chunks ih =>
    refine performsE_bind (local_still (still_postMessage _ _ _)) fun e => ?_
    exact performsE_bind (local_registerAlias _ _) fun _ => ih _

/-- `_post_response` posts all chunks, and all of them become aliases. -/
theorem local_postResponse (room : RoomId) (output : Str) (rc : Int) (session : SessionId)
    (mention : UserId) (maxLen : Nat) (target : EventId) (action : Str) (root : EventId) :
    PerformsE Local (postResponse room output rc session mention maxLen target action root) := by
  rw [postResponse]
  split
  · exact local_postAlias _ _ _ _
  · exact performsE_bind (performsE_fromExcept _) fun _ => local_postChunks _ _ _ _ _ _

/-- `!sessions` posts a line for each row, and all lines become aliases. -/
theorem local_postSessions (room : RoomId) (dir : Str) (header : EventId) (i : Nat)
    (rows : List SessionRow) : PerformsE Local (postSessions room dir header i rows) := by
  induction rows generalizing i with
  | nil => exact performsE_pure _
  | cons row rows ih =>
    refine performsE_bind (local_still (still_readFirstUserMessage _ _)) fun summary => ?_
    refine performsE_bind (local_still (still_postMessage _ _ _)) fun item => ?_
    exact performsE_bind (local_registerAlias _ _) fun _ => ih _

/-- `!sessions` up to those lines: the rows are those of the room. -/
theorem local_handleSessionsCommand (room : RoomId) (event : RoomMessageText)
    (mention : UserId) (agent : AgentName) (dir : Str) :
    PerformsE Local (handleSessionsCommand room event mention agent dir) := by
  refine performsE_bind (performsE_execute ⟨rfl, rfl⟩) fun rows => ?_
  split
  · exact local_still (still_notice _ _ _)
  · refine performsE_bind (local_still (still_postMessage _ _ _)) fun _ => ?_
    exact local_postSessions _ _ _ _ _

/-- A new row of `sessions`. -/
theorem local_insertSession (root : EventId) (room : RoomId) (agent : AgentName)
    (session : SessionId) : PerformsE Local (Store.insertSession root room agent session) :=
  performsE_bind (local_still still_now) fun _ =>
    performsE_bind (performsE_execute ⟨rfl, rfl⟩) fun _ => performsE_commit ⟨rfl, rfl⟩

/-- The search of `!mirror` lists the transcripts, and asks for the sessions of the room. -/
theorem local_findUnmirroredSessionId (dir : Str) (room : RoomId) :
    PerformsE Local (findUnmirroredSessionId dir room) := by
  refine performsE_bind (performsE_mk ⟨⟨rfl, rfl⟩, fun _ => trivial⟩) fun files => ?_
  split
  · exact performsE_pure _
  · exact performsE_bind (performsE_execute ⟨rfl, rfl⟩) fun _ => performsE_pure _

/-! ## The plain programs -/

/-- Every local program is plain. -/
theorem plain_local {α : Type} {p : Py α} (hp : PerformsE Local p) : PerformsE Plain p :=
  hp.mono fun _ h => h.1

/-- Every still program is plain. -/
theorem plain_still {α : Type} {p : Py α} (hp : PerformsE Still p) : PerformsE Plain p :=
  hp.mono fun _ h => .of_aside h.1

/-- `plain_still` for the clock. -/
theorem plain_now : PerformsE Plain Store.now :=
  plain_still still_now

/-- `plain_local` for an alias. -/
theorem plain_registerAlias (e root : EventId) : PerformsE Plain (Store.registerAlias e root) :=
  plain_local (local_registerAlias _ _)

/-- `plain_still` for the time of the last use. -/
theorem plain_touchSession (root : EventId) : PerformsE Plain (Store.touchSession root) :=
  plain_still (still_touchSession _)

/-- `plain_still` for a post. -/
theorem plain_postMessage (room : RoomId) (body : Str) (replyTo : Option EventId) :
    PerformsE Plain (postMessage room body replyTo) :=
  plain_still (still_postMessage _ _ _)

/-- `plain_still` for a post whose event id is dropped. -/
theorem plain_notice (room : RoomId) (body : Str) (replyTo : Option EventId) :
    PerformsE Plain (do let _ ← postMessage room body replyTo) :=
  plain_still (still_notice _ _ _)

/-- A post whose event id becomes an alias. -/
theorem plain_postAlias (room : RoomId) (body : Str) (replyTo : Option EventId)
    (root : EventId) : PerformsE Plain
      (do let e ← postMessage room body replyTo; Store.registerAlias e root) :=
  plain_local (local_postAlias _ _ _ _)

/-- `plain_local` for the chunks of a response. -/
theorem plain_postResponse (room : RoomId) (output : Str) (rc : Int) (session : SessionId)
    (mention : UserId) (maxLen : Nat) (target : EventId) (action : Str) (root : EventId) :
    PerformsE Plain (postResponse room output rc session mention maxLen target action root) :=
  plain_local (local_postResponse _ _ _ _ _ _ _ _ _)

/-- A call of the registry is plain, but not local. -/
theorem plain_linkSession (a : ApprovalId) (session : SessionId) :
    PerformsE Plain (Registry.linkSession a session) :=
  (aside_linkSession _ _).mono fun _ => Plain.of_aside

/-- So is the registration of a session. -/
theorem plain_registerSession (session : SessionId) (agent : AgentName) (room : RoomId)
    (dir url : Str) : PerformsE Plain (registerSession session agent room dir url) :=
  (aside_registerSession _ _ _ _ _).mono fun _ => Plain.of_aside

/-- `plain_still` for `!help`. -/
theorem plain_handleHelpCommand (room : RoomId) (event : RoomMessageText) (mention : UserId) :
    PerformsE Plain (handleHelpCommand room event mention) :=
  plain_still (still_handleHelpCommand _ _ _)

/-- `plain_local` for `!sessions`. -/
theorem plain_handleSessionsCommand (room : RoomId) (event : RoomMessageText)
    (mention : UserId) (agent : AgentName) (dir : Str) :
    PerformsE Plain (handleSessionsCommand room event mention agent dir) :=
  plain_local (local_handleSessionsCommand _ _ _ _ _)

/-- `plain_still` for `!recap`. -/
theorem plain_handleRecapCommand (room : RoomId) (event : RoomMessageText) (mention : UserId)
    (dir : Str) (maxLen : Nat) (arg : Str) :
    PerformsE Plain (handleRecapCommand room event mention dir maxLen arg) :=
  plain_still (still_handleRecapCommand _ _ _ _ _ _)

/-- `plain_still` for a reply to an unknown event. -/
theorem plain_handleOrphan (args : HandlerArgs) (e : EventId) :
    PerformsE Plain (handleOrphan args e) :=
  plain_still (still_handleOrphan _ _)

/-- `plain_local` for a new session. -/
theorem plain_insertSession (root : EventId) (room : RoomId) (agent : AgentName)
    (session : SessionId) : PerformsE Plain (Store.insertSession root room agent session) :=
  plain_local (local_insertSession _ _ _ _)

/-- `plain_local` for the search of `!mirror`. -/
theorem plain_findUnmirroredSessionId (dir : Str) (room : RoomId) :
    PerformsE Plain (findUnmirroredSessionId dir room) :=
  plain_local (local_findUnmirroredSessionId _ _)

/-- `!mirror` enters the transcript that it finds as a session, and registers it. -/
theorem plain_handleMirrorCommand (room : RoomId) (event : RoomMessageText) (mention : UserId)
    (agent : AgentName) (dir url : Str) :
    PerformsE Plain (handleMirrorCommand room event mention agent dir url) := by
  refine performsE_bind (plain_findUnmirroredSessionId _ _) fun session => ?_
  split
  · exact plain_notice _ _ _
  · refine performsE_bind (plain_insertSession _ _ _ _) fun _ => ?_
    exact performsE_bind (plain_registerSession _ _ _ _ _) fun _ => plain_postAlias _ _ _ _

/-! ## `!cancel` -/

/-- The effects of `!cancel`: it looks for a child, signals the one that it finds, and posts. -/
def CancelEff : Eff → Prop
  | .sync (.activeGet _) | .sync (.lockLocked _) | .sync (.sendSignal _ _) | .await .sleep => True
  | e => Still e

/-- What is still may be done by `!cancel`. -/
theorem CancelEff.of_still {e : Eff} (h : Still e) : CancelEff e := by
  unfold CancelEff
  split <;> trivial

/-- `!cancel` looks for a child for as long as the lock is held. -/
theorem cancel_findActive (room : RoomId) : PerformsE CancelEff (findActive room) := by
  have hpoll : ∀ n, PerformsE CancelEff (pollActive room n) := by
    intro n
    induction n with
    | zero => exact performsE_pure _
    | succ n ih =>
      refine performsE_bind (performsE_await trivial) fun _ => ?_
      refine performsE_bind (performsE_sync trivial) fun found => ?_
      split
      · exact performsE_pure _
      · exact ih
  refine performsE_bind (performsE_sync trivial) fun found => ?_
  split
  · exact performsE_pure _
  · refine performsE_bind (performsE_sync trivial) fun held => ?_
    split
    · exact hpoll _
    · exact performsE_pure _

/-- `!cancel` signals the child that it finds, or says that there is none. -/
theorem cancel_handleCancelCommand (room : RoomId) (event : RoomMessageText) (mention : UserId) :
    PerformsE CancelEff (handleCancelCommand room event mention) := by
  refine performsE_bind (cancel_findActive room) fun found => ?_
  split
  · exact (still_notice _ _ _).mono fun _ => CancelEff.of_still
  · refine performsE_bind ?_ fun _ => (still_notice _ _ _).mono fun _ => CancelEff.of_still
    refine performsE_tryCatch (performsE_mk ⟨trivial, fun _ => trivial⟩) fun x => ?_
    split
    · exact performsE_pure _
    · exact performsE_throw _

/-! ## The parts of a turn that are not plain -/

/-- The effects of `_run_claude` with these arguments. -/
def RunEff (argv : List Str) (dir : Str) (agent : AgentName) (turn : Turn) : Eff → Prop
  | .await (.exec argv' dir' agent' turn') =>
    argv' = argv ∧ dir' = dir ∧ agent' = agent ∧ turn' = turn
  | .await .pause | .await (.communicate _ _) | .await (.wait _) | .await (.drain _)
  | .sync (.activeSet _ _) | .sync (.activePop _) | .sync (.kill _) | .sync (.returncode _)
  | .sync (.mark (.leftRun _ _ _)) => True
  | _ => False

/-- The effects of `_record_pending_if_gated` with these arguments. -/
def RecordEff (room : RoomId) (session : SessionId) (root : EventId) : Eff → Prop
  | .sync (.execute (.insertPendingApproval row)) =>
    row.roomId = room ∧ row.sessionId = session ∧ row.threadRootId = root
  | .sync (.mark (.recording room' session' root')) =>
    room' = room ∧ session' = session ∧ root' = root
  | .await (.fetchPending _ _) | .await (.linkSession _ _) | .await .pause
  | .sync .registryEnabled | .sync .time | .sync .commit => True
  | _ => False

section

variable {argv : List Str} {dir : Str} {agent : AgentName} {room : RoomId} {turn : Turn}

/-- The child is waited for, and killed if it times out. -/
theorem run_communicateOrKill (pid : Pid) (timeout : Nat) :
    PerformsE (RunEff argv dir agent turn) (communicateOrKill pid timeout) := by
  refine performsE_tryCatch (performsE_await trivial) fun x => ?_
  split
  · refine performsE_bind (performsE_mk ⟨trivial, fun _ => trivial⟩) fun _ => ?_
    refine performsE_bind (performsE_await trivial) fun _ => ?_
    refine performsE_bind ?_ fun _ => performsE_throw _
    exact performsE_tryExcept (performsE_await trivial) fun _ => performsE_pure _
  · exact performsE_throw _

/-- The runner starts one child, the one that it was called for. -/
theorem run_runClaude (timeout : Nat) :
    PerformsE (RunEff argv dir agent turn) (runClaude argv dir agent room timeout turn) := by
  refine performsE_bind (performsE_network ⟨rfl, rfl, rfl, rfl⟩ trivial) fun pid => ?_
  refine performsE_bind (performsE_sync trivial) fun _ => ?_
  refine performsE_bind (performsE_attempt (performsE_finallyDo (run_communicateOrKill _ _)
    ⟨trivial, fun _ => trivial⟩)) fun res => ?_
  refine performsE_bind (performsE_sync trivial) fun _ => ?_
  refine performsE_bind (performsE_fromExcept _) fun outputs => ?_
  exact performsE_bind (performsE_sync trivial) fun _ => performsE_pure _

/-- The calls of the registry for an approval. -/
theorem record_failOpen {α : Type} {session : SessionId} {root : EventId} {default : α} {p : Py α}
    (hp : PerformsE (RecordEff room session root) p) :
    PerformsE (RecordEff room session root) (Registry.failOpen default p) := by
  refine performsE_bind (performsE_sync trivial) fun enabled => ?_
  split
  · exact performsE_tryExcept hp fun _ => performsE_pure _
  · exact performsE_pure _

/-- `_record_pending_if_gated` queries the registry and inserts one row at most. -/
theorem record_recordPendingIfGated {session : SessionId} {root : EventId} (start : Time) :
    PerformsE (RecordEff room session root)
      (recordPendingIfGated agent room session root start) := by
  refine performsE_bind (performsE_sync ⟨rfl, rfl, rfl⟩) fun _ => ?_
  refine performsE_bind (performsE_sync trivial) fun enabled => ?_
  split
  · refine performsE_bind (record_failOpen (performsE_network trivial trivial)) fun found => ?_
    split
    · exact performsE_pure _
    · refine performsE_bind ?_ fun _ => record_failOpen (performsE_network trivial trivial)
      refine performsE_bind (performsE_bind (performsE_sync trivial) fun _ => performsE_pure _)
        fun now => ?_
      exact performsE_bind (performsE_execute ⟨rfl, rfl, rfl⟩) fun _ => performsE_commit trivial
  · exact performsE_pure _

end

/-! ## Messages of the trusted sender -/

/-- The handler of a thread reply begins with the lookup. -/
theorem handleEvent_of_thread {args : HandlerArgs} {root : EventId}
    (htrusted : args.event.sender = args.trustedSender)
    (hthread : extractThreadRoot args.event = .ok (some root)) :
    handleEvent args = (do
      match ← Store.getSessionByEvent root with
      | some row => handleReply args args.event.body.strip row
      | none => handleOrphan args root) := by
  rw [handleEvent, if_neg (not_not.mpr htrusted), hthread]
  rfl

/-- A message at the root of the room is a command or starts a session. -/
theorem handleEvent_of_root {args : HandlerArgs}
    (htrusted : args.event.sender = args.trustedSender)
    (hroot : extractThreadRoot args.event = .ok none) :
    handleEvent args =
      if (lit "!").isPrefixOf args.event.body.strip then handleCommand args args.event.body.strip
      else withRoomLock args.roomId (rootTurn args args.event.body.strip) := by
  rw [handleEvent, if_neg (not_not.mpr htrusted), hroot]
  rfl

end MatrixDispatcher
