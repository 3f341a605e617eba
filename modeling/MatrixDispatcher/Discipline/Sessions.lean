import MatrixDispatcher.Coro.Contract
import MatrixDispatcher.Discipline.Footprint

/-!
# What tasks do with sessions

Where the session ids, rooms and thread roots come from that a task passes on: to the tables, to
the runner, to a child.

* `resumeOf`, `spawnOf`, `Turn.argv` — the turns of the runner and their command lines.
* `SessionTerms` — what a task may do with sessions, and what it relies on in the rows and ids
  that it is given; `SessionTerms.contract` is the contract made of them.
* `handler_keeps`, `reconcile_keeps`, `main_keeps`, `cleanup_keeps` — the tasks keep it.
-/

namespace MatrixDispatcher

open Py Coro

/-! ## Turns -/

/-- The turn of a thread reply. -/
def replyOf (args : HandlerArgs) (message : Str) (row : SessionRow) : Turn :=
  resumeOf args.agentName args.roomId row.sessionId row.threadRootId none message

/-- The turn of a new session. -/
def newOf (args : HandlerArgs) (message : Str) (session : SessionId) : Turn :=
  spawnOf args.agentName args.roomId session args.event.eventId (spawnPrompt args.agentName message)

/-- The turn of an approval. -/
def approvedOf (row : PendingRow) (agent : AgentName) : Turn :=
  resumeOf agent row.roomId row.sessionId row.threadRootId (some row.approvalId)
    (nudge row.toolName row.approvalId)

/-! ## Terms -/

/-- What a task may do with sessions, and what it relies on. -/
structure SessionTerms where
  /-- It looks for the session of this event. -/
  looks : EventId → Prop
  /-- It inserts a session with this thread root, room, agent and id. -/
  inserts : EventId → RoomId → AgentName → SessionId → Prop
  /-- It records an approval of this thread root, session and room. -/
  records : EventId → SessionId → RoomId → Prop
  /-- It has the runner make this turn in this directory. -/
  calls : Turn → Str → Prop
  /-- It makes this event an alias of this thread root. -/
  aliases : EventId → EventId → Prop
  creates : HandlerArgs → Prop
  /-- Ids that `uuid4` makes. -/
  minted : SessionId → Prop
  /-- Stems of transcripts that are UUIDs. -/
  listed : SessionId → Prop
  /-- Sessions whose insertion succeeds. -/
  inserted : EventId → RoomId → AgentName → SessionId → Prop
  /-- Sessions that are found for an event. -/
  found : EventId → SessionRow → Prop
  /-- Sessions of this room that are listed. -/
  recent : RoomId → SessionRow → Prop
  /-- Rows that wait for their approval. -/
  pending : PendingRow → Prop
  /-- Events of this room that are posted. -/
  posted : RoomId → EventId → Prop

namespace SessionTerms

variable (C : SessionTerms)

/-- What is promised of an effect. -/
def promises : Eff → Prop
  | .sync (.execute (.getSessionByEvent e)) => C.looks e
  | .sync (.execute (.insertSession root room agent session _)) => C.inserts root room agent session
  | .sync (.execute (.insertPendingApproval row)) =>
    C.records row.threadRootId row.sessionId row.roomId
  | .sync (.execute (.registerAlias e root)) => C.aliases e root
  | .sync (.createTask (.handle args)) => C.creates args
  | .sync (.mark (.runnerCall turn)) => ∃ cwd, C.calls turn cwd
  | .await (.exec argv cwd agent turn) =>
    C.calls turn cwd ∧ argv = turn.argv ∧ agent = turn.agentName
  | _ => True

/-- What is relied on in a response. -/
def relies : (e : Eff) → e.Ret → Prop
  | .sync .uuid4, session => C.minted session
  | .sync (.listTranscripts _), .ok (some files) =>
    ∀ f ∈ files, uuidAccepts f.1 = true → C.listed f.1
  | .sync (.execute (.insertSession root room agent session _)), .ok _ =>
    C.inserted root room agent session
  | .sync (.execute (.getSessionByEvent e)), .ok (some row) => C.found e row
  | .sync (.execute (.recentSessions room _)), .ok rows => ∀ row ∈ rows, C.recent room row
  | .sync (.execute .getPendingApprovals), .ok rows => ∀ row ∈ rows, C.pending row
  | .await (.roomSend room _ _), .ok e => C.posted room e
  | _, _ => True

/-- The contract of a task with these terms. -/
def contract : Contract Eff Eff.Ret where
  promises := C.promises
  relies := C.relies

/-- The events that are posted in this room may become aliases of this thread root. -/
def Threads (room : RoomId) (root : EventId) : Prop := ∀ e, C.posted room e → C.aliases e root

/-- The program keeps the terms. -/
abbrev Keeps {α : Type} (p : Py α) (Q : α → Prop) : Prop := C.contract.KeepsE p Q

variable {C} {α β : Type}

/-- Nothing is promised of an effect that leaves sessions aside. -/
theorem promises_of_aside {e : Eff} (h : Aside e) : C.promises e := by
  unfold promises
  split <;> trivial

/-- A program that leaves sessions aside. -/
theorem performs_of_aside {p : Py α} (hp : PerformsE Aside p) : PerformsE C.promises p :=
  hp.mono fun _ => promises_of_aside

/-- A program that is still. -/
theorem performs_of_still {p : Py α} (hp : PerformsE Still p) : PerformsE C.promises p :=
  performs_of_aside (aside_still hp)

/-- A statement. -/
theorem keeps_execute {s : Stmt} (h : C.promises (.sync (.execute s))) :
    C.Keeps (execute s) fun v => C.relies (.sync (.execute s)) (.ok v) :=
  ⟨h, fun r hr v heq => by
    obtain rfl : r = .ok v := heq
    exact hr⟩

end SessionTerms

open SessionTerms Contract

variable {C : SessionTerms}

/-! ## Posts -/

/-- An operation of another program answers with what is relied on in its response, and its second
await promises nothing. -/
theorem keeps_network {e : AwaitEff} (h : C.promises (.await e)) :
    C.Keeps (network e) fun v => C.relies (.await e) (.ok v) := by
  refine Keeps.bind (Q := fun res => ∀ r, res = .ok r → C.relies (.await e) r)
    ⟨h, fun r hr r' heq => by cases heq; exact hr⟩ fun res hres => ?_
  rcases res with x | r
  · exact nofun
  · have hr := hres r rfl
    cases r with
    | ok v => exact KeepsE.bind_performs (performsE_await trivial) fun _ => KeepsE.pure hr
    | error x =>
      cases x with
      | cancelledError => exact KeepsE.throw
      | _ => exact KeepsE.bind_performs (performsE_await trivial) fun _ => KeepsE.throw

/-- A post returns an event of its room. -/
theorem keeps_postMessage {room : RoomId} {body : Str} {replyTo : Option EventId} :
    C.Keeps (postMessage room body replyTo) (C.posted room) :=
  keeps_network trivial

/-- `register_alias` promises the alias that it is called with. -/
theorem performs_registerAlias {e root : EventId} (h : C.aliases e root) :
    PerformsE C.promises (Store.registerAlias e root) := by
  rw [Store.registerAlias]
  split
  · exact performsE_pure _
  · exact performsE_bind (performsE_execute h) fun _ => performsE_commit trivial

/-- A post whose event id becomes an alias. -/
theorem keeps_postAlias {room : RoomId} {body : Str} {replyTo : Option EventId} {root : EventId}
    (h : C.Threads room root) :
    C.Keeps (do let e ← postMessage room body replyTo; Store.registerAlias e root) fun _ => True :=
  keeps_postMessage.bind fun e he => KeepsE.of_performs (performs_registerAlias (h e he))

/-- Every chunk becomes an alias of `root`, since `root` takes what is posted in the room. -/
theorem keeps_postChunks {room : RoomId} {mention : UserId} {target root : EventId} {i : Nat}
    {chunks : List Str} (h : C.Threads room root) :
    C.Keeps (postChunks room mention target root i chunks) fun _ => True := by
  induction chunks generalizing i with
  | nil => exact KeepsE.pure trivial
  | cons chunk chunks ih =>
    refine keeps_postMessage.bind fun e he => ?_
    exact KeepsE.bind_performs (performs_registerAlias (h e he)) fun _ => ih

/-- A response, in chunks or as an error, becomes aliases of `root`. -/
theorem keeps_postResponse {room : RoomId} {output : Str} {rc : Int} {session : SessionId}
    {mention : UserId} {maxLen : Nat} {target : EventId} {action : Str} {root : EventId}
    (h : C.Threads room root) :
    C.Keeps (postResponse room output rc session mention maxLen target action root)
      fun _ => True := by
  rw [postResponse]
  split
  · exact keeps_postAlias h
  · exact KeepsE.bind_performs (performsE_fromExcept _) fun _ => keeps_postChunks h

/-! ## Turns of the runner -/

/-- The room lock adds nothing to what its body promises. -/
theorem keeps_withRoomLock {α : Type} {room : RoomId} {body : Py α} {Q : α → Prop}
    (hbody : C.Keeps body Q) : C.Keeps (withRoomLock room body) Q := by
  refine KeepsE.bind_performs (performsE_bind (performsE_sync trivial) fun got => ?_) fun _ => ?_
  · split
    · exact performsE_pure _
    · exact performsE_await trivial
  · exact KeepsE.finallyDo hbody ⟨trivial, fun _ => trivial⟩

/-- `_run_claude` starts its child with the command line and the directory of its turn. -/
theorem performs_runClaude {dir : Str} {room : RoomId} {timeout : Nat} {turn : Turn}
    (h : C.calls turn dir) :
    PerformsE C.promises (runClaude turn.argv dir turn.agentName room timeout turn) := by
  refine (run_runClaude timeout).mono fun e he => ?_
  unfold RunEff at he
  split at he
  · obtain ⟨rfl, rfl, rfl, rfl⟩ := he
    exact ⟨h, rfl, rfl⟩
  all_goals trivial

/-- Calling the runner promises the call and the child of this turn. -/
theorem performs_callRunner {turn : Turn} {dir : Str} {timeout : Nat} (h : C.calls turn dir) :
    PerformsE C.promises (callRunner turn dir timeout) :=
  performsE_bind (performsE_sync ⟨dir, h⟩) fun _ => performs_runClaude h

/-- The row that `record_pending_if_gated` inserts has the thread root, session and room that it is
called with. -/
theorem performs_recordPendingIfGated {agent : AgentName} {room : RoomId} {session : SessionId}
    {root : EventId} {start : Time} (h : C.records root session room) :
    PerformsE C.promises (recordPendingIfGated agent room session root start) := by
  refine (record_recordPendingIfGated start).mono fun e he => ?_
  unfold RecordEff at he
  split at he
  · obtain ⟨rfl, rfl, rfl⟩ := he
    exact h
  all_goals trivial

/-! ## Messages -/

/-- What the terms must say for a turn of a thread reply. -/
structure SessionTerms.Replies (C : SessionTerms) (args : HandlerArgs) (row : SessionRow) :
    Prop where
  calls : C.calls (replyOf args args.event.body.strip row) args.projectDir
  records : C.records row.threadRootId row.sessionId args.roomId
  threads : C.Threads args.roomId row.threadRootId

variable {args : HandlerArgs}

/-- A reply whose row fits keeps the terms. -/
theorem keeps_replyTurn {row : SessionRow} {ack : EventId} (h : C.Replies args row) :
    C.Keeps (replyTurn args args.event.body.strip row ack) fun _ => True := by
  refine KeepsE.bind_performs (performsE_sync trivial) fun start => ?_
  refine KeepsE.bind_performs (performsE_attempt (performs_callRunner h.calls)) fun res => ?_
  split
  · exact keeps_postAlias h.threads
  · exact KeepsE.throw
  · refine KeepsE.bind_performs (performs_of_still (still_touchSession _)) fun _ => ?_
    refine (keeps_postResponse h.threads).bind fun _ _ => ?_
    exact KeepsE.of_performs (performs_recordPendingIfGated h.records)

/-- The handling of a reply, its acknowledgement and its lock included, keeps the terms. -/
theorem keeps_handleReply {row : SessionRow} (h : C.Replies args row) :
    C.Keeps (handleReply args args.event.body.strip row) fun _ => True := by
  refine keeps_postMessage.bind fun ack hack => ?_
  refine KeepsE.bind_performs (performs_registerAlias (h.threads ack hack)) fun _ => ?_
  refine KeepsE.bind_performs (performs_of_aside (aside_registerSession _ _ _ _ _)) fun _ => ?_
  exact keeps_withRoomLock (keeps_replyTurn h)

/-- `insert_session` inserts what it is called with, and has done so when it returns. -/
theorem keeps_insertSession {root : EventId} {room : RoomId} {agent : AgentName}
    {session : SessionId} (h : C.inserts root room agent session) :
    C.Keeps (Store.insertSession root room agent session) fun _ =>
      C.inserted root room agent session := by
  refine KeepsE.bind_performs (performs_of_still still_now) fun now => ?_
  have hexecute := keeps_execute (C := C) (s := .insertSession root room agent session now) h
  refine hexecute.bind fun _ hinserted => ?_
  exact (KeepsE.of_performs (performsE_commit trivial)).mono fun _ _ => hinserted

/-- What the terms must say for the turn of a new session. -/
structure SessionTerms.Spawns (C : SessionTerms) (args : HandlerArgs) (session : SessionId) :
    Prop where
  calls : C.calls (newOf args args.event.body.strip session) args.projectDir
  records : C.records args.event.eventId session args.roomId
  threads : C.Threads args.roomId args.event.eventId

/-- What the terms must say for the handler of a message. -/
structure SessionTerms.Fits (C : SessionTerms) (args : HandlerArgs) : Prop where
  looks : ∀ e, extractThreadRoot args.event = .ok (some e) → C.looks e
  /-- A session that is found is resumed. -/
  reply : ∀ e row, extractThreadRoot args.event = .ok (some e) → C.found e row →
    C.Replies args row
  /-- A new session is inserted, then spawned. -/
  spawn : ∀ session, extractThreadRoot args.event = .ok none → C.minted session →
    C.inserts args.event.eventId args.roomId args.agentName session ∧
      (C.inserted args.event.eventId args.roomId args.agentName session → C.Spawns args session)
  /-- A transcript that is not tracked is inserted. -/
  mirror : ∀ session, extractThreadRoot args.event = .ok none → C.listed session →
    C.inserts args.event.eventId args.roomId args.agentName session ∧
      (C.inserted args.event.eventId args.roomId args.agentName session →
        C.Threads args.roomId args.event.eventId)
  /-- A reply to an entry of the list of sessions belongs to the thread of its session. -/
  list : ∀ row, C.recent args.roomId row → C.Threads args.roomId row.threadRootId

/-- A new session keeps the terms if every minted id may be inserted under this event, and may be
called and recorded once it is. -/
theorem keeps_spawnTurn
    (h : ∀ session, C.minted session →
      C.inserts args.event.eventId args.roomId args.agentName session ∧
        (C.inserted args.event.eventId args.roomId args.agentName session →
          C.Spawns args session)) :
    C.Keeps (spawnTurn args args.event.body.strip) fun _ => True := by
  refine (KeepsE.lift trivial).bind fun session hminted => ?_
  obtain ⟨hinserts, hrest⟩ := h session hminted
  refine keeps_postMessage.bind fun ack hack => ?_
  refine (keeps_insertSession hinserts).bind fun _ hinserted => ?_
  -- The session is inserted, so it may be called and recorded.
  have hspawns := hrest hinserted
  refine KeepsE.bind_performs (performs_registerAlias (hspawns.threads ack hack)) fun _ => ?_
  refine KeepsE.bind_performs (performs_of_aside (aside_registerSession _ _ _ _ _)) fun _ => ?_
  refine KeepsE.bind_performs (performsE_sync trivial) fun start => ?_
  refine KeepsE.bind_performs (performsE_attempt (performs_callRunner hspawns.calls)) fun res => ?_
  split
  · exact keeps_postAlias hspawns.threads
  · exact KeepsE.throw
  · refine (keeps_postResponse hspawns.threads).bind fun _ _ => ?_
    exact KeepsE.of_performs (performs_recordPendingIfGated hspawns.records)

/-- `newestUnknown` chooses the stem of one of the files, a UUID that is not among the known ids. -/
theorem mem_of_newestUnknown {known : List SessionId} {files : List (Str × Time)}
    {session : SessionId} (h : newestUnknown known files = some session) :
    session ∉ known ∧ uuidAccepts session = true ∧ ∃ f ∈ files, f.1 = session := by
  obtain ⟨f, hlatest, rfl⟩ := Option.map_eq_some_iff.mp h
  obtain ⟨hmem, hkeep⟩ := List.mem_filter.mp (mem_of_latestBy hlatest)
  obtain ⟨hknown, haccepts⟩ := Bool.and_eq_true_iff.mp hkeep
  exact ⟨by simpa using hknown, haccepts, f, hmem, rfl⟩

/-- The session that `find_unmirrored_session_id` finds was listed. -/
theorem keeps_findUnmirroredSessionId {dir : Str} {room : RoomId} :
    C.Keeps (findUnmirroredSessionId dir room) fun found =>
      ∀ session, found = some session → C.listed session := by
  have hlist : C.Keeps (ExceptT.mk (Coro.perform (Eff.sync (.listTranscripts dir))))
      fun files => ∀ fs, files = some fs → ∀ f ∈ fs, uuidAccepts f.1 = true → C.listed f.1 := by
    refine ⟨trivial, fun r hr files heq fs hfs => ?_⟩
    obtain rfl : r = .ok files := heq
    subst hfs
    exact hr
  refine hlist.bind fun files hfiles => ?_
  split
  · exact KeepsE.pure nofun
  · next fs =>
    refine KeepsE.bind_performs (performsE_execute trivial) fun known => KeepsE.pure ?_
    intro session hnewest
    obtain ⟨-, haccepts, f, hmem, rfl⟩ := mem_of_newestUnknown hnewest
    exact hfiles fs rfl f hmem haccepts

/-- `!mirror` keeps the terms if every listed id may be inserted under this event. -/
theorem keeps_handleMirrorCommand {mention : UserId} {url : Str}
    (h : ∀ session, C.listed session →
      C.inserts args.event.eventId args.roomId args.agentName session ∧
        (C.inserted args.event.eventId args.roomId args.agentName session →
          C.Threads args.roomId args.event.eventId)) :
    C.Keeps (handleMirrorCommand args.roomId args.event mention args.agentName args.projectDir url)
      fun _ => True := by
  refine keeps_findUnmirroredSessionId.bind fun found hfound => ?_
  split
  · exact KeepsE.of_performs (performs_of_still (still_notice _ _ _))
  · next session =>
    obtain ⟨hinserts, hthreads⟩ := h session (hfound session rfl)
    refine (keeps_insertSession hinserts).bind fun _ hinserted => ?_
    refine KeepsE.bind_performs (performs_of_aside (aside_registerSession _ _ _ _ _)) fun _ => ?_
    exact keeps_postAlias (hthreads hinserted)

/-- The list of sessions becomes aliases of the thread roots of its rows. -/
theorem keeps_postSessions {room : RoomId} {dir : Str} {header : EventId} {i : Nat}
    {rows : List SessionRow} (h : ∀ row ∈ rows, C.Threads room row.threadRootId) :
    C.Keeps (postSessions room dir header i rows) fun _ => True := by
  induction rows generalizing i with
  | nil => exact KeepsE.pure trivial
  | cons row rows ih =>
    refine KeepsE.bind_performs (performs_of_still (still_readFirstUserMessage _ _)) fun _ => ?_
    refine keeps_postMessage.bind fun item hitem => ?_
    refine KeepsE.bind_performs
      (performs_registerAlias (h row List.mem_cons_self item hitem)) fun _ => ?_
    exact ih fun row hrow => h row (List.mem_cons_of_mem _ hrow)

/-- `!sessions` keeps the terms if the threads of recent rows take posts of the room. -/
theorem keeps_handleSessionsCommand {room : RoomId} {event : RoomMessageText} {mention : UserId}
    {agent : AgentName} {dir : Str}
    (h : ∀ row, C.recent room row → C.Threads room row.threadRootId) :
    C.Keeps (handleSessionsCommand room event mention agent dir) fun _ => True := by
  refine (keeps_execute (C := C) (s := .recentSessions room 10) trivial).bind fun rows hrows => ?_
  split
  · exact KeepsE.of_performs (performs_of_still (still_notice _ _ _))
  · refine KeepsE.bind_performs (performs_of_still (still_postMessage _ _ _)) fun _ => ?_
    exact keeps_postSessions fun row hrow => h row (hrows row hrow)

/-- `!cancel` leaves sessions aside. -/
theorem performs_handleCancelCommand {room : RoomId} {event : RoomMessageText} {mention : UserId} :
    PerformsE C.promises (handleCancelCommand room event mention) := by
  refine (cancel_handleCancelCommand room event mention).mono fun e he => ?_
  unfold CancelEff at he
  split at he <;> first | trivial | exact promises_of_aside he.1

/-- A command keeps the terms; the hypothesis on inserts is needed for `!mirror` only. -/
theorem keeps_handleCommand {message : Str}
    (hmirror : message.splitWord.1.lower = lit "!mirror" → ∀ session, C.listed session →
      C.inserts args.event.eventId args.roomId args.agentName session ∧
        (C.inserted args.event.eventId args.roomId args.agentName session →
          C.Threads args.roomId args.event.eventId))
    (hlist : ∀ row, C.recent args.roomId row → C.Threads args.roomId row.threadRootId) :
    C.Keeps (handleCommand args message) fun _ => True := by
  rw [handleCommand]
  dsimp only
  split
  · exact KeepsE.of_performs (performs_of_still (still_handleHelpCommand _ _ _))
  split
  · exact keeps_handleSessionsCommand hlist
  split
  · exact KeepsE.of_performs (performs_of_still (still_handleRecapCommand _ _ _ _ _ _))
  split
  · next hcmd => exact keeps_handleMirrorCommand (hmirror hcmd)
  split
  · exact KeepsE.of_performs performs_handleCancelCommand
  · exact KeepsE.of_performs (performs_of_still (still_notice _ _ _))

/-- The rate limit adds nothing to what a spawn promises. -/
theorem keeps_rootTurn {message : Str}
    (h : C.Keeps (spawnTurn args message) fun _ => True) :
    C.Keeps (rootTurn args message) fun _ => True := by
  refine KeepsE.bind_performs (performsE_sync trivial) fun now => ?_
  refine KeepsE.bind_performs (performsE_sync trivial) fun last => ?_
  dsimp only
  split
  · exact KeepsE.of_performs (performs_of_still (still_notice _ _ _))
  · exact KeepsE.bind_performs (performsE_sync trivial) fun _ => h

/-- A handler whose arguments fit keeps the terms. -/
theorem keeps_handleEvent (h : C.Fits args) : C.Keeps (handleEvent args) fun _ => True := by
  by_cases htrusted : args.event.sender = args.trustedSender
  case neg =>
    rw [handleEvent, if_pos htrusted]
    exact KeepsE.pure trivial
  rcases hthread : extractThreadRoot args.event with x | _ | root
  · rw [handleEvent, if_neg (not_not.mpr htrusted), hthread]
    exact KeepsE.throw
  · -- a message at the root of the room: a command or a new session
    rw [handleEvent_of_root htrusted hthread]
    split
    · exact keeps_handleCommand (fun _ session => h.mirror session hthread) h.list
    · exact keeps_withRoomLock
        (keeps_rootTurn (keeps_spawnTurn fun session => h.spawn session hthread))
  · rw [handleEvent_of_thread htrusted hthread]
    -- The terms on lookups cover the row that is found.
    have hlook := keeps_execute (C := C) (s := .getSessionByEvent root) (h.looks root hthread)
    refine hlook.bind fun row hrow => ?_
    rcases row with _ | row
    · exact KeepsE.of_performs (performs_of_still (still_handleOrphan _ _))
    · exact keeps_handleReply (h.reply root row hthread hrow)

/-- The task of a message. -/
theorem handler_keeps (h : C.Fits args) : C.contract.Binds (handlerFiber args) := by
  have hhandle : C.Keeps (do await .start; handleEvent args) fun _ => True :=
    KeepsE.bind_performs (performsE_await trivial) fun _ => keeps_handleEvent h
  refine Binds.once (Keeps.bind (Q := fun _ => True) (Keeps.mono (fun _ _ => trivial) hhandle)
    fun _ _ => Keeps.of_performs ⟨trivial, fun _ => trivial⟩)

/-! ## Reconcile passes -/

/-- What the terms must say for a row whose approval is reconciled. -/
structure SessionTerms.Resumes (C : SessionTerms) (config : MatrixDispatcher.Config)
    (row : PendingRow) : Prop where
  calls : ∀ agent cfg dir, config.roomToAgent row.roomId = some (agent, cfg) →
    cfg.projectDir = some dir → C.calls (approvedOf row agent) dir
  records : C.records row.threadRootId row.sessionId row.roomId
  threads : C.Threads row.roomId row.threadRootId

variable {config : MatrixDispatcher.Config}

/-- Deleting a row promises nothing. -/
theorem performs_deletePendingApproval {a : ApprovalId} {site : DeleteSite} :
    PerformsE C.promises (Store.deletePendingApproval a site) :=
  performsE_bind (performsE_execute trivial) fun _ => performsE_commit trivial

/-- A resume of a row that fits keeps the terms. -/
theorem keeps_resumeTurn {row : PendingRow} {dir : Str} {agent : AgentName} {timeout : Nat}
    (hcalls : C.calls (approvedOf row agent) dir) (h : C.Resumes config row) :
    C.Keeps (resumeTurn config row dir agent timeout) fun _ => True := by
  refine KeepsE.bind_performs (performsE_sync trivial) fun start => ?_
  refine KeepsE.bind_performs (performsE_attempt (performs_callRunner hcalls)) fun res => ?_
  split
  · exact KeepsE.throw
  · exact keeps_postAlias h.threads
  · exact keeps_postAlias h.threads
  · refine KeepsE.bind_performs (performs_of_still (still_touchSession _)) fun _ => ?_
    refine (keeps_postResponse h.threads).bind fun _ _ => ?_
    exact KeepsE.of_performs (performs_recordPendingIfGated h.records)

/-- The resume of an approved row keeps the terms, its lock included. -/
theorem keeps_resumeOnApproval {row : PendingRow} (h : C.Resumes config row) :
    C.Keeps (resumeOnApproval config row) fun _ => True := by
  rw [resumeOnApproval]
  split
  · exact KeepsE.of_performs performs_deletePendingApproval
  · next hagent =>
    split
    · exact KeepsE.throw
    · next hdir =>
      refine KeepsE.bind_performs performs_deletePendingApproval fun _ => ?_
      exact keeps_withRoomLock (keeps_resumeTurn (h.calls _ _ _ hagent hdir) h)

/-- The handling of a row keeps the terms, whatever its state is. -/
theorem keeps_reconcileRow {states : List (ApprovalId × ApprovalState)} {row : PendingRow}
    (h : C.Resumes config row) : C.Keeps (reconcileRow config states row) fun _ => True := by
  rw [reconcileRow]
  split
  · exact keeps_resumeOnApproval h
  · refine KeepsE.bind_performs performs_deletePendingApproval fun _ => ?_
    exact keeps_postAlias h.threads
  · exact KeepsE.pure trivial

/-- The rows that are left are rows of the table. -/
theorem keeps_expireStale {now : Int} (rows : List PendingRow) :
    C.Keeps (expireStale now rows) fun live => live ⊆ rows := by
  induction rows with
  | nil => exact KeepsE.pure (List.Subset.refl _)
  | cons row rows ih =>
    rw [expireStale]
    split
    · refine KeepsE.bind_performs performs_deletePendingApproval fun _ => ?_
      exact ih.mono fun live hlive => List.Subset.trans hlive (List.subset_cons_self _ _)
    · exact ih.bind fun live hlive => KeepsE.pure (List.cons_subset_cons row hlive)

/-- A pass over rows that fit keeps the terms. -/
theorem keeps_reconcileRows {rows : List PendingRow} (h : ∀ row ∈ rows, C.Resumes config row) :
    C.Keeps (reconcileRows config rows) fun _ => True := by
  refine KeepsE.bind_performs (performs_of_still still_now) fun now => ?_
  refine KeepsE.bind_performs (performsE_sync trivial) fun _ => ?_
  refine (keeps_expireStale rows).bind fun live hlive => ?_
  refine KeepsE.bind_performs (performsE_sync trivial) fun _ => ?_
  split
  · exact KeepsE.pure trivial
  · refine KeepsE.bind_performs (performsE_getApprovalStates trivial trivial trivial)
      fun states => ?_
    exact KeepsE.forEach fun row hrow => keeps_reconcileRow (h row (hlive hrow))

/-- A pass keeps the terms if every row that waits for its approval fits. -/
theorem keeps_reconcileOnce (h : ∀ row, C.pending row → C.Resumes config row) :
    C.Keeps (reconcileOnce config) fun _ => True := by
  refine KeepsE.finallyDo ?_ ⟨trivial, fun _ => trivial⟩
  refine KeepsE.bind_performs (performsE_sync trivial) fun enabled => ?_
  split
  · refine (keeps_execute (C := C) (s := .getPendingApprovals) trivial).bind fun rows hrows => ?_
    split
    · exact KeepsE.pure trivial
    · exact keeps_reconcileRows fun row hrow => h row (hrows row hrow)
  · exact KeepsE.pure trivial

/-- A loop goes on with the next round, or ends. -/
theorem keeps_nextRound {σ : Type} {onEnd : Coro Eff Eff.Ret Unit} (h : onEnd.Performs C.promises)
    (res : Except Exn σ) : C.contract.Keeps (nextRound onEnd res) fun _ => True := by
  cases res with
  | ok s => trivial
  | error x => exact (Keeps.of_performs h).bind fun _ _ => trivial

/-- The reconcile loop. -/
theorem reconcile_keeps (h : ∀ row, C.pending row → C.Resumes config row) :
    C.contract.Binds (reconcileFiber config) := by
  have hround : C.contract.Keeps
      (do nextRound endTask (← (reconcileRound config).run)) fun _ => True := by
    have hpass : C.Keeps (reconcileRound config) fun _ => True := by
      refine KeepsE.bind (Q := fun _ => True) ?_ fun _ _ =>
        KeepsE.of_performs (performsE_await trivial)
      refine KeepsE.tryCatch (keeps_reconcileOnce h) fun x => ?_
      split
      · exact KeepsE.pure trivial
      · exact KeepsE.throw
    exact Keeps.bind (Q := fun _ => True) (Keeps.mono (fun _ _ => trivial) hpass)
      fun res _ => keeps_nextRound (performs_endTask trivial) res
  refine ⟨Keeps.bind (Keeps.of_performs ?_) fun res _ => ?_, fun _ => hround⟩
  · exact performsE_bind (performsE_await trivial) fun _ => performsE_sync trivial
  · split
    · exact hround
    · exact (Keeps.of_performs (performs_endTask trivial)).bind fun _ _ => trivial

/-! ## The other tasks -/

/-- The cleanup loop. -/
theorem cleanup_keeps : C.contract.Binds (cleanupFiber config) := by
  have hround := performs_of_still (C := C) (still_cleanupRound config)
  refine ⟨Keeps.bind (Keeps.of_performs ?_) fun res _ =>
      keeps_nextRound (performs_endTask trivial) res,
    fun _ => Keeps.bind (Keeps.of_performs hround) fun res _ =>
      keeps_nextRound (performs_endTask trivial) res⟩
  exact performsE_bind (performsE_await trivial) fun _ => hround

/-- Main promises of its effects only that it creates handlers of configured rooms. -/
theorem promises_of_main {e : Eff} (he : MainEff config e)
    (hcreates : ∀ args, config.agentOf args.roomId = some args.agentName → C.creates args) :
    C.promises e := by
  rcases he with he | rfl | he
  · unfold LoopEff at he
    split at he <;> try trivial
    unfold PollEff at he
    split at he <;> first | trivial | exact hcreates _ he | exact promises_of_aside he.1
  · trivial
  · unfold ShutdownEff at he
    split at he <;> trivial

/-- `main` dispatches messages with the agent of their room. -/
theorem main_keeps
    (h : ∀ args, config.agentOf args.roomId = some args.agentName → C.creates args) :
    C.contract.Binds (mainFiber config) := by
  have hpromises : ∀ e, MainEff config e → C.promises e := fun e he => promises_of_main he h
  obtain ⟨hprog, hnext⟩ := @main_performs config
  exact ⟨Keeps.of_performs (hprog.mono hpromises),
    fun s => Keeps.of_performs ((hnext s).mono hpromises)⟩

end MatrixDispatcher
