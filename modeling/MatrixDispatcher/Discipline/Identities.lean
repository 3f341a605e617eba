import MatrixDispatcher.Discipline.Rules
import MatrixDispatcher.Discipline.Sessions
import MatrixDispatcher.Discipline.Supervise

/-!
# The session that a task may insert

One session id is watched. A handler may insert a row for it in two ways: it made the id itself,
or it found the id among the transcripts and not among the sessions of the room. Between that
lookup and the insertion it keeps the processor.

* `IdStage.step` — the automaton; only `IdStage.chosen` is atomic.
* `identityCoverage` — every task of the dispatcher follows the monitor.
-/

namespace MatrixDispatcher

open Py Coro

/-- What an effect and its response mean for one session id. -/
inductive IdAct where
  /-- The session of a thread is looked up. -/
  | look
  /-- `uuid4` makes the id. -/
  | mint
  | listed (files : List (Str × Time))
  /-- These are the sessions of the room. -/
  | known (room : RoomId) (ids : List SessionId)
  /-- A row of this room is inserted for the session. -/
  | insert (room : RoomId)
  /-- A row is inserted for another session. -/
  | insertOther
  /-- `spawn_claude` is called for the session. -/
  | spawn
  | time
  | other
  deriving DecidableEq

namespace IdAct

variable (session : SessionId)

/-- What an effect means. -/
def of : (e : Eff) → e.Ret → IdAct
  | .sync (.execute (.getSessionByEvent _)), _ => .look
  | .sync .uuid4, made => if made = session then .mint else .other
  | .sync (.listTranscripts _), .ok (some files) => .listed files
  | .sync (.execute (.sessionIds room)), .ok ids => .known room ids
  | .sync (.execute (.insertSession _ room _ inserted _)), _ =>
    if inserted = session then .insert room else .insertOther
  | .sync (.mark (.runnerCall turn)), _ =>
    if turn.runner = .spawnClaude ∧ turn.sessionId = session then .spawn else .other
  | .sync .time, _ => .time
  | _, _ => .other

end IdAct

/-- How far a task is with the session. -/
inductive IdStage where
  /-- No task runs. -/
  | idle
  /-- The handler may still make or find the id. -/
  | early
  /-- It has made the id. -/
  | minted
  /-- It has seen these transcripts. -/
  | listed (files : List (Str × Time))
  /-- The session is the newest of them that the room does not have. -/
  | chosen (room : RoomId)
  /-- It has inserted the session that it made. -/
  | made
  /-- It inserts the session no more. -/
  | closed

namespace IdStage

/-- The automaton of one session id. -/
def step (session : SessionId) : IdStage → IdAct → Option IdStage
  | early, .look | early, .insertOther => some closed
  | early, .mint => some minted
  | early, .listed files => some (listed files)
  | early, .known _ _ | early, .time | early, .other => some early
  | minted, .insert _ => some made
  | minted, .time | minted, .other => some minted
  | listed files, .known room ids =>
    some (if newestUnknown ids files = some session then chosen room else early)
  | listed files, .time | listed files, .other => some (listed files)
  | chosen room, .time => some (chosen room)
  | chosen room, .insert room' => if room' = room then some closed else none
  | made, .insert _ => none
  | made, _ => some made
  | closed, .insert _ | closed, .spawn => none
  | closed, _ => some closed
  | _, _ => none

/-- The task does not go on to make or insert the session. -/
def Spent : IdStage → Prop
  | idle | chosen _ | made | closed => True
  | _ => False

/-- The task runs, and others may run. -/
def Standing : IdStage → Prop
  | idle | chosen _ => False
  | _ => True

end IdStage

/-- The monitor of one session id. -/
def identityMonitor (session : SessionId) : Monitor Eff Eff.Ret IdStage where
  next g e r := g.step session (IdAct.of session e r)
  atomic
    | .chosen _ => true
    | _ => false
  final
    | .chosen _ => False
    | _ => True
  idle := .idle
  atomic_idle := rfl

/-! ## Rules -/

section

variable {α β : Type} {session : SessionId} {p : Py α} {g : IdStage} {e : Eff}

/-- From stage `g`, the coroutine follows the monitor, and does not end between a lookup and an
insertion. -/
abbrev Identifies (session : SessionId) (g : IdStage) (p : Py α) : Prop :=
  (identityMonitor session).Follows Eff.awaits g p.run fun _ => IdStage.Standing

/-- In these stages others may run. -/
theorem IdStage.Standing.atomic (h : g.Standing) : (identityMonitor session).atomic g = false := by
  cases g <;> first | rfl | exact h.elim

/-- In these stages the task may end. -/
theorem IdStage.Standing.final (h : g.Standing) : (identityMonitor session).final g := by
  cases g <;> trivial

/-- What does not concern the session is ignored. -/
theorem id_ignores (hg : g.Standing) (he : ∀ r, IdAct.of session e r = .other) :
    (identityMonitor session).Ignores g e := by
  intro r
  change IdStage.step session g (IdAct.of session e r) = _
  rw [he r]
  cases g <;> first | exact hg.elim | rfl

/-- A program that does not concern the session, then another one. -/
theorem identifies_other_bind {f : α → Py β} (hg : g.Standing)
    (hp : PerformsE (fun e => ∀ r, IdAct.of session e r = .other) p)
    (hf : ∀ a, Identifies session g (f a)) : Identifies session g (p >>= f) :=
  Follows.ignored_bind (hp.mono fun _ => id_ignores hg) hg.atomic hf fun _ => hg

/-- `async with _room_lock(room)` around a program. -/
theorem identifies_withRoomLock {room : RoomId} {body : Py α} (hg : g.Standing)
    (hbody : Identifies session g body) : Identifies session g (withRoomLock room body) := by
  refine identifies_other_bind hg (performsE_bind (performsE_sync fun _ => rfl) fun got => ?_)
    fun _ => ?_
  · split
    · exact performsE_pure _
    · exact performsE_await fun _ => rfl
  refine Monitor.Follows.finallyDo (hbody.mono fun _ g' hg' => ?_)
  exact Follows.perform_sync fun r =>
    ⟨g', id_ignores (e := .sync (.lockRelease room)) hg' (fun _ => rfl) r, hg'⟩

/-! ## After the insertion -/

/-- The terms of a task that inserts no row for the session, and spawns it only if `spawns`. -/
def settled (session : SessionId) (spawns : Prop) : SessionTerms where
  looks _ := True
  inserts _ _ _ other := other ≠ session
  records _ _ _ := True
  calls turn _ := turn.runner = .spawnClaude → turn.sessionId = session → spawns
  aliases _ _ := True
  creates _ := True
  minted _ := True
  listed _ := True
  inserted _ _ _ _ := True
  found _ _ := True
  recent _ _ := True
  pending _ := True
  posted _ _ := True

/-- The terms rely on nothing. -/
theorem settled_relies {spawns : Prop} (e : Eff) (r : e.Ret) :
    (settled session spawns).relies e r := by
  unfold SessionTerms.relies
  -- the facts that the terms speak of are all trivial
  split
  all_goals first | trivial | exact fun _ _ => trivial | exact fun _ _ _ => trivial

/-- What these terms promise of an effect. -/
theorem acts_of_settled {spawns : Prop} (he : (settled session spawns).promises e) (r : e.Ret) :
    (∀ room, IdAct.of session e r ≠ .insert room) ∧ (IdAct.of session e r = .spawn → spawns) := by
  rw [IdAct.of.eq_def]
  split
  case h_2 => split <;> exact ⟨nofun, nofun⟩
  case h_5 =>
    rw [if_neg he]
    exact ⟨nofun, nofun⟩
  case h_6 =>
    obtain ⟨_, hcalls⟩ := he
    split
    · next hspawn => exact ⟨nofun, fun _ => hcalls hspawn.1 hspawn.2⟩
    · exact ⟨nofun, nofun⟩
  all_goals exact ⟨nofun, nofun⟩

/-- A task that has inserted the session that it made does not insert it again. -/
theorem made_keeps (he : (settled session True).promises e) :
    (identityMonitor session).Keeps (· = .made) e := by
  rintro _ r rfl
  obtain ⟨hinsert, -⟩ := acts_of_settled he r
  refine ⟨.made, ?_, rfl⟩
  change IdStage.step session .made (IdAct.of session e r) = _
  cases hact : IdAct.of session e r with
  | insert room => exact absurd hact (hinsert room)
  | _ => rfl

/-- A task that has nothing to do with the session goes on so. -/
theorem closed_keeps (he : (settled session False).promises e) :
    (identityMonitor session).Keeps (· = .closed) e := by
  rintro _ r rfl
  obtain ⟨hinsert, hspawn⟩ := acts_of_settled he r
  refine ⟨.closed, ?_, rfl⟩
  change IdStage.step session .closed (IdAct.of session e r) = _
  cases hact : IdAct.of session e r with
  | insert room => exact absurd hact (hinsert room)
  | spawn => exact (hspawn hact).elim
  | _ => rfl

/-- What a task does after the insertion of the session that it made. -/
theorem identifies_made (hp : (settled session True).Keeps p fun _ => True) :
    Identifies session .made p := by
  have hperforms := (Contract.Keeps.performs settled_relies hp).mono fun _ => made_keeps
  refine (Monitor.Follows.of_keeps hperforms (fun _ hg => hg ▸ rfl) rfl).mono ?_
  rintro _ _ rfl
  trivial

/-- What a task does that has nothing to do with the session. -/
theorem identifies_closed (hp : (settled session False).Keeps p fun _ => True) :
    Identifies session .closed p := by
  have hperforms := (Contract.Keeps.performs settled_relies hp).mono fun _ => closed_keeps
  refine (Monitor.Follows.of_keeps hperforms (fun _ hg => hg ▸ rfl) rfl).mono ?_
  rintro _ _ rfl
  trivial

/-! ## Inserting a session -/

/-- An effect that leaves sessions aside does not concern a task that is early. -/
theorem early_ignores (he : Aside e) : (identityMonitor session).Ignores .early e := by
  intro r
  change IdStage.step session .early (IdAct.of session e r) = _
  rw [IdAct.of.eq_def]
  split <;> first | rfl | cases he

/-- A program that leaves sessions aside begins and ends early. -/
theorem identifies_aside (hp : PerformsE Aside p) : Identifies session .early p :=
  Follows.ignored (hp.mono fun _ => early_ignores) rfl fun _ => trivial

/-- A program that leaves sessions aside, then another one. -/
theorem identifies_aside_bind {f : α → Py β} (hp : PerformsE Aside p)
    (hf : ∀ a, Identifies session .early (f a)) : Identifies session .early (p >>= f) :=
  Follows.ignored_bind (hp.mono fun _ => early_ignores) rfl hf fun _ => trivial

/-- A post concerns nobody. -/
theorem other_postMessage {room : RoomId} {body : Str} {reply : Option EventId} :
    PerformsE (fun e => ∀ r, IdAct.of session e r = .other) (postMessage room body reply) :=
  performsE_network (fun _ => rfl) fun _ => rfl

/-- An alias concerns nobody. -/
theorem other_registerAlias {e root : EventId} :
    PerformsE (fun e => ∀ r, IdAct.of session e r = .other) (Store.registerAlias e root) := by
  rw [Store.registerAlias]
  split
  · exact performsE_pure _
  · exact performsE_bind (performsE_execute fun _ => rfl) fun _ => performsE_commit fun _ => rfl

/-- `insert_session` moves the task on with its statement, whether that succeeds or not. -/
theorem follows_insertSession {root : EventId} {room : RoomId} {agent : AgentName}
    {inserted : SessionId} {g g' : IdStage} (htime : g.step session .time = some g)
    (hinsert : g.step session (if inserted = session then .insert room else .insertOther) =
      some g') (hg' : g'.Standing) :
    (identityMonitor session).Follows Eff.awaits g
      (Store.insertSession root room agent inserted).run fun _ g'' => g'' = g' := by
  have hnow : (identityMonitor session).Follows Eff.awaits g Store.now.run fun res g'' =>
      (∃ now, res = .ok now) ∧ g'' = g :=
    Follows.sync_bind fun now => ⟨g, htime, ⟨_, rfl⟩, rfl⟩
  refine Monitor.Follows.bindE (hnow.mono ?_)
  rintro _ _ ⟨⟨now, rfl⟩, rfl⟩
  refine Monitor.Follows.bindE (Follows.execute fun res => ⟨g', hinsert, ?_⟩)
  cases res with
  | ok _ =>
    have hcommit := @id_ignores session _ (.sync .commit) hg' fun _ => rfl
    exact Follows.ignored (performsE_commit hcommit) hg'.atomic fun _ => rfl
  | error x => rfl

/-- `insert_session` of a session moves the task from `g` to `d`, and fails without a row. -/
theorem identifies_insertSession {root : EventId} {room : RoomId} {agent : AgentName}
    {inserted : SessionId} {g d : IdStage} {f : Unit → Py β}
    (htime : g.step session .time = some g)
    (hinsert : g.step session (if inserted = session then .insert room else .insertOther) =
      some d) (hd : d.Standing) (hf : Identifies session d (f ())) :
    Identifies session g (Store.insertSession root room agent inserted >>= f) := by
  refine Monitor.Follows.bindE ((follows_insertSession htime hinsert hd).mono ?_)
  rintro res _ rfl
  cases res with
  | ok _ => exact hf
  | error x => exact hd

/-- What a handler does once it has inserted the session that it made. -/
def spawnRest (args : HandlerArgs) (message : Str) (made : SessionId) (ack : EventId) :
    Py Unit := do
  Store.registerAlias ack args.event.eventId
  registerSession made args.agentName args.roomId args.projectDir args.scopedMcpUrl
  let turnStart ← sync .utcnow
  let res ← Coro.attempt (spawnClaude made (spawnPrompt args.agentName message)
    args.projectDir args.agentName args.roomId args.subprocessTimeoutSeconds args.event.eventId)
  match res with
  | .error .timeoutError =>
    let notice ← postMessage args.roomId (timedOutText args made)
      (some (ack.orElse args.event.eventId))
    Store.registerAlias notice args.event.eventId
  | .error x => throw x
  | .ok (exitCode, output) =>
    postResponse args.roomId output exitCode made args.mentionUser args.maxMessageLength
      (ack.orElse args.event.eventId) (lit "spawn") args.event.eventId
    recordPendingIfGated args.agentName args.roomId made args.event.eventId turnStart

/-- After the insertion, the session that was made is the only one to be spawned. -/
theorem settled_spawnRest {args : HandlerArgs} {message : Str} {made : SessionId} {ack : EventId}
    {spawns : Prop} (h : made = session → spawns) :
    (settled session spawns).Keeps (spawnRest args message made ack) fun _ => True := by
  have hthreads : (settled session spawns).Threads args.roomId args.event.eventId :=
    fun _ _ => trivial
  refine Contract.KeepsE.bind_performs (performs_registerAlias trivial) fun _ => ?_
  refine Contract.KeepsE.bind_performs
    (SessionTerms.performs_of_aside (aside_registerSession _ _ _ _ _)) fun _ => ?_
  refine Contract.KeepsE.bind_performs (performsE_sync trivial) fun start => ?_
  refine Contract.KeepsE.bind_performs
    (performsE_attempt (performs_callRunner fun _ heq => h heq)) fun res => ?_
  split
  · exact keeps_postAlias hthreads
  · exact Contract.KeepsE.throw
  · refine (keeps_postResponse hthreads).bind fun _ _ => ?_
    exact Contract.KeepsE.of_performs (performs_recordPendingIfGated trivial)

/-- A new session is inserted under the id that was made for it. -/
theorem identifies_spawnTurn {args : HandlerArgs} {message : Str} :
    Identifies session .early (spawnTurn args message) := by
  refine Follows.sync_bind fun made => ?_
  by_cases hmade : made = session
  · refine ⟨.minted, ?_, ?_⟩
    · change IdStage.step session .early (if made = session then .mint else .other) = _
      rw [if_pos hmade]
      rfl
    refine identifies_other_bind trivial other_postMessage fun ack => ?_
    refine identifies_insertSession (d := .made) rfl (by rw [if_pos hmade]; rfl) trivial ?_
    exact identifies_made (settled_spawnRest fun _ => trivial)
  · refine ⟨.early, ?_, ?_⟩
    · change IdStage.step session .early (if made = session then .mint else .other) = _
      rw [if_neg hmade]
      rfl
    refine identifies_other_bind trivial other_postMessage fun ack => ?_
    refine identifies_insertSession (d := .closed) rfl (by rw [if_neg hmade]; rfl) trivial ?_
    exact identifies_closed (settled_spawnRest hmade)

/-- A lookup that ends with the session leaves the processor to nobody. -/
def Found (session : SessionId) (room : RoomId) : Except Exn (Option SessionId) → IdStage → Prop
  | .ok found, g => g = if found = some session then .chosen room else .early
  | .error _, g => g.Standing

/-- The lookup of `!mirror` ends with the newest session that the room does not have, or early. -/
theorem follows_findUnmirroredSessionId {dir : Str} {room : RoomId} :
    (identityMonitor session).Follows Eff.awaits .early (findUnmirroredSessionId dir room).run
      (Found session room) := by
  refine Monitor.Follows.bindE (Follows.perform_sync fun listing => ?_)
  rcases listing with x | _ | files
  · exact ⟨.early, rfl, trivial⟩
  · exact ⟨.early, rfl, rfl⟩
  refine ⟨.listed files, rfl, Monitor.Follows.bindE (Follows.execute fun known => ?_)⟩
  cases known with
  | error x => exact ⟨.listed files, rfl, trivial⟩
  | ok ids => exact ⟨_, rfl, rfl⟩

/-- `!mirror` inserts the session that it found before others can run. -/
theorem identifies_handleMirrorCommand {room : RoomId} {event : RoomMessageText} {mention : UserId}
    {agent : AgentName} {dir url : Str} :
    Identifies session .early (handleMirrorCommand room event mention agent dir url) := by
  refine Monitor.Follows.bindE (follows_findUnmirroredSessionId.mono fun res g hg => ?_)
  rcases res with x | _ | found
  · exact hg
  · obtain rfl : g = .early := hg
    exact identifies_aside (aside_still (still_notice _ _ _))
  have hlink : Identifies session .closed (do
      registerSession found agent room dir url
      let response ← postMessage room (mention ++ lit " Linked session " ++ found.short ++
        lit " to this thread. Reply here to resume.") (some event.eventId)
      Store.registerAlias response event.eventId) :=
    identifies_closed <| Contract.KeepsE.bind_performs
      (SessionTerms.performs_of_aside (aside_registerSession _ _ _ _ _)) fun _ =>
        keeps_postAlias fun _ _ => trivial
  obtain rfl : g = if some found = some session then .chosen room else .early := hg
  by_cases hfound : found = session
  · refine identifies_insertSession (d := .closed) ?_ ?_ trivial hlink
    · rw [if_pos (congrArg some hfound)]
      rfl
    · rw [if_pos (congrArg some hfound), if_pos hfound]
      exact if_pos rfl
  · have hne : ¬ some found = some session := fun heq => hfound (Option.some.inj heq)
    refine identifies_insertSession (d := .closed) ?_ ?_ trivial hlink
    · rw [if_neg hne]
      rfl
    · rw [if_neg hne, if_neg hfound]
      rfl

/-! ## Messages -/

/-- The list of sessions leaves the tables alone. -/
theorem identifies_postSessions {room : RoomId} {dir : Str} {header : EventId} {i : Nat}
    {rows : List SessionRow} : Identifies session .early (postSessions room dir header i rows) := by
  induction rows generalizing i with
  | nil => trivial
  | cons row rows ih =>
    refine identifies_aside_bind (aside_still (still_readFirstUserMessage _ _)) fun _ => ?_
    refine identifies_aside_bind (aside_still (still_postMessage _ _ _)) fun _ => ?_
    exact identifies_other_bind trivial other_registerAlias fun _ => ih

/-- A command makes no session, and finds one for `!mirror` only. -/
theorem identifies_handleCommand {args : HandlerArgs} {message : Str} :
    Identifies session .early (handleCommand args message) := by
  rw [handleCommand]
  dsimp only
  split
  · exact identifies_aside (aside_still (still_handleHelpCommand _ _ _))
  split
  · refine identifies_aside_bind (performsE_execute rfl) fun rows => ?_
    split
    · exact identifies_aside (aside_still (still_notice _ _ _))
    · exact identifies_aside_bind (aside_still (still_postMessage _ _ _)) fun _ =>
        identifies_postSessions
  split
  · exact identifies_aside (aside_still (still_handleRecapCommand _ _ _ _ _ _))
  split
  · exact identifies_handleMirrorCommand
  split
  · refine Follows.ignored ((cancel_handleCancelCommand _ _ _).mono fun e he => ?_) rfl
      fun _ => trivial
    unfold CancelEff at he
    split at he <;> first | exact fun _ => rfl | exact early_ignores he.1
  · exact identifies_aside (aside_still (still_notice _ _ _))

/-- A handler makes at most one id, and inserts it at most once. -/
theorem identifies_handleEvent (args : HandlerArgs) :
    Identifies session .early (handleEvent args) := by
  by_cases htrusted : args.event.sender = args.trustedSender
  case neg =>
    rw [handleEvent, if_pos htrusted]
    trivial
  rcases hthread : extractThreadRoot args.event with x | _ | root
  · rw [handleEvent, if_neg (not_not.mpr htrusted), hthread]
    trivial
  · rw [handleEvent_of_root htrusted hthread]
    split
    · exact identifies_handleCommand
    refine identifies_withRoomLock trivial ?_
    refine identifies_aside_bind (performsE_sync rfl) fun now => ?_
    refine identifies_other_bind trivial (performsE_sync fun _ => rfl) fun last => ?_
    dsimp only
    split
    · exact identifies_aside (aside_still (still_notice _ _ _))
    · exact identifies_other_bind trivial (performsE_sync fun _ => rfl) fun _ =>
        identifies_spawnTurn
  · -- a thread reply inserts nothing
    rw [handleEvent_of_thread htrusted hthread]
    refine Monitor.Follows.bindE (Follows.execute fun row => ⟨.closed, rfl, ?_⟩)
    rcases row with x | _ | row
    · trivial
    · exact identifies_closed
        (Contract.KeepsE.of_performs (SessionTerms.performs_of_still (still_handleOrphan _ _)))
    · exact identifies_closed (keeps_handleReply ⟨by rintro ⟨⟩, trivial, fun _ _ => trivial⟩)

/-! ## Tasks -/

/-- The fiber of a task that inserts no session. -/
theorem conforms_closed {fiber : Fiber Eff Eff.Ret}
    (h : (settled session False).contract.Binds fiber) :
    (identityMonitor session).Conforms Eff.awaits .closed fiber := by
  obtain ⟨hprog, hnext⟩ := h
  have hkeeps : ∀ {p : Coro Eff Eff.Ret (Option fiber.State)},
      (settled session False).contract.Keeps p (fun _ => True) →
      p.Performs ((identityMonitor session).Keeps (· = .closed)) :=
    fun hp => (Contract.Keeps.performs settled_relies hp).mono fun _ => closed_keeps
  refine .of_keeps ?_ ?_ (hkeeps hprog) (fun s => hkeeps (hnext s)) rfl
  · rintro _ rfl
    rfl
  · rintro _ rfl
    trivial

/-- The fiber of a handler follows the monitor. -/
theorem identities_handler (args : HandlerArgs) :
    (identityMonitor session).Conforms Eff.awaits .early (handlerFiber args) := by
  have hrun : Identifies session .early (do Py.await .start; handleEvent args : Py Unit) :=
    identifies_other_bind trivial (performsE_await fun _ => rfl) fun _ =>
      identifies_handleEvent args
  refine Monitor.Conforms.once (Monitor.Follows.bind hrun fun _ g hg => ?_)
  have hend := @id_ignores session _ (.sync .taskDone) hg fun _ => rfl
  refine (Monitor.Follows.of_performs (performs_endTask hend) hg.atomic).mono ?_
  rintro _ _ rfl
  exact ⟨hg.atomic, hg.final⟩

/-- Every task of the dispatcher follows the monitor of the session. -/
def identityCoverage (config : MatrixDispatcher.Config) (session : SessionId) :
    Coverage config (identityMonitor session) where
  enter
    | .handle _ => .early
    | _ => .closed
  ok _ := True
  ok_main := trivial
  create _ := trivial
  atomic request := by cases request <;> rfl
  conforms := by
    intro request _
    cases request with
    | main => exact conforms_closed (main_keeps fun _ _ => trivial)
    | cleanup => exact conforms_closed cleanup_keeps
    | reconcile =>
      exact conforms_closed (reconcile_keeps fun _ _ =>
        ⟨fun _ _ _ _ _ => nofun, trivial, fun _ _ => trivial⟩)
    | handle args => exact identities_handler args

end

end MatrixDispatcher
