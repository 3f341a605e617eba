import MatrixDispatcher.Safety.Entries
import MatrixDispatcher.Safety.Provenance

/-!
# Replies to messages that wait for their turn

A reply looks the session of its thread up before it waits for the room lock, and a message gets its
session under the lock, after the post that acknowledges it. A reply to a message that still waits
is therefore taken for a reply to a thread that is gone.

* `HasResumed` — the handler of the reply has called the runner for the session that it found.
* `attended` — what a reply needs until then: nobody cuts its handler off, its acknowledgement is
  posted, and the session is still there when the acknowledgement becomes an alias.
* `ResumesAfter` — the reply is on its way to the call, and calls after the turn of the message.
* `followup_resumed` — so it is in every run, if the message has its session when the reply looks it
  up; if the run is fair, the runner is called.
* `followup_orphaned` — a run in which a message is spawned and a reply to it is ignored.
-/

namespace MatrixDispatcher

open Coro Py Machine

variable {config : MatrixDispatcher.Config} {n : Nat} {args : HandlerArgs} {row : SessionRow}
  {w w' : World}

/-! ## On the way to the call -/

/-- Handler `n` has called `resume_claude` with its reply, for the session of the row. -/
def HasResumed (n : Nat) (args : HandlerArgs) (row : SessionRow) (w : World) : Prop :=
  Obs.marked (.handler n) (.runnerCall (replyOf args args.event.body.strip row)) ∈ w.trace

/-- Nothing is known of what the others do to the sessions, nor of the children. -/
def unguarded (n : Nat) : Surroundings n where
  keeps _ _ := True
  of_keys _ := trivial
  trans _ _ _ := trivial
  calm := False

/-- When handler `n` registers an alias, the session of its thread is there. -/
def rooted (n : Nat) (w : World) : Step → Prop
  | .effect t (.sync (.execute (.registerAlias _ root))) _ =>
    t = .handler n → w.db.sessions.hasKey root = true
  | _ => True

/-- Until it has called the runner, nobody cuts the handler of the reply off, its post and its
statements succeed, and its session is there when it registers an alias for it. -/
def attended (n : Nat) (args : HandlerArgs) (row : SessionRow) (w : World) (e : Step) : Prop :=
  HasResumed n args row w ∨ e = .turn (.handler n) ∨ (unguarded n).Uncut e ∧ rooted n w e

/-- The effect asks for the event that an orphaned reply replies to. -/
def Eff.asksParent : Eff → Bool
  | .await (.roomGetEvent _ _) => true
  | _ => false

/-- The handler of the reply is on its way to its call, and its next effect `e` is part of it: it
does not treat the reply as an orphaned one, calls the runner for no other turn, and can go on
unless it waits for the lock. -/
structure Approaches (n : Nat) (args : HandlerArgs) (row : SessionRow) (e : Eff) (w : World) :
    Prop where
  tracked : e.asksParent = false
  call : ∀ turn, e = .sync (.mark (.runnerCall turn)) →
    turn = replyOf args args.event.body.strip row
  goesOn : (∃ room, e = .await (.lockWait room)) ∨
    ∃ a r w', (unguarded n).Succeeds e a ∧ exec (.handler n) a e w = some (r, w')

/-- The arena of a reply that has found its session. -/
def resuming (n : Nat) (args : HandlerArgs) (row : SessionRow) : Arena Eff Eff.Ret World where
  rely := (watch (unguarded n)).rely
  step w e r w' := ∃ a, ((unguarded n).Succeeds e a ∧ rooted n w (.effect (.handler n) e a)) ∧
    exec (.handler n) a e w = some (r, w')
  safe e w := HasResumed n args row w ∨ Approaches n args row e w
  rely_refl := (watch (unguarded n)).rely_refl
  rely_trans := (watch (unguarded n)).rely_trans

/-- The steps of an attended run are steps of the arena. -/
theorem resuming_hosts : (resuming n args row).Hosts (dispatcher config)
    (fun w e => (unguarded n).Uncut e ∧ rooted n w e) (.handler n) := by
  have hhosts : (watch (unguarded n)).Hosts (dispatcher config)
      (fun w e => (unguarded n).Uncut e ∧ rooted n w e) (.handler n) :=
    Surroundings.hosts (fun _ _ h => h.1) fun _ _ _ => trivial
  refine ⟨fun {w w' e a r} hallow hexec => ?_, hhosts.other, hhosts.env, hhosts.start,
    hhosts.turn, hhosts.crash⟩
  have hsucc := hallow.1
  rw [Surroundings.Uncut, if_pos rfl] at hsucc
  exact ⟨a, ⟨hsucc, hallow.2⟩, hexec⟩

/-- The call is one of the deeds of the handler. -/
theorem hasResumed_iff : HasResumed n args row w ↔
    Deed.called (replyOf args args.event.body.strip row) ∈ w.deeds (.handler n) := by
  rw [HasResumed, World.deeds, List.mem_reverse, List.mem_filterMap]
  constructor
  · intro hmem
    exact ⟨_, hmem, if_pos rfl⟩
  · rintro ⟨o, hmem, hdeed⟩
    rw [deedOf.eq_def] at hdeed
    split at hdeed
    · split at hdeed <;> cases hdeed
    · split at hdeed
      · next ht =>
        cases hdeed
        rwa [← ht]
      · cases hdeed
    · split at hdeed <;> cases hdeed
    · cases hdeed

/-- The call is not forgotten. -/
theorem HasResumed.step {c c' : Machine.Config Tid Eff Eff.Ret World} {l : Label Tid Answer}
    (hstep : (dispatcher config).step c l = some c') (h : HasResumed n args row c.world) :
    HasResumed n args row c'.world := by
  have hreach : (dispatcher config).Reachable (fun _ _ => True) c c' := .step l .refl trivial hstep
  exact (grows_of_reachable hreach).trace h

theorem HasResumed.stable : (resuming n args row).Stable (HasResumed n args row) := by
  intro w w' h hrely
  rw [hasResumed_iff] at h ⊢
  rwa [hrely.same]

/-- Once the runner is called, the handler may do anything. -/
theorem Triple.resumed {α : Type} {p : Coro Eff Eff.Ret α} :
    (resuming n args row).Triple (HasResumed n args row) p fun _ => HasResumed n args row := by
  refine Arena.Triple.performs (F := fun _ => True) HasResumed.stable (fun _ _ _ h => .inl h) ?_
    (.of_forall (fun _ => trivial) p)
  rintro e w r w' - h ⟨a, -, hexec⟩
  exact (Grows.of_exec hexec).trace h

/-- An effect on the way to the call that is neither a call nor a wait for a child. -/
def Eff.approaches : Eff → Bool
  | .await (.roomGetEvent _ _) | .sync (.mark (.runnerCall _)) | .await (.communicate _ _)
  | .await (.wait _) | .await (.drain _) | .await (.join _) | .await .gather
  | .await .gatherCancelled => false
  | _ => true

/-- An effect that can be answered, unless it waits, is one on the way to the call. -/
theorem Approaches.of_goesOn {e : Eff} (he : e.approaches = true)
    (h : e.waits = true ∨
      ∃ a r w', (unguarded n).Succeeds e a ∧ exec (.handler n) a e w = some (r, w')) :
    Approaches n args row e w where
  tracked := by
    rw [Eff.asksParent.eq_def]
    split
    · cases he
    · rfl
  call := by
    rintro turn rfl
    cases he
  goesOn := by
    refine h.imp (fun hwaits => ?_) id
    cases e with
    | sync e => cases hwaits
    | await e =>
      cases e with
      | lockWait room => exact ⟨room, rfl⟩
      | communicate _ _ | wait _ | drain _ | join _ | gather | gatherCancelled => cases he
      | _ => cases hwaits

/-- What is known of a program of the handler holds on the way to its call. -/
theorem Triple.approaching {α : Type} {p : Coro Eff Eff.Ret α} {P : World → Prop}
    {Q : α → World → Prop} (hp : p.Performs fun e => e.approaches = true)
    (h : (watch (unguarded n)).Triple P p Q) : (resuming n args row).Triple P p Q :=
  Arena.Triple.transfer (N := watch (unguarded n)) (fun _ _ hrely => hrely)
    (fun _ _ _ _ ⟨a, hsucc, hexec⟩ => ⟨a, hsucc.1, hexec⟩)
    (fun _ _ he hsafe => .inr (.of_goesOn he hsafe.2)) hp h

/-! ## The reply -/

/-- Nothing but that the handler is alive and well, and what it has done. -/
abbrev Well (n : Nat) (ds : List Deed) : World → Prop := Stands n (fun _ => True) ds

theorem unguarded_lasting : (unguarded n).Lasting fun _ => True := fun _ _ _ _ => trivial

theorem Returns.approaching {α : Type} {p : Py α} {P : World → Prop} {Q : α → World → Prop}
    (hp : PerformsE (fun e => e.approaches = true) p)
    (h : (watch (unguarded n)).Returns P p Q) : (resuming n args row).Returns P p Q :=
  Triple.approaching hp h

/-- The alias of the acknowledgement, whose session is there. -/
theorem Returns.registerRooted {e root : EventId} {ds : List Deed} :
    (resuming n args row).Returns (Well n ds) (Store.registerAlias e root) fun _ => Well n ds := by
  rw [Store.registerAlias]
  split
  · exact Returns.approaching (performsE_pure _) (Returns.done unguarded_lasting)
  have hexecute : (resuming n args row).Returns (Well n ds) (Py.execute (.registerAlias e root))
      fun _ => Well n ds := by
    have hwell : (resuming n args row).Stable (Well n ds) := Stands.stable unguarded_lasting
    refine Arena.Triple.perform hwell
      (fun res => Arena.Stable.exists fun _ => (Arena.stable_const _).and hwell) (fun w h => ?_) ?_
    · obtain ⟨r, w', hexec⟩ := exec_usualAnswer (t := .handler n) (w := w)
        (e := .sync (.execute (.registerAlias e root))) rfl
      have hquiet : ∀ x, Answer.done ≠ .raised x := by
        rintro x ⟨⟩
      exact .inr (.of_goesOn rfl (.inr ⟨.done, r, w', hquiet, hexec⟩))
    · rintro w r w' h ⟨a, ⟨hsucc, hrooted⟩, hexec⟩
      obtain ⟨db, hdb⟩ := Tables.registerAlias_ok (e := e) (hrooted rfl)
      obtain ⟨v, hv⟩ := ok_of_execute hexec h.opened ⟨(), db, by rw [Stmt.exec, hdb]; rfl⟩ hsucc
      exact ⟨v, hv, h.quiet unguarded_lasting hexec rfl rfl⟩
  exact hexecute.bindE fun _ =>
    Returns.approaching (performsE_commit rfl) (Returns.commit unguarded_lasting)

/-- Under the lock, the reply calls the runner. -/
theorem resumes_replyTurn {ack : EventId} {ds : List Deed} :
    (resuming n args row).Triple (Well n ds) (replyTurn args args.event.body.strip row ack).run
      fun _ => HasResumed n args row := by
  -- The turn reads the clock before it calls the runner.
  have hclock : (watch (unguarded n)).Returns (Well n ds) (Py.sync .utcnow) fun _ => Well n ds :=
    (Returns.sync (V := fun _ => True) unguarded_lasting rfl
      fun _ _ _ _ _ _ => trivial).mono fun _ _ h => h.2
  have hstart : (resuming n args row).Returns (Well n ds) (Py.sync .utcnow) fun _ => Well n ds :=
    Returns.approaching (performsE_sync rfl) hclock
  refine hstart.bindE fun start => ?_
  have hcall : (resuming n args row).Triple (Well n ds)
      (resumeClaude row.sessionId args.event.body.strip args.projectDir args.agentName args.roomId
        args.subprocessTimeoutSeconds row.threadRootId none).run
      fun _ => HasResumed n args row := by
    -- The call is marked, and from there on the reply has resumed the session.
    have hmark : (resuming n args row).Returns (Well n ds)
        (Py.sync (.mark (.runnerCall (replyOf args args.event.body.strip row))))
        fun _ => HasResumed n args row := by
      refine Arena.Returns.lift (fun _ => HasResumed.stable) (.perform
        (Stands.stable unguarded_lasting) (fun _ => HasResumed.stable) (fun w h => .inr ?_) ?_)
      · refine ⟨rfl, fun turn heq => ?_, .inr ⟨.done, (), _, trivial, rfl⟩⟩
        cases heq
        rfl
      · rintro w r w' h ⟨a, -, hexec⟩
        exact mem_of_call hexec rfl
    exact hmark.bindE fun _ => Triple.resumed
  exact (Arena.Returns.attempt (fun _ => HasResumed.stable) hcall).bindE fun _ => Triple.resumed

theorem approaches_registerSession {session : SessionId} {agent : AgentName} {room : RoomId}
    {dir url : Str} :
    PerformsE (fun e => e.approaches = true) (registerSession session agent room dir url) := by
  refine performsE_bind (performsE_sync rfl) fun enabled => ?_
  split
  · refine performsE_bind (performsE_sync rfl) fun enabled => ?_
    split
    · exact performsE_tryExcept (performsE_network rfl rfl) fun _ => performsE_pure _
    · exact performsE_pure _
  · exact performsE_pure _

theorem approaches_acquireRoomLock {room : RoomId} :
    PerformsE (fun e => e.approaches = true) (acquireRoomLock room) := by
  refine performsE_bind (performsE_sync rfl) fun got => ?_
  split
  · exact performsE_pure _
  · exact performsE_await rfl

/-- A reply that has found its session comes to the call of the runner. -/
theorem resumes_handleReply {ds : List Deed} :
    (resuming n args row).Triple (Well n ds) (handleReply args args.event.body.strip row).run
      fun _ => HasResumed n args row := by
  have hack : (resuming n args row).Returns (Well n ds)
      (postMessage args.roomId (resumingText row.sessionId) (some args.event.eventId)) fun _ =>
        Well n (ds ++ [.posted args.roomId (resumingText row.sessionId)]) :=
    Returns.approaching (performsE_network rfl rfl) (Returns.post unguarded_lasting)
  refine hack.bindE fun ack => Returns.registerRooted.bindE fun _ => ?_
  refine (Returns.approaching approaches_registerSession
    (Returns.registerSession unguarded_lasting)).bindE fun _ => ?_
  refine (Returns.approaching approaches_acquireRoomLock
    (Returns.acquireRoomLock unguarded_lasting)).bindE fun _ => ?_
  exact Arena.Triple.finallyDo (fun _ => HasResumed.stable) resumes_replyTurn
    fun _ => Triple.resumed

/-- The reply that has found its session, before and after its call. -/
theorem resuming_or_resumed {c₁ c : Machine.Config Tid Eff Eff.Ret World}
    (htask : c₁.tasks (.handler n) = some (goesOn (handleReply args args.event.body.strip row)))
    (hwell : Well n (c₁.world.deeds (.handler n)) c₁.world)
    (hrun : (dispatcher config).Reachable (attended n args row) c₁ c) :
    HasResumed n args row c.world ∨ (resuming n args row).RunsAt (.handler n)
      (fun _ => HasResumed n args row) (fun _ : Unit => Coro.ret none) c := by
  have hprog : (resuming n args row).Triple (Well n (c₁.world.deeds (.handler n)))
      (goesOn (handleReply args args.event.body.strip row)).prog fun _ => HasResumed n args row :=
    Arena.Triple.bind (Arena.Triple.bind resumes_handleReply fun _ => Triple.resumed)
      fun _ => Triple.resumed
  exact resuming_hosts.runsAt_until HasResumed.step (fun _ _ h => h) (fun _ _ h => h)
    ⟨_, htask, hprog _ hwell⟩ hrun

/-! ## The message -/

/-- Handler `m` has made the session of the row for its message, one that the trusted sender sent to
the root of a room. -/
structure Makes (config : MatrixDispatcher.Config) (m : Nat) (made : HandlerArgs)
    (row : SessionRow) (w : World) : Prop where
  handles : w.argsOf m = some made
  event : made.event.eventId = row.threadRootId
  trusted : made.event.sender = config.trustedSender.getD []
  thread : extractThreadRoot made.event = .ok none

/-- Handler `n` is about to resume the session of the row, or has done so. When it does, the message
of the session has had its turn: its handler `m` does not run any more, nor is it about to start. -/
structure ResumesAfter (n : Nat) (args : HandlerArgs) (row : SessionRow) (m : Nat)
    (made : HandlerArgs) (c : Machine.Config Tid Eff Eff.Ret World) : Prop where
  approaches : ∀ e, c.About (.handler n) e →
    HasResumed n args row c.world ∨ Approaches n args row e c.world
  resumed : c.tasks (.handler n) = none ∨ Ended c (.handler n) → HasResumed n args row c.world
  /-- `!mirror` makes a session too, and outside of the lock, but spawns nothing. -/
  after : (lit "!").isPrefixOf made.event.body.strip = false → made.roomId = args.roomId →
    c.About (.handler n)
      (.sync (.mark (.runnerCall (replyOf args args.event.body.strip row)))) →
    ¬ Present c (.handler m)

/-- The row of a session is found for its thread root. -/
theorem getSessionByEvent_of_find? {db : Tables} {root : EventId} {row : SessionRow}
    (h : db.sessions.find? root = some row) : db.getSessionByEvent root = some row := by
  rw [Tables.getSessionByEvent, h]

/-- A reply that finds the session of a message, and is attended to until then, resumes it after the
turn of the message: in every run, from the lookup on, and also at last if the run is fair. -/
theorem followup_resumed {root : EventId} {c₀ c₁ : Machine.Config Tid Eff Eff.Ret World}
    (h₀ : Reaches config (fun _ _ => True) c₀) (hargs : c₀.world.argsOf n = some args)
    (hlooks : LooksUp n args root c₀) (hrow : c₀.world.db.sessions.find? root = some row)
    (hlookup : (dispatcher config).step c₀ (.task (.handler n) .done) = some c₁) :
    ∃ m made, Makes config m made row c₀.world ∧ made.event.eventId = root ∧
      (∀ c, (dispatcher config).Reachable (attended n args row) c₁ c →
        ResumesAfter n args row m made c) ∧
      ∀ r : Run (dispatcher config) (attended n args row), r.conf 0 = c₁ → r.Lives →
        r.Fair (CanGoOn config) → ∃ k, HasResumed n args row (r.conf k).world := by
  have hkey : row.threadRootId = root := Table.find?_key hrow
  obtain ⟨b₁, b₂, m, a, made, now, hb₁, habout, hstep, hb₂, -, hmade, -, hevent, hsender,
    hthread⟩ := (origins_of_reaches h₀).db.sessions row (Table.find?_eq_some.mp hrow).1
  have hcreated : (dispatcher config).Reachable (fun _ _ => True) b₁ c₀ :=
    Machine.Reachable.trans (.step _ .refl trivial hstep) hb₂
  have hmakes : Makes config m made row c₀.world :=
    ⟨argsOf_mono (grows_of_reachable hcreated).dispatched hmade, hevent, hsender, hthread⟩
  -- a reply is not a message at the root of a room
  have hne : Tid.handler n ≠ .handler m := by
    intro heq
    obtain rfl := Tid.handler.inj heq
    obtain rfl := Option.some.inj (hargs.symm.trans hmakes.handles)
    cases hlooks.thread.symm.trans hthread
  obtain ⟨htask, hworld⟩ := replies_of_lookup hlooks (getSessionByEvent_of_find? hrow) hlookup
  have hwell : Well n (c₁.world.deeds (.handler n)) c₁.world := by
    rw [hworld]
    exact ⟨hlooks.opened, hlooks.uncancelled, rfl, trivial⟩
  have hrest : ∀ c, (dispatcher config).Reachable (attended n args row) c₁ c →
      ResumesAfter n args row m made c := by
    intro c hrun
    have hruns := resuming_or_resumed htask hwell hrun
    refine ⟨fun e habout => hruns.elim .inl fun hruns => hruns.safe habout, fun hover => ?_,
      fun hcommand hroom hcall => ?_⟩
    · refine hruns.elim id fun ⟨p, hp, hruns⟩ => ?_
      rcases hover with hnone | ⟨fiber, o, hfiber, hret⟩
      · cases hp.symm.trans hnone
      · obtain rfl := Option.some.inj (hp.symm.trans hfiber)
        cases p with
        | ret o => exact hruns c.world ((resuming n args row).rely_refl _)
        | op e k => cases hret
    · refine over_of_call hb₁ hmade ⟨hthread, hcommand⟩ habout ?_ hcall hroom.symm hne
      exact hcreated.trans (.trans (.step _ .refl trivial hlookup) (hrun.mono fun _ _ _ => trivial))
  refine ⟨m, made, hmakes, hevent.trans hkey, hrest, fun r hconf hlives hfair => ?_⟩
  have hreach : Reaches config (fun _ _ => True) (r.conf 0) := by
    rw [hconf]
    exact .step _ h₀ trivial hlookup
  have hpresent : Present (r.conf 0) (.handler n) := by
    refine .inl ?_
    rw [hconf, htask]
    exact Option.some_ne_none _
  -- the handler ends, and has resumed the session by then
  let r' : Run (dispatcher config) fun _ _ => True := ⟨r.conf, r.label, fun _ => trivial, r.step⟩
  obtain ⟨k, -, hover⟩ :=
    handlers_end (r := r') hreach hlives ⟨hfair.processor, hfair.turn⟩ hpresent
  have hrun : (dispatcher config).Reachable (attended n args row) c₁ (r.conf k) := by
    have hrun := r.reachable (Nat.zero_le k)
    rwa [hconf] at hrun
  refine ⟨k, (hrest _ hrun).resumed (.inl ?_)⟩
  by_contra hruns
  exact hover k le_rfl (.inl hruns)


/-! ## Scenarios -/

/-- A handler that has started and was not cancelled before goes on as `handle_event`. -/
theorem begun_of_start {c c₁ c₂ : Machine.Config Tid Eff Eff.Ret World} {i n : Nat}
    {args : HandlerArgs} (hitem : c.world.inbox[i]? = some (.handler n, .handle args))
    (hnot : .handler n ∉ c.world.cancelled)
    (hstart : (dispatcher config).step c (.start (.pick i)) = some c₁)
    (hbegin : (dispatcher config).step c₁ (.task (.handler n) .done) = some c₂) :
    c₂.tasks (.handler n) = some (begunFiber args) := by
  have hworld : (dispatcher config).start (.pick i) c.world = some (.handler n, handlerFiber args,
      { c.world with inbox := c.world.inbox.eraseIdx i }) := by
    simp [dispatcher, hitem, taskOf]
  rw [Machine.step, hworld] at hstart
  dsimp only at hstart
  split at hstart
  · cases hstart
  cases hstart
  have htask : Function.update c.tasks (.handler n) (some (handlerFiber args)) (.handler n) =
      some (handlerFiber args) := Function.update_self ..
  obtain ⟨-, r, w, hexec, rfl⟩ := Machine.of_step_op htask hbegin
  obtain ⟨⟨r', w'⟩, hquiet, heq⟩ := Option.map_eq_some_iff.mp hexec
  cases heq
  -- The first effect is a pause, which ends in a cancellation only if there is one.
  rcases execAwait_eq hquiet with ⟨hcancelled, -⟩ | ⟨-, hop⟩
  · exact absurd hcancelled hnot
  · cases hop
    exact Function.update_self ..

/-- The child of the first message is running; a reply to the message is dispatched. -/
def followingUp : List Cue :=
  spawning ++ batch (lit "t2") (lit "!room") [messageOf (lit "$2") (lit "go on")
    (replyTo (lit "$1"))]

/-- The item is handler `n` of a reply of the trusted sender to `root`. -/
def isReplyItem (n : Nat) (root : EventId) : Tid × Request → Bool
  | (t, .handle args) => decide (t = .handler n ∧ args.event.sender = args.trustedSender ∧
    (extractThreadRoot args.event).toOption = some (some root))
  | _ => false

theorem eq_of_isReplyItem {n : Nat} {root : EventId} {item : Tid × Request}
    (h : isReplyItem n root item = true) : ∃ args, item = (.handler n, .handle args) ∧
      args.event.sender = args.trustedSender ∧ extractThreadRoot args.event = .ok (some root) := by
  rw [isReplyItem.eq_def] at h
  split at h
  · next t args =>
    obtain ⟨rfl, htrusted, hthread⟩ := of_decide_eq_true h
    refine ⟨args, rfl, htrusted, ?_⟩
    cases hroot : extractThreadRoot args.event with
    | error x =>
      rw [hroot] at hthread
      cases hthread
    | ok found =>
      rw [hroot] at hthread
      cases hthread
      rfl
  · cases h

/-- The database is open, handler `n` is not cancelled, and there is a session of the root. -/
def isReady (n : Nat) (root : EventId) (w : World) : Bool :=
  decide (w.dbOpen = true ∧ .handler n ∉ w.cancelled) && (w.db.sessions.find? root).isSome

/-- `attended` before the call, evaluated; no effect of the handler may fail here. -/
def isAttended (n : Nat) (w : World) (e : Step) : Bool :=
  isUncut n e && match e with
    | .effect _ (.sync (.execute (.registerAlias _ root))) _ => w.db.sessions.hasKey root
    | _ => true

theorem attended_of_check (w : World) (e : Step) (h : isAttended n w e = true) :
    attended n args row w e := by
  obtain ⟨huncut, hrooted⟩ := Bool.and_eq_true_iff.mp h
  refine .inr (.inr ⟨uncut_of_check huncut, ?_⟩)
  rw [rooted.eq_def]
  split
  · exact fun _ => hrooted
  · trivial

/-- The effect is a call of the runner. -/
def isCall : Eff → Bool
  | .sync (.mark (.runnerCall _)) => true
  | _ => false

theorem eq_of_isCall {e : Eff} (h : isCall e = true) :
    ∃ turn, e = .sync (.mark (.runnerCall turn)) := by
  rw [isCall.eq_def] at h
  split at h
  · exact ⟨_, rfl⟩
  · cases h

/-- After its lookup, handler 1 waits for the lock until handler 0 has come to its end, and is about
to call the runner then. -/
def comesToCall (c₁ : Machine.Config Tid Eff Eff.Ret World) : Bool :=
  ((dispatcher oneAgent).play usualAnswer (fun w e => isAttended 1 w e = true)
    c₁ [.go (.handler 1) 9, Cue.move (.exit 0 0 (lit "ok") []), .go (.handler 0) 16,
      .go (.handler 1) 2]).any fun c =>
    meets c (.handler 1) isCall && c.world.trace.all fun o => (Obs.callOf 1 o).isNone

/-- A reply that begins while the child of its message runs. -/
theorem followup_resumed_queued : ∃ c₀ c₁ c args row m made,
    Reaches oneAgent (fun _ _ => True) c₀ ∧ c₀.world.argsOf 1 = some args ∧
    LooksUp 1 args (lit "$1") c₀ ∧ c₀.world.db.sessions.find? (lit "$1") = some row ∧
    c₀.tasks (.handler 0) ≠ none ∧
    (dispatcher oneAgent).step c₀ (.task (.handler 1) .done) = some c₁ ∧
    (dispatcher oneAgent).Reachable (attended 1 args row) c₁ c ∧
    c.About (.handler 1) (.sync (.mark (.runnerCall
      (replyOf args args.event.body.strip row)))) ∧
    Makes oneAgent m made row c₀.world ∧ ResumesAfter 1 args row m made c := by
  obtain ⟨b, h, hgoal⟩ := reaches_of_play oneAgent followingUp
    (fun b => decide (.handler 1 ∉ b.world.cancelled) &&
      (b.world.inbox[2]?).any (isReplyItem 1 (lit "$1")) &&
      ((dispatcher oneAgent).step b (.start (.pick 2))).any fun b' =>
        ((dispatcher oneAgent).step b' (.task (.handler 1) .done)).any fun c₀ =>
          (isReady 1 (lit "$1") (Machine.Config.world c₀) && (c₀.tasks (.handler 0)).isSome) &&
            ((dispatcher oneAgent).step c₀ (.task (.handler 1) .done)).any comesToCall)
    (fun _ _ (_ : true = true) => trivial) (by decide +kernel)
  obtain ⟨hgoal, hstarts⟩ := Bool.and_eq_true_iff.mp hgoal
  obtain ⟨hnot, hinbox⟩ := Bool.and_eq_true_iff.mp hgoal
  obtain ⟨item, hitem, hreply⟩ := (Option.any_eq_true ..).mp hinbox
  obtain ⟨args, rfl, htrusted, hthread⟩ := eq_of_isReplyItem hreply
  obtain ⟨b', hstart, hbegins⟩ := (Option.any_eq_true ..).mp hstarts
  obtain ⟨c₀, hbegin, hlooks⟩ := (Option.any_eq_true ..).mp hbegins
  obtain ⟨hlooks, hlookups⟩ := Bool.and_eq_true_iff.mp hlooks
  obtain ⟨hready, hruns⟩ := Bool.and_eq_true_iff.mp hlooks
  obtain ⟨hworld, hsession⟩ := Bool.and_eq_true_iff.mp hready
  obtain ⟨hopen, huncancelled⟩ := of_decide_eq_true hworld
  obtain ⟨row, hrow⟩ := Option.isSome_iff_exists.mp hsession
  obtain ⟨c₁, hlookup, hplay⟩ := (Option.any_eq_true ..).mp hlookups
  have hattended : ∀ w e, isAttended 1 w e = true → attended 1 args row w e := attended_of_check
  obtain ⟨c, hreach, hgoal⟩ := Machine.exists_reachable hattended hplay
  obtain ⟨hmeets, hnone⟩ := Bool.and_eq_true_iff.mp hgoal
  obtain ⟨e, habout, he⟩ := about_of_meets hmeets
  obtain ⟨turn, rfl⟩ := eq_of_isCall he
  -- the steps that lead to the lookup
  have htask := begun_of_start hitem (of_decide_eq_true hnot) hstart hbegin
  have hbefore : (dispatcher oneAgent).Reachable (fun _ _ => True) b c₀ :=
    .step _ (.step (.start (.pick 2)) .refl trivial hstart) trivial hbegin
  have hargs : c₀.world.argsOf 1 = some args := by
    obtain ⟨i, hi, hargs⟩ := (origins_of_reaches h).numbered.inbox _ (List.mem_of_getElem? hitem)
    cases hi
    exact argsOf_mono (grows_of_reachable hbefore).dispatched hargs
  have hlooks : LooksUp 1 args (lit "$1") c₀ :=
    ⟨htask, htrusted, hthread, hopen, huncancelled⟩
  obtain ⟨m, made, hmakes, -, hrest, -⟩ :=
    followup_resumed (h.trans hbefore) hargs hlooks hrow hlookup
  have hresumes := hrest c hreach
  obtain rfl : turn = replyOf args args.event.body.strip row := by
    refine ((hresumes.approaches _ habout).resolve_left fun hresumed => ?_).call turn rfl
    have hcall := List.all_eq_true.mp hnone _ hresumed
    rw [Obs.callOf, if_pos rfl] at hcall
    cases hcall
  exact ⟨c₀, c₁, c, args, row, m, made, h.trans hbefore, hargs, hlooks, hrow,
    Option.isSome_iff_ne_none.mp hruns, hlookup, hreach, habout, hmakes, hresumes⟩

/-- A message and a reply to it, in one batch. The post that acknowledges the message stays under
way while the reply is handled; then the message is spawned. -/
def followingEarly : List Cue :=
  booting ++ batch (lit "t1") (lit "!room") [messageOf (lit "$1") (lit "hi") (.obj []),
    messageOf (lit "$2") (lit "go on") (replyTo (lit "$1"))] ++
    handling 0 2 6 ++ handling 1 2 6 ++ [.go (.handler 0) 13]

/-- The trusted sender sends a message and a reply to it. -/
def FollowsUp (args args' : HandlerArgs) : Prop :=
  (args.event.sender = args.trustedSender ∧ args'.event.sender = args'.trustedSender) ∧
    args.roomId = args'.roomId ∧ (extractThreadRoot args.event).toOption = some none ∧
    (extractThreadRoot args'.event).toOption = some (some args.event.eventId)

instance (args args' : HandlerArgs) : Decidable (FollowsUp args args') :=
  inferInstanceAs (Decidable (_ ∧ _))

/-- A message is spawned, and the reply to it has come to its end without a call of the runner. -/
theorem followup_orphaned : ∃ c args args' turn, Reaches oneAgent startsInOrder c ∧
    c.world.argsOf 0 = some args ∧ c.world.argsOf 1 = some args' ∧ FollowsUp args args' ∧
    Obs.marked (.handler 0) (.runnerCall turn) ∈ c.world.trace ∧
    turn.threadRootId = args.event.eventId ∧ .handler 1 ∈ c.world.finished ∧
    ∀ turn, Obs.marked (.handler 1) (.runnerCall turn) ∉ c.world.trace := by
  obtain ⟨c, h, hgoal⟩ := reaches_of_play oneAgent followingEarly
    (fun c => ((c.world.argsOf 0).any fun args : HandlerArgs =>
        ((c.world.argsOf 1).any fun args' : HandlerArgs => decide (FollowsUp args args')) &&
        (c.world.trace.head?.bind (Obs.callOf 0)).any fun turn : Turn =>
          decide (turn.threadRootId = args.event.eventId)) &&
      decide (.handler 1 ∈ c.world.finished) &&
      c.world.trace.all fun o => (Obs.callOf 1 o).isNone)
    startsInOrder_of_check (by decide +kernel)
  obtain ⟨hgoal, hnone⟩ := Bool.and_eq_true_iff.mp hgoal
  obtain ⟨hargs, hfinished⟩ := Bool.and_eq_true_iff.mp hgoal
  obtain ⟨args, hargs₀, hargs⟩ := (Option.any_eq_true ..).mp hargs
  obtain ⟨hargs, hturn⟩ := Bool.and_eq_true_iff.mp hargs
  obtain ⟨args', hargs₁, hfollows⟩ := (Option.any_eq_true ..).mp hargs
  obtain ⟨turn, hcall, hroot⟩ := (Option.any_eq_true ..).mp hturn
  obtain ⟨o, hhead, hcall⟩ := Option.bind_eq_some_iff.mp hcall
  obtain rfl := Obs.eq_of_callOf hcall
  -- The message was spawned, and no mark of the reply is in the trace.
  refine ⟨c, args, args', turn, h, hargs₀, hargs₁, of_decide_eq_true hfollows,
    List.mem_of_mem_head? hhead, of_decide_eq_true hroot, of_decide_eq_true hfinished,
    fun turn' hmem => ?_⟩
  have hcall' := List.all_eq_true.mp hnone _ hmem
  rw [Obs.callOf, if_pos rfl] at hcall'
  cases hcall'

end MatrixDispatcher
