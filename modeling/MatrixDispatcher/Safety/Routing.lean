import MatrixDispatcher.Discipline.Alone
import MatrixDispatcher.Safety.Relations
import MatrixDispatcher.Safety.Retention

/-!
# Routing

What becomes of a message, from its sender, its relation, its text and the database.

* `Routed` — the specification of `handle_event`, one field for each route.
* `UnderWay` — the assertion about a turn, before and after its one call of the runner.
* `routed` — in every undisturbed execution a message is routed as specified.
-/

namespace MatrixDispatcher

open Coro Py Arena

/-! ## Specification -/

/-- The effect belongs to a command. -/
def Eff.commands : Eff → Bool
  | .sync (.execute (.recentSessions _ _)) | .sync (.execute (.sessionIds _))
  | .sync (.readTranscript _ _) | .sync (.listTranscripts _) | .sync (.activeGet _)
  | .sync (.lockLocked _) | .sync (.sendSignal _ _) => true
  | _ => false

/-- The effect waits, or reads the clock or the rate limit. -/
def Eff.idle : Eff → Bool
  | .sync .time | .sync .uuid4 | .sync (.lastSpawnGet _) | .sync (.lockTry _)
  | .sync (.lockRelease _) | .await .pause | .await (.lockWait _) => true
  | _ => false

/-- The hint that answers a reply to an expired thread. -/
def expiredText (args : HandlerArgs) : Str :=
  args.mentionUser ++ lit " No active session for that thread (it may have expired). " ++
    lit "Send a new message (not a reply) to start one, or `!sessions` to list recent ones."

/-- A post that replies to the message. -/
def answerTo (args : HandlerArgs) (body : Str) : RoomId × Str × Option EventId :=
  (args.roomId, body, (some args.event.eventId).filter (· ≠ []))

/-- A message is rate limited, at that time and with that start of the last session. -/
def Limited (now : Time) (last : Option Time) : Prop :=
  now - last.getD 0 < secondsToTime RATE_LIMIT_SECONDS

/-- What has become of a message, if the handler began with the database `db`. -/
structure Routed (args : HandlerArgs) (db : Tables) (s : Solo) : Prop where
  /-- A message of anybody else is discarded. -/
  untrusted : args.event.sender ≠ args.trustedSender → s = ⟨db, []⟩
  /-- A reply to a tracked session is passed on to it, commands included. -/
  reply : args.event.sender = args.trustedSender →
    ∀ e row, extractThreadRoot args.event = .ok (some e) → db.getSessionByEvent e = some row →
      s.calls = [replyOf args args.event.body.strip row] ∧ ∀ act ∈ s.log, act.eff.commands = false
  /-- Any other reply is hinted at or ignored. -/
  orphan : args.event.sender = args.trustedSender →
    ∀ e, extractThreadRoot args.event = .ok (some e) → db.getSessionByEvent e = none →
      s.calls = [] ∧ s.db = db ∧ s.stamps = [] ∧
        ∃ fetched, ⟨.await (.roomGetEvent args.roomId e), fetched⟩ ∈ s.log ∧
          s.posts = if args.botUserId ≠ [] ∧ fetched = .ok (some args.botUserId) then
            [answerTo args (expiredText args)] else []
  /-- A command calls no runner, and only one of them adds a session. -/
  command : args.event.sender = args.trustedSender → extractThreadRoot args.event = .ok none →
    (lit "!").isPrefixOf args.event.body.strip = true →
      s.calls = [] ∧ (args.event.body.strip.splitWord.1.lower ≠ lit "!mirror" →
        ∀ root, s.db.sessions.hasKey root = true → db.sessions.hasKey root = true)
  /-- Any other message starts a session of its own, unless it is rate limited. -/
  root : args.event.sender = args.trustedSender → extractThreadRoot args.event = .ok none →
    (lit "!").isPrefixOf args.event.body.strip = false →
      ∃ now last, ⟨.sync .time, now⟩ ∈ s.log ∧
        ⟨.sync (.lastSpawnGet args.roomId), last⟩ ∈ s.log ∧
        ((Limited now last ∧ s.calls = [] ∧ s.db = db ∧ s.stamps = [] ∧
            ∃ body, s.posts = [answerTo args body]) ∨
          (¬ Limited now last ∧ s.stamps = [(args.roomId, now)] ∧
            ∃ session row, s.calls = [newOf args args.event.body.strip session] ∧
              s.db.sessions.find? args.event.eventId = some row ∧ row.sessionId = session ∧
              row.roomId = args.roomId ∧ row.agent = args.agentName))


/-! ## Turns under way -/

/-- A turn under way: what it has called, and the row of its session. -/
structure UnderWay (base : SessionRow) (stamps : List (RoomId × Time)) (log : List Act)
    (calls : List Turn) (s : Solo) : Prop where
  calls : s.calls = calls
  stamps : s.stamps = stamps
  commands : ∀ act ∈ s.log, act.eff.commands = false
  /-- What was done at the beginning. -/
  begun : ∀ act ∈ log, act ∈ s.log
  row : ∃ row, s.db.sessions.find? base.threadRootId = some row ∧
    row.sessionId = base.sessionId ∧ row.roomId = base.roomId ∧ row.agent = base.agent

variable {t : Tid} {base : SessionRow} {stamps : List (RoomId × Time)} {log : List Act}
  {calls : List Turn}

/-- What serves a turn leaves the row of its session, but for its last use. -/
theorem find?_of_serves {s s' : Solo} {e : Eff} {r : e.Ret} (he : Serves e)
    (h : Solo.Step t s e r s') {k : EventId} {row : SessionRow}
    (hrow : s.db.sessions.find? k = some row) :
    ∃ row', s'.db.sessions.find? k = some row' ∧ row'.sessionId = row.sessionId ∧
      row'.roomId = row.roomId ∧ row'.agent = row.agent := by
  have hsame : s'.db.sessions = s.db.sessions → ∃ row', s'.db.sessions.find? k = some row' ∧
      row'.sessionId = row.sessionId ∧ row'.roomId = row.roomId ∧ row'.agent = row.agent :=
    fun hdb => ⟨row, by rw [hdb, hrow], rfl, rfl, rfl⟩
  -- What does not write the database leaves the row.
  by_cases hwrites : Component.db ∈ e.writes
  case neg => exact hsame (by rw [h.db_eq hwrites])
  cases e with
  | sync e =>
    cases e with
    | execute stmt =>
      rcases h.execute with ⟨v, hexec, -⟩ | ⟨-, -, hdb⟩
      · rcases sessions_of_exec hexec with hdb | ⟨root, now, rfl⟩ | ⟨_, _, _, _, _, rfl⟩ | ⟨_, rfl⟩
        · exact hsame hdb
        · -- the time of the last use is all that changes
          obtain ⟨-, hdb⟩ := Prod.mk.inj (Except.ok.inj hexec)
          rw [← hdb, Tables.touchSession, Table.find?_update, hrow]
          refine ⟨_, rfl, ?_⟩
          dsimp only
          split <;> exact ⟨rfl, rfl, rfl⟩
        · cases he
        · cases he
      · exact hsame (by rw [hdb])
    | closeDb => cases he
    | _ => simp [Eff.writes] at hwrites
  | await e => cases e <;> simp [Eff.writes, AwaitEff.writes] at hwrites

/-- What serves a turn keeps the assertion about it. -/
theorem UnderWay.kept : Alone.Kept t Serves (UnderWay base stamps log calls) := by
  intro e s r s' he hs hstep
  have hnone : e.call = none ∧ e.stamp = none ∧ e.commands = false := by
    cases e with
    | sync e =>
      cases e with
      | execute stmt => cases stmt <;> first | exact ⟨rfl, rfl, rfl⟩ | cases he
      | mark m => cases m <;> first | exact ⟨rfl, rfl, rfl⟩ | cases he
      | _ => first | exact ⟨rfl, rfl, rfl⟩ | cases he
    | await e => cases e <;> exact ⟨rfl, rfl, rfl⟩
  obtain ⟨row, hrow, hsession, hroom, hagent⟩ := hs.row
  obtain ⟨row', hrow', hsession', hroom', hagent'⟩ := find?_of_serves he hstep hrow
  exact {
    calls := by rw [hstep.calls, hnone.1, Option.toList_none, List.append_nil, hs.calls]
    stamps := by rw [hstep.stamps, hnone.2.1, Option.toList_none, List.append_nil, hs.stamps]
    commands := fun act hact => by
      rcases hstep.mem_log.mp hact with hact | rfl
      · exact hs.commands act hact
      · exact hnone.2.2
    begun := fun act hact => hstep.mem_log.mpr (.inl (hs.begun act hact))
    row := ⟨row', hrow', hsession'.trans hsession, hroom'.trans hroom, hagent'.trans hagent⟩ }

/-- The call of a turn under way. -/
theorem UnderWay.call {s s' : Solo} {turn : Turn} {r : Unit}
    (h : UnderWay base stamps log [] s)
    (hstep : Solo.Step t s (.sync (.mark (.runnerCall turn))) r s') :
    UnderWay base stamps log [turn] s' where
  calls := by rw [hstep.calls, h.calls]; rfl
  stamps := by rw [hstep.stamps, h.stamps]; exact List.append_nil _
  commands act hact := by
    rcases hstep.mem_log.mp hact with hact | rfl
    · exact h.commands act hact
    · rfl
  begun act hact := hstep.mem_log.mpr (.inl (h.begun act hact))
  row := by
    rw [hstep.db_eq (by simp [Eff.writes])]
    exact h.row

/-- A program that calls the runner once, then serves the turn. -/
theorem UnderWay.calling {turn : Turn} {α β : Type} {call : Py α} {rest : Except Exn α → Py β}
    (hcall : PerformsE Serves call) (hrest : ∀ res, PerformsE Serves (rest res)) :
    (solo t).Triple (UnderWay base stamps log [])
      (Coro.attempt (do sync (.mark (.runnerCall turn)); call) >>= rest).run
      fun _ => UnderWay base stamps log [turn] := by
  have hcalled : (solo t).Triple (UnderWay base stamps log [])
      (do sync (.mark (.runnerCall turn)); call : Py α).run
      fun _ => UnderWay base stamps log [turn] :=
    Alone.sync (fun _ _ _ hs hstep => hs.call hstep) fun _ => Alone.serves UnderWay.kept hcall
  have hattempt : (solo t).Returns (UnderWay base stamps log [])
      (Coro.attempt (do sync (.mark (.runnerCall turn)); call)) fun _ =>
        UnderWay base stamps log [turn] :=
    Returns.attempt (fun _ => solo_stable _) hcalled
  exact hattempt.bindE fun res => Alone.serves UnderWay.kept (hrest res)

/-- A turn under the room lock. -/
theorem UnderWay.withRoomLock {room : RoomId} {body : Py Unit} {calls' : List Turn}
    (hbody : (solo t).Triple (UnderWay base stamps log calls) body.run
      fun _ => UnderWay base stamps log calls') :
    (solo t).Triple (UnderWay base stamps log calls) (withRoomLock room body).run
      fun _ => UnderWay base stamps log calls' := by
  refine (Alone.acquireRoomLock UnderWay.kept rfl rfl).bindE fun _ => ?_
  refine Triple.finallyDo (fun _ => solo_stable _) hbody fun _ => ?_
  exact Alone.perform fun s r s' hs hstep => UnderWay.kept rfl hs hstep

theorem UnderWay.hasKey {s : Solo} (h : UnderWay base stamps log calls s) :
    s.db.sessions.hasKey base.threadRootId = true := by
  obtain ⟨row, hrow, -⟩ := h.row
  rw [Table.hasKey, hrow]
  rfl

/-! ## Replies -/

variable {args : HandlerArgs}

theorem replyTurn_calls {ack : EventId} :
    (solo t).Triple (UnderWay base stamps log [])
      (replyTurn args args.event.body.strip base ack).run
      fun _ => UnderWay base stamps log [replyOf args args.event.body.strip base] := by
  refine Alone.sync (fun _ _ _ hs hstep => UnderWay.kept rfl hs hstep) fun start => ?_
  refine UnderWay.calling serves_runClaude fun res => ?_
  split
  · exact serves_postAlias
  · exact performsE_throw _
  · refine performsE_bind serves_touchSession fun _ => ?_
    exact performsE_bind serves_postResponse fun _ => serves_recordPendingIfGated

theorem handleReply_calls :
    (solo t).Triple (UnderWay base stamps log [])
      (handleReply args args.event.body.strip base).run
      fun _ => UnderWay base stamps log [replyOf args args.event.body.strip base] := by
  refine (Alone.postMessage UnderWay.kept).bindE fun ack => ?_
  refine (Alone.registerAlias UnderWay.kept fun _ hs => hs.hasKey).bindE fun _ => ?_
  refine (Alone.registerSession UnderWay.kept).bindE fun _ => ?_
  exact UnderWay.withRoomLock replyTurn_calls

/-! ## Before a turn -/

/-- The runner has not been called, and the database is as it was. -/
structure Settled (db : Tables) (posts : List (RoomId × Str × Option EventId))
    (stamps : List (RoomId × Time)) (log : List Act) (s : Solo) : Prop where
  calls : s.calls = []
  db : s.db = db
  posts : s.posts = posts
  stamps : s.stamps = stamps
  commands : ∀ act ∈ s.log, act.eff.commands = false
  begun : ∀ act ∈ log, act ∈ s.log

namespace Settled

variable {db : Tables} {posts : List (RoomId × Str × Option EventId)}

theorem start : Settled db [] [] [] ⟨db, []⟩ :=
  ⟨rfl, rfl, rfl, rfl, by simp, by simp⟩

/-- An effect that neither calls the runner nor changes the database, and is noted. -/
theorem record {s s' : Solo} {e : Eff} {r : e.Ret} (h : Settled db posts stamps log s)
    (hstep : Solo.Step t s e r s') (hdb : s'.db = s.db) (hcall : e.call = none)
    (hcommand : e.commands = false) :
    Settled db (posts ++ e.post.toList) (stamps ++ e.stamp.toList) (log ++ [⟨e, r⟩]) s' where
  calls := by rw [hstep.calls, h.calls, hcall]; rfl
  db := hdb.trans h.db
  posts := by rw [hstep.posts, h.posts]
  stamps := by rw [hstep.stamps, h.stamps]
  commands act hact := by
    rcases hstep.mem_log.mp hact with hact | rfl
    · exact h.commands act hact
    · exact hcommand
  begun act hact := by
    rw [hstep.log]
    rcases List.mem_append.mp hact with hact | hact
    · exact List.mem_append_left _ (h.begun act hact)
    · exact List.mem_append_right _ hact

/-- Such an effect need not be noted. -/
theorem step {s s' : Solo} {e : Eff} {r : e.Ret} (h : Settled db posts stamps log s)
    (hstep : Solo.Step t s e r s') (hdb : s'.db = s.db) (hcall : e.call = none)
    (hcommand : e.commands = false) :
    Settled db (posts ++ e.post.toList) (stamps ++ e.stamp.toList) log s' :=
  { h.record hstep hdb hcall hcommand with
    begun := fun act hact => hstep.mem_log.mpr (.inl (h.begun act hact)) }

/-- Waiting, and readings of the clock and the rate limit, take nothing away from this. -/
theorem kept : Alone.Kept t (·.idle = true) (Settled db posts stamps log) := by
  intro e s r s' he hs hstep
  have hidle : Component.db ∉ e.writes ∧ e.call = none ∧ e.commands = false ∧ e.post = none ∧
      e.stamp = none := by
    unfold Eff.idle at he
    split at he
    case h_8 => cases he
    all_goals exact ⟨by simp [Eff.writes, AwaitEff.writes], rfl, rfl, rfl, rfl⟩
  obtain ⟨hdb, hcall, hcommand, hpost, hstamp⟩ := hidle
  have hstep' := hs.step hstep (hstep.db_eq hdb) hcall hcommand
  rwa [hpost, hstamp, Option.toList_none, Option.toList_none, List.append_nil,
    List.append_nil] at hstep'

theorem pause {e : Eff} {s s' : Solo} {r : e.Ret} (he : e = .await .pause)
    (h : Settled db posts stamps log s) (hstep : Solo.Step t s e r s') :
    Settled db posts stamps log s' :=
  kept (by rw [he]; rfl) h hstep

/-- A post. -/
theorem post {room : RoomId} {body : Str} {reply : Option EventId} :
    (solo t).Returns (Settled db posts stamps log) (postMessage room body reply) fun _ =>
      Settled db (posts ++ [(room, body, reply.filter (· ≠ []))]) stamps log := by
  refine Alone.post (fun s r s' hs hstep => ?_) fun _ _ _ _ he hs hstep =>
    hs.pause he hstep
  have hstep' := hs.step hstep (hstep.db_eq (by simp [Eff.writes, AwaitEff.writes])) rfl rfl
  rwa [show Eff.stamp (.await (.roomSend room body (reply.filter (· ≠ [])))) = none from rfl,
    Option.toList_none, List.append_nil] at hstep'

/-- The lookup of the thread root. -/
theorem lookup {e : EventId} {s s' : Solo} {r : Except Exn (Option SessionRow)}
    (h : Settled db posts stamps log s)
    (hstep : Solo.Step t s (.sync (.execute (.getSessionByEvent e))) r s') :
    r = .ok (db.getSessionByEvent e) ∧ Settled db posts stamps log s' := by
  have hread : r = .ok (s.db.getSessionByEvent e) ∧ s'.db = s.db := by
    rcases hstep.execute with ⟨v, hexec, rfl⟩ | ⟨⟨_, hx⟩, -⟩
    · obtain ⟨hv, hdb⟩ := Prod.mk.inj (Except.ok.inj hexec)
      exact ⟨congrArg Except.ok hv.symm, hdb.symm⟩
    · cases hx
  obtain ⟨hr, hdb⟩ := hread
  have hstep' := h.step hstep hdb rfl rfl
  rw [h.db] at hr
  exact ⟨hr, { hstep' with
    posts := hstep'.posts.trans (List.append_nil _)
    stamps := hstep'.stamps.trans (List.append_nil _) }⟩

/-- Once the session is there, the turn is under way. -/
theorem underWay {s : Solo} {base row : SessionRow} (h : Settled db posts stamps log s)
    (hrow : db.sessions.find? base.threadRootId = some row)
    (hsession : row.sessionId = base.sessionId) (hroom : row.roomId = base.roomId)
    (hagent : row.agent = base.agent) : UnderWay base stamps log [] s :=
  ⟨h.calls, h.stamps, h.commands, h.begun, row, by rw [h.db, hrow], hsession, hroom, hagent⟩

end Settled

/-! ## Orphans -/

/-- The event that is replied to has been fetched. -/
def fetch (args : HandlerArgs) (e : EventId) (fetched : Except Exn (Option UserId)) : Act :=
  ⟨.await (.roomGetEvent args.roomId e), fetched⟩

theorem getEventSender_fetches {e : EventId} {db : Tables} :
    (solo t).Returns (Settled db [] [] []) (getEventSender args.roomId e) fun sender s =>
      ∃ fetched, sender = fetched.toOption.join ∧ Settled db [] [] [fetch args e fetched] s := by
  have hnetwork := Alone.network (t := t) (P := Settled db [] [] [])
    (e := .roomGetEvent args.roomId e)
    (Q := fun r s => (∀ x, r = .error x → x.isException = true) ∧
      Settled db [] [] [fetch args e r] s)
    (fun s r s' hs hstep => ⟨fun x hx => by subst hx; exact hstep.isException,
      hs.record hstep (hstep.db_eq (by simp [Eff.writes, AwaitEff.writes])) rfl rfl⟩)
    (fun r _ _ _ _ he hs hstep => ⟨hs.1, hs.2.pause he hstep⟩)
  refine MatrixDispatcher.Returns.tryExcept
    (M := fun s => ∃ fetched : Except Exn (Option UserId), none = fetched.toOption.join ∧
      Settled db [] [] [fetch args e fetched] s)
    (fun _ => solo_stable _) (hnetwork.mono fun r s hs => ?_) fun x => ?_
  · cases r with
    | ok v => exact ⟨_, rfl, hs.2⟩
    | error x => exact ⟨hs.1 x rfl, _, rfl, hs.2⟩
  · exact Returns.pure (Q := fun sender s => ∃ fetched : Except Exn (Option UserId),
      sender = fetched.toOption.join ∧ Settled db [] [] [fetch args e fetched] s) (solo_stable _)

/-- What `handle_event` does with a reply to a thread that is not tracked. -/
theorem handleOrphan_answers {e : EventId} {db : Tables} :
    (solo t).Triple (Settled db [] [] []) (handleOrphan args e).run fun _ s =>
      ∃ fetched, Settled db (if args.botUserId ≠ [] ∧ fetched = .ok (some args.botUserId) then
        [answerTo args (expiredText args)] else []) [] [fetch args e fetched] s := by
  refine getEventSender_fetches.bindE fun sender => Triple.of_exists fun fetched =>
    Triple.of_fact fun hfetched => ?_
  have hsender : sender = some args.botUserId ↔ fetched = .ok (some args.botUserId) := by
    subst hfetched
    rcases fetched with x | _ | v <;> simp [Except.toOption]
  simp only [hsender]
  split
  · next hbot =>
    refine Settled.post.bindE fun _ => Alone.pure fun s hs => ⟨fetched, ?_⟩
    rw [if_pos hbot]
    exact hs
  · next hbot =>
    refine Alone.pure fun s hs => ⟨fetched, ?_⟩
    rw [if_neg hbot]
    exact hs

/-! ## Commands -/

/-- The terms of a command: only `!mirror` inserts a session, and none calls the runner. -/
def commandTerms (args : HandlerArgs) : SessionTerms :=
  { unspawning args with calls := fun _ _ => False }

/-- What a command leaves alone. -/
structure Uncalled (args : HandlerArgs) (db : Tables) (s : Solo) : Prop where
  calls : s.calls = []
  keys : args.event.body.strip.splitWord.1.lower ≠ lit "!mirror" →
    ∀ root, s.db.sessions.hasKey root = true → db.sessions.hasKey root = true

/-- No effect but the insertion of a session adds one. -/
theorem hasKey_of_step {s s' : Solo} {e : Eff} {r : e.Ret} (h : Solo.Step t s e r s')
    (hinsert : ∀ root room agent session now,
      e ≠ .sync (.execute (.insertSession root room agent session now)))
    (hclose : e ≠ .sync .closeDb) {root : EventId} (hkey : s'.db.sessions.hasKey root = true) :
    s.db.sessions.hasKey root = true := by
  by_cases hkeys : e.writesKeys = true
  case neg =>
    obtain ⟨a, w, w', hexec, hdb, hdb', -⟩ := h.exec
    have hsame := hasKey_of_exec hexec (by simpa using hkeys) root
    rw [hdb, hdb'] at hsame
    exact hsame ▸ hkey
  cases e with
  | sync e =>
    cases e with
    | execute stmt =>
      cases stmt with
      | insertSession root room agent session now => exact absurd rfl (hinsert _ _ _ _ _)
      -- A cleanup only takes sessions away.
      | deleteStaleSessions cutoff =>
        rcases h.execute with ⟨v, hexec, -⟩ | ⟨-, -, hdb⟩
        · rw [Stmt.exec, Tables.deleteStaleSessions] at hexec
          split at hexec
          · cases hexec
          · obtain ⟨-, hdb⟩ := Prod.mk.inj (Except.ok.inj hexec)
            obtain ⟨row, hrow, hroot⟩ := Table.hasKey_iff.mp hkey
            rw [← hdb] at hrow
            exact Table.hasKey_iff.mpr ⟨row, (Table.mem_deleteWhere.mp hrow).1, hroot⟩
        · rwa [hdb] at hkey
      | _ => cases hkeys
    | closeDb => exact absurd rfl hclose
    | _ => cases hkeys
  | await e => cases hkeys

theorem handleCommand_calls {db : Tables} :
    (solo t).Triple (Uncalled args db) (handleCommand args args.event.body.strip).run
      fun _ => Uncalled args db := by
  -- A command keeps its terms, and is no turn.
  have hkeeps : (commandTerms args).Keeps (handleCommand args args.event.body.strip)
      fun _ => True :=
    keeps_handleCommand (fun hmirror _ _ => ⟨hmirror, fun _ _ _ => trivial⟩)
      fun _ _ _ _ => trivial
  have hperforms : (handleCommand args args.event.body.strip).run.Performs
      (commandTerms args).promises :=
    Contract.Keeps.performs (@unspawning_relies args) hkeeps
  refine Alone.performs ?_ (hperforms.and turn_handleCommand)
  rintro e s r s' ⟨hpromises, hturn⟩ hs hstep
  refine ⟨?_, fun hmirror root hkey => hs.keys hmirror root (hasKey_of_step hstep ?_ ?_ hkey)⟩
  · have hcall : e.call = none := by
      refine Option.eq_none_iff_forall_ne_some.mpr fun turn hcall => ?_
      obtain rfl := eq_of_call hcall
      exact hpromises.elim fun _ => False.elim
    rw [hstep.calls, hs.calls, hcall]
    rfl
  · rintro root room agent session now rfl
    exact hmirror hpromises
  · rintro rfl
    cases hturn

/-! ## New sessions -/

/-- The row of the session that is inserted for a message. -/
def newRow (args : HandlerArgs) (session : SessionId) (now : Int) : SessionRow :=
  ⟨args.event.eventId, args.roomId, args.agentName, session, now, now⟩

/-- The session of a message whose id is new is inserted. -/
theorem insertSession_underWay {db : Tables} {posts : List (RoomId × Str × Option EventId)}
    {session : SessionId} (hfresh : db.sessions.hasKey args.event.eventId = false) :
    (solo t).Returns (Settled db posts stamps log)
      (Store.insertSession args.event.eventId args.roomId args.agentName session)
      fun _ => UnderWay (newRow args session 0) stamps log [] := by
  refine Alone.sync (fun _ _ _ hs hstep => Settled.kept rfl hs hstep) fun now => ?_
  -- The event id is new, so the insertion meets no constraint.
  have hexecute : (solo t).Returns (Settled db posts stamps log)
      (Py.execute (.insertSession args.event.eventId args.roomId args.agentName session
        now.seconds)) fun _ => UnderWay (newRow args session 0) stamps log [] := by
    refine Alone.perform fun s r s' hs hstep => ?_
    have hexec : ∃ db', s.db.insertSession args.event.eventId args.roomId args.agentName session
        now.seconds = .ok db' ∧
        db'.sessions.find? args.event.eventId = some (newRow args session now.seconds) := by
      rw [hs.db, Tables.insertSession, dif_pos hfresh]
      exact ⟨_, rfl, by rw [Table.find?_insertNew, if_pos rfl]; rfl⟩
    obtain ⟨db', hdb', hrow⟩ := hexec
    rcases hstep.execute with ⟨v, hok, rfl⟩ | ⟨⟨x, hx⟩, -⟩
    · rw [Stmt.exec, hdb'] at hok
      obtain ⟨-, heq⟩ := Prod.mk.inj (Except.ok.inj hok)
      exact ⟨v, rfl, {
        calls := by rw [hstep.calls, hs.calls]; rfl
        stamps := by rw [hstep.stamps, hs.stamps]; exact List.append_nil _
        commands := fun act hact => by
          rcases hstep.mem_log.mp hact with hact | rfl
          · exact hs.commands act hact
          · rfl
        begun := fun act hact => hstep.mem_log.mpr (.inl (hs.begun act hact))
        row := ⟨newRow args session now.seconds, by rw [← heq]; exact hrow, rfl, rfl, rfl⟩ }⟩
    · rw [Stmt.exec, hdb'] at hx
      cases hx
  refine hexecute.bind fun _ => ?_
  exact Alone.perform fun s r s' hs hstep => ⟨(), hstep.commit, UnderWay.kept rfl hs hstep⟩

theorem spawnTurn_calls {db : Tables} (hfresh : db.sessions.hasKey args.event.eventId = false) :
    (solo t).Triple (Settled db [] stamps log) (spawnTurn args args.event.body.strip).run
      fun _ s => ∃ session, UnderWay (newRow args session 0) stamps log
        [newOf args args.event.body.strip session] s := by
  refine Alone.sync (fun _ _ _ hs hstep => Settled.kept rfl hs hstep) fun session => ?_
  refine Settled.post.bindE fun ack => ?_
  refine Returns.bindE (insertSession_underWay hfresh) fun _ => ?_
  refine (Alone.registerAlias UnderWay.kept fun _ hs => hs.hasKey).bindE fun _ => ?_
  refine (Alone.registerSession UnderWay.kept).bindE fun _ => ?_
  refine Alone.sync (fun _ _ _ hs hstep => UnderWay.kept rfl hs hstep) fun start => ?_
  refine Triple.mono (fun _ _ hs => ⟨session, hs⟩) (UnderWay.calling serves_runClaude fun res => ?_)
  split
  · exact serves_postAlias
  · exact performsE_throw _
  · exact performsE_bind serves_postResponse fun _ => serves_recordPendingIfGated

/-- The readings that decide on the rate limit. -/
def readings (args : HandlerArgs) (now : Time) (last : Option Time) : List Act :=
  [⟨.sync .time, now⟩, ⟨.sync (.lastSpawnGet args.roomId), last⟩]

/-- A message is answered by the rate limit, or has had the turn of its session. -/
def RootDone (args : HandlerArgs) (db : Tables) (s : Solo) : Prop :=
  ∃ now last,
    (Limited now last ∧ ∃ body, Settled db [answerTo args body] [] (readings args now last) s) ∨
      (¬ Limited now last ∧ ∃ session, UnderWay (newRow args session 0) [(args.roomId, now)]
        (readings args now last) [newOf args args.event.body.strip session] s)

theorem rootTurn_calls {db : Tables} (hfresh : db.sessions.hasKey args.event.eventId = false) :
    (solo t).Triple (Settled db [] [] []) (rootTurn args args.event.body.strip).run
      fun _ => RootDone args db := by
  refine Alone.sync (fun _ _ _ hs hstep => hs.record hstep (hstep.db_eq (by simp [Eff.writes])) rfl
    rfl) fun now => ?_
  refine Alone.sync (fun _ _ _ hs hstep => hs.record hstep (hstep.db_eq (by simp [Eff.writes])) rfl
    rfl) fun last => ?_
  dsimp only
  split
  · next hlimited =>
    refine Settled.post.bindE fun _ => Alone.pure fun s hs => ?_
    exact ⟨now, last, .inl ⟨hlimited, _, hs⟩⟩
  · next hlimited =>
    refine Alone.sync (fun _ _ _ hs hstep => hs.step hstep (hstep.db_eq (by simp [Eff.writes])) rfl
      rfl) fun _ => ?_
    refine (spawnTurn_calls hfresh).mono fun _ s hs => ?_
    exact ⟨now, last, .inr ⟨hlimited, hs⟩⟩

/-! ## Routes -/

theorem untrusted_routed {db : Tables} (h : args.event.sender ≠ args.trustedSender) :
    (solo t).Triple (· = ⟨db, []⟩) (handleEvent args).run fun _ => Routed args db := by
  rw [handleEvent, if_pos h]
  refine Alone.pure fun s hs => ?_
  exact {
    untrusted := fun _ => hs
    reply := fun htrusted => absurd htrusted h
    orphan := fun htrusted => absurd htrusted h
    command := fun htrusted => absurd htrusted h
    root := fun htrusted => absurd htrusted h }

theorem thread_routed {db : Tables} {e : EventId}
    (htrusted : args.event.sender = args.trustedSender)
    (hthread : extractThreadRoot args.event = .ok (some e)) :
    (solo t).Triple (· = ⟨db, []⟩) (handleEvent args).run fun _ => Routed args db := by
  rw [handleEvent_of_thread htrusted hthread]
  -- The lookup is one statement, whose result is that of `db`.
  have hlookup : (solo t).Returns (· = ⟨db, []⟩) (Store.getSessionByEvent e) fun row s =>
      row = db.getSessionByEvent e ∧ Settled db [] [] [] s := by
    refine Alone.perform ?_
    rintro _ r s' rfl hstep
    obtain ⟨rfl, hs'⟩ := Settled.start.lookup hstep
    exact ⟨_, rfl, rfl, hs'⟩
  refine hlookup.bindE fun row => Triple.of_fact fun hrow => ?_
  cases row with
  -- A tracked thread: the reply is handled, and the other cases of `Routed` do not arise.
  | some row =>
    have hfind := find?_of_getSessionByEvent hrow.symm
    refine Triple.pre (fun s hs => hs.underWay hfind rfl rfl rfl)
      (handleReply_calls.mono fun _ s hs => ?_)
    exact {
      untrusted := fun h => absurd htrusted h
      reply := fun _ e' row' hthread' hrow' => by
        cases hthread.symm.trans hthread'
        obtain rfl := Option.some.inj (hrow.trans hrow')
        exact ⟨hs.calls, hs.commands⟩
      orphan := fun _ e' hthread' hnone => by
        cases hthread.symm.trans hthread'
        cases hrow.trans hnone
      command := fun _ hroot => by cases hthread.symm.trans hroot
      root := fun _ hroot => by cases hthread.symm.trans hroot }
  -- An expired thread: it is answered, unless its root is somebody else's.
  | none =>
    refine handleOrphan_answers.mono fun _ s hs => ?_
    obtain ⟨fetched, hs⟩ := hs
    exact {
      untrusted := fun h => absurd htrusted h
      reply := fun _ e' row hthread' hrow' => by
        cases hthread.symm.trans hthread'
        cases hrow.trans hrow'
      orphan := fun _ e' hthread' _ => by
        cases hthread.symm.trans hthread'
        exact ⟨hs.calls, hs.db, hs.stamps, fetched, hs.begun _ List.mem_cons_self, hs.posts⟩
      command := fun _ hroot => by cases hthread.symm.trans hroot
      root := fun _ hroot => by cases hthread.symm.trans hroot }

theorem root_routed {db : Tables} (htrusted : args.event.sender = args.trustedSender)
    (hroot : extractThreadRoot args.event = .ok none)
    (hfresh : db.sessions.hasKey args.event.eventId = false) :
    (solo t).Triple (· = ⟨db, []⟩) (handleEvent args).run fun _ => Routed args db := by
  rw [handleEvent_of_root htrusted hroot]
  split
  · next hcommand =>
    refine Triple.pre (fun s hs => by subst hs; exact ⟨rfl, fun _ _ => id⟩)
      (handleCommand_calls.mono fun _ s hs => ?_)
    exact {
      untrusted := fun h => absurd htrusted h
      reply := fun _ e row hthread => by cases hroot.symm.trans hthread
      orphan := fun _ e hthread => by cases hroot.symm.trans hthread
      command := fun _ _ _ => ⟨hs.calls, hs.keys⟩
      root := fun _ _ hnot => by rw [hcommand] at hnot; cases hnot }
  · next hcommand =>
    -- No command: the message has its turn under the room lock.
    have hdone : (solo t).Triple (Settled db [] [] [])
        (withRoomLock args.roomId (rootTurn args args.event.body.strip)).run
        fun _ => RootDone args db := by
      refine (Alone.acquireRoomLock Settled.kept rfl rfl).bindE fun _ => ?_
      refine Triple.finallyDo (fun _ => solo_stable _) (rootTurn_calls hfresh) fun _ => ?_
      refine Alone.perform ?_
      rintro s r s' ⟨now, last, ⟨hlimited, body, hs⟩ | ⟨hlimited, session, hs⟩⟩ hstep
      · exact ⟨now, last, .inl ⟨hlimited, body, Settled.kept rfl hs hstep⟩⟩
      · exact ⟨now, last, .inr ⟨hlimited, session, UnderWay.kept rfl hs hstep⟩⟩
    refine Triple.pre (fun s hs => by subst hs; exact Settled.start) (hdone.mono fun _ s hs => ?_)
    exact {
      untrusted := fun h => absurd htrusted h
      reply := fun _ e row hthread => by cases hroot.symm.trans hthread
      orphan := fun _ e hthread => by cases hroot.symm.trans hthread
      command := fun _ _ h => absurd h hcommand
      root := fun _ _ _ => by
        obtain ⟨now, last, ⟨hlimited, body, hs⟩ | ⟨hlimited, session, hs⟩⟩ := hs
        · exact ⟨now, last, hs.begun _ List.mem_cons_self,
            hs.begun _ (List.mem_cons_of_mem _ List.mem_cons_self),
            .inl ⟨hlimited, hs.calls, hs.db, hs.stamps, body, hs.posts⟩⟩
        · obtain ⟨row, hrow, hsession, hroom, hagent⟩ := hs.row
          exact ⟨now, last, hs.begun _ List.mem_cons_self,
            hs.begun _ (List.mem_cons_of_mem _ List.mem_cons_self),
            .inr ⟨hlimited, hs.stamps, session, row, hs.calls, hrow, hsession, hroom, hagent⟩⟩ }

/-- In every undisturbed execution, a message whose id is new is routed as specified. -/
theorem routed {db : Tables} (hfresh : db.sessions.hasKey args.event.eventId = false) :
    (solo t).Triple (· = ⟨db, []⟩) (handleEvent args).run fun _ => Routed args db := by
  by_cases htrusted : args.event.sender = args.trustedSender
  case neg => exact untrusted_routed htrusted
  rcases hthread : extractThreadRoot args.event with x | _ | e
  · -- a relation that cannot be read raises before anything is done
    rw [handleEvent, if_neg (not_not.mpr htrusted), hthread]
    rintro s rfl s' rfl
    exact {
      untrusted := fun h => absurd htrusted h
      reply := fun _ e row hthread' => by cases hthread.symm.trans hthread'
      orphan := fun _ e hthread' => by cases hthread.symm.trans hthread'
      command := fun _ hroot => by cases hthread.symm.trans hroot
      root := fun _ hroot => by cases hthread.symm.trans hroot }
  · exact root_routed htrusted hthread hfresh
  · exact thread_routed htrusted hthread

/-- A database in which one session of `$1` is tracked. -/
def tracked : Tables where
  __ := Tables.empty
  sessions := Table.empty.insertNew ⟨lit "$1", lit "!room", lit "agent", lit "5e55", 100, 100⟩
    (Table.hasKey_empty _)

theorem routed_tracked :
    (solo (.handler 0)).Triple (· = ⟨tracked, []⟩)
      (handleEvent (relatedMessage (editOf (lit "$1")))).run
      fun _ => Routed (relatedMessage (editOf (lit "$1"))) tracked :=
  routed (by decide)

end MatrixDispatcher
