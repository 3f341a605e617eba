import MatrixDispatcher.Discipline.HandlerWalk
import MatrixDispatcher.Discipline.Sessions

/-!
# A handler by itself

The arena of a handler while nobody else changes the database, its Matrix posts succeed, and it is
not cancelled. The rest of the world may be anything at each of its effects.

* `Act`, `Solo` — what the handler has done, and the database it works on.
* `solo` — the arena.
* `Solo.calls`, `Solo.posts`, `Solo.stamps` — what the acts come to.
* `Triple.effect`, `Triple.performs`, … — the rules for its programs.
-/

namespace MatrixDispatcher

open Coro Py Arena

/-- An effect that was performed, with its response. -/
structure Act where
  eff : Eff
  response : eff.Ret

/-- The database, and what the handler has done, in this order. -/
structure Solo where
  db : Tables
  log : List Act

/-- Posts succeed, and so do statements that violate no constraint. -/
def Undisturbed : Eff → Answer → Prop
  | .await (.roomSend _ _ _), a | .sync (.execute _), a | .sync .commit, a => ∀ x, a ≠ .raised x
  | _, _ => True

/-- The handler performs an effect, in any world with its database. -/
structure Solo.Step (t : Tid) (s : Solo) (e : Eff) (r : e.Ret) (s' : Solo) : Prop where
  exec : ∃ a w w', exec t a e w = some (r, w') ∧ w.db = s.db ∧ w'.db = s'.db ∧
    w.dbOpen = true ∧ t ∉ w.cancelled ∧ Undisturbed e a
  log : s'.log = s.log ++ [⟨e, r⟩]

/-- The arena of handler `t`: it can go on with every effect that does not wait for others. -/
def solo (t : Tid) : Arena Eff Eff.Ret Solo where
  rely s s' := s' = s
  step := Solo.Step t
  safe e s := e.waits = false → ∃ r s', Solo.Step t s e r s'
  rely_refl _ := rfl
  rely_trans h h' := h'.trans h

variable {t : Tid}

/-- Nobody else changes the database or the log, so every assertion is stable. -/
theorem solo_stable (P : Solo → Prop) : (solo t).Stable P := by
  rintro s _ h rfl
  exact h

/-! ## Steps -/

namespace Solo.Step

variable {s s' : Solo}

/-- An effect leaves the database as it is, unless it is a statement. -/
theorem db_eq {e : Eff} {r : e.Ret} (h : Solo.Step t s e r s') (he : Component.db ∉ e.writes) :
    s'.db = s.db := by
  obtain ⟨a, w, w', hexec, hdb, hdb', -⟩ := h.exec
  rw [← hdb, ← hdb']
  exact frame hexec he

/-- A statement is executed, or violates a constraint. -/
theorem execute {stmt : Stmt} {r : Except Exn stmt.Ret}
    (h : Solo.Step t s (.sync (.execute stmt)) r s') :
    (∃ v, stmt.exec s.db = .ok (v, s'.db) ∧ r = .ok v) ∨
      ((∃ x, stmt.exec s.db = .error x) ∧ (∃ x, r = .error x) ∧ s'.db = s.db) := by
  -- The step of the task alone is one of the world, in which the statement is not disturbed.
  obtain ⟨a, w, w', hexec, hdb, hdb', hopen, -, hundisturbed⟩ := h.exec
  obtain ⟨⟨r', w''⟩, hquiet, heq⟩ := Option.map_eq_some_iff.mp hexec
  cases heq
  change w''.db = s'.db at hdb'
  change w.execStmt a stmt = _ at hquiet
  rw [World.execStmt.eq_def] at hquiet
  split at hquiet
  · exact absurd rfl (hundisturbed _)
  · rw [if_pos hopen] at hquiet
    split at hquiet
    · next v db hstmt =>
      cases hquiet
      rw [hdb] at hstmt
      exact .inl ⟨v, by rw [hstmt, ← hdb'], rfl⟩
    · next x hstmt =>
      cases hquiet
      rw [hdb] at hstmt
      exact .inr ⟨⟨x, hstmt⟩, ⟨_, rfl⟩, by rw [← hdb, ← hdb']⟩
  · cases hquiet

/-- An operation of a handler that is not cancelled does not raise `CancelledError`. -/
theorem isException {e : AwaitEff} {x : Exn} (h : Solo.Step t s (.await e) (.error x) s') :
    x.isException = true := by
  obtain ⟨a, w, w', hexec, -, -, -, hnot, -⟩ := h.exec
  exact isException_of_exec hexec hnot

/-- An operation that is not cancelled takes place. -/
theorem operation {e : AwaitEff} {r : Except Exn e.Val} (h : Solo.Step t s (.await e) r s') :
    ∃ a w w', execOperation t a w e = some (r, w') ∧ Undisturbed (.await e) a := by
  obtain ⟨a, w, w', hexec, -, -, -, hnot, hundisturbed⟩ := h.exec
  obtain ⟨⟨r', w''⟩, hquiet, heq⟩ := Option.map_eq_some_iff.mp hexec
  cases heq
  rcases execAwait_eq hquiet with ⟨hmem, -⟩ | ⟨-, hop⟩
  · exact (hnot hmem).elim
  · exact ⟨a, w, w'', hop, hundisturbed⟩

/-- A pause returns. -/
theorem pause {r : Except Exn Unit} (h : Solo.Step t s (.await .pause) r s') : r = .ok () := by
  obtain ⟨a, w, w', hop, -⟩ := h.operation
  cases a <;> cases hop
  rfl

/-- A wait for a lock that ends returns. -/
theorem lockWait {room : RoomId} {r : Except Exn Unit}
    (h : Solo.Step t s (.await (.lockWait room)) r s') : r = .ok () := by
  obtain ⟨a, w, w', hop, -⟩ := h.operation
  rw [execOperation] at hop
  split at hop <;> cases hop
  rfl

/-- A post succeeds, by `Undisturbed`. -/
theorem roomSend {room : RoomId} {body : Str} {reply : Option EventId} {r : Except Exn EventId}
    (h : Solo.Step t s (.await (.roomSend room body reply)) r s') : ∃ e, r = .ok e := by
  obtain ⟨a, w, w', hop, hundisturbed⟩ := h.operation
  cases a with
  | text e =>
    cases hop
    exact ⟨e, rfl⟩
  | raised x => exact absurd rfl (hundisturbed x)
  | _ => cases hop

/-- A commit succeeds, by `Undisturbed`. -/
theorem commit {r : Except Exn Unit} (h : Solo.Step t s (.sync .commit) r s') : r = .ok () := by
  obtain ⟨a, w, w', hexec, -, -, hopen, -, hundisturbed⟩ := h.exec
  obtain ⟨⟨r', w''⟩, hquiet, heq⟩ := Option.map_eq_some_iff.mp hexec
  cases heq
  change w.execCommit a = _ at hquiet
  rw [World.execCommit.eq_def] at hquiet
  split at hquiet
  · exact absurd rfl (hundisturbed _)
  · rw [if_pos hopen] at hquiet
    cases hquiet
    rfl
  · cases hquiet

end Solo.Step

/-- The handler can go on. -/
theorem solo_safe (e : Eff) (s : Solo) : (solo t).safe e s := by
  intro hwaits
  obtain ⟨r, w', hexec⟩ := exec_usualAnswer (t := t) (w := { World.initial with db := s.db }) hwaits
  refine ⟨r, ⟨w'.db, s.log ++ [⟨e, r⟩]⟩, ⟨_, _, w', hexec, rfl, rfl, rfl, List.not_mem_nil, ?_⟩,
    rfl⟩
  unfold Undisturbed
  split
  · exact nofun
  · next stmt => cases stmt <;> exact nofun
  · exact nofun
  · trivial

/-! ## What the acts come to -/

/-- The turn that the runner is called for. -/
def Eff.call : Eff → Option Turn
  | .sync (.mark (.runnerCall turn)) => some turn
  | _ => none

/-- Only the mark of a runner call has a turn. -/
theorem eq_of_call {e : Eff} {turn : Turn} (h : e.call = some turn) :
    e = .sync (.mark (.runnerCall turn)) := by
  rw [Eff.call.eq_def] at h
  split at h
  · rw [Option.some.inj h]
  · cases h

/-- The room, the text and the event replied to of a post. -/
def Eff.post : Eff → Option (RoomId × Str × Option EventId)
  | .await (.roomSend room body replyTo) => some (room, body, replyTo)
  | _ => none

/-- The room whose rate limit is stamped, and the time. -/
def Eff.stamp : Eff → Option (RoomId × Time)
  | .sync (.lastSpawnSet room now) => some (room, now)
  | _ => none

namespace Solo

/-- The calls of `spawn_claude` and `resume_claude`. -/
def calls (s : Solo) : List Turn := s.log.filterMap (·.eff.call)

/-- The posts. -/
def posts (s : Solo) : List (RoomId × Str × Option EventId) := s.log.filterMap (·.eff.post)

/-- The changes of the rate limit. -/
def stamps (s : Solo) : List (RoomId × Time) := s.log.filterMap (·.eff.stamp)

variable {s s' : Solo} {e : Eff} {r : e.Ret}

/-- An effect adds its own call of the runner, if it is one. -/
theorem Step.calls (h : Step t s e r s') : s'.calls = s.calls ++ e.call.toList := by
  rw [Solo.calls, h.log, List.filterMap_append]
  cases hcall : e.call <;> simp [Solo.calls, hcall]

/-- An effect adds its own post, if it is one. -/
theorem Step.posts (h : Step t s e r s') : s'.posts = s.posts ++ e.post.toList := by
  rw [Solo.posts, h.log, List.filterMap_append]
  cases hpost : e.post <;> simp [Solo.posts, hpost]

/-- An effect adds its own stamp, if it is one. -/
theorem Step.stamps (h : Step t s e r s') : s'.stamps = s.stamps ++ e.stamp.toList := by
  rw [Solo.stamps, h.log, List.filterMap_append]
  cases hstamp : e.stamp <;> simp [Solo.stamps, hstamp]

/-- The log of a step is the one before and the step's own act. -/
theorem Step.mem_log (h : Step t s e r s') {act : Act} :
    act ∈ s'.log ↔ act ∈ s.log ∨ act = ⟨e, r⟩ := by
  rw [h.log, List.mem_append, List.mem_singleton]

end Solo

/-! ## Rules -/

namespace Alone

variable {P : Solo → Prop} {α β : Type}

/-- One effect. -/
theorem perform {e : Eff} {Q : e.Ret → Solo → Prop}
    (h : ∀ s r s', P s → Solo.Step t s e r s' → Q r s') :
    (solo t).Triple P (Coro.perform e) Q :=
  Triple.perform (solo_stable P) (fun r => solo_stable (Q r)) (fun s _ => solo_safe e s) h

/-- A synchronous effect, then the rest. -/
theorem sync {e : SyncEff} {f : e.Ret → Py β} {Q : e.Ret → Solo → Prop}
    {Q' : Except Exn β → Solo → Prop}
    (h : ∀ s r s', P s → Solo.Step t s (.sync e) r s' → Q r s')
    (hf : ∀ r, (solo t).Triple (Q r) (f r).run Q') :
    (solo t).Triple P (Py.sync e >>= f).run Q' := by
  have hsync : (solo t).Returns P (Py.sync e) Q :=
    Returns.lift (fun r => solo_stable (Q r)) (perform h)
  exact hsync.bindE hf

/-- An operation that does not raise. -/
theorem await {e : AwaitEff} {Q : e.Val → Solo → Prop}
    (h : ∀ s r s', P s → Solo.Step t s (.await e) r s' → ∃ v, r = .ok v ∧ Q v s') :
    (solo t).Returns P (Py.await e) Q :=
  perform h

/-- A program that returns at once. -/
theorem pure {v : α} {Q : Except Exn α → Solo → Prop} (h : ∀ s, P s → Q (.ok v) s) :
    (solo t).Triple P (Pure.pure v : Py α).run Q :=
  fun s hs s' hrely => by
    obtain rfl : s' = s := hrely
    exact h s' hs

/-- The effects with `F` keep the assertion. -/
def Kept (t : Tid) (F : Eff → Prop) (P : Solo → Prop) : Prop :=
  ∀ ⦃e s r s'⦄, F e → P s → Solo.Step t s e r s' → P s'

variable {F : Eff → Prop}

/-- A program keeps what its effects keep. -/
theorem performs {p : Coro Eff Eff.Ret α} (hP : Kept t F P) (hp : p.Performs F) :
    (solo t).Triple P p fun _ => P :=
  Triple.performs (solo_stable P) (fun e s _ _ => solo_safe e s)
    (fun _ _ _ _ he hs hstep => hP he hs hstep) hp

/-- An operation of another program. -/
theorem network {e : AwaitEff} {Q : Except Exn e.Val → Solo → Prop}
    (h : ∀ s r s', P s → Solo.Step t s (.await e) r s' → Q r s')
    (hpause : ∀ r, Kept t (· = .await .pause) (Q r)) :
    (solo t).Triple P (Py.network e).run Q := by
  have hattempt : (solo t).Returns P (Coro.attempt (Py.await e)) fun res s =>
      Q res s ∧ ∀ x, res = .error x → x.isException = true := by
    refine Returns.attempt (fun _ => solo_stable _) (perform fun s r s' hs hstep => ?_)
    exact ⟨h s r s' hs hstep, fun x hx => by subst hx; exact hstep.isException⟩
  refine hattempt.bindE fun res => ?_
  -- The landing is the last effect, and nothing is cancelled here.
  have hrest : ∀ f : Py e.Val, f.run = .ret res → (solo t).Triple (Q res)
      (Py.await .pause >>= fun _ => f).run Q := by
    intro f hf
    have hwait : (solo t).Returns (Q res) (Py.await .pause) fun _ => Q res :=
      await fun s r s' hs hstep => ⟨(), hstep.pause, hpause res rfl hs hstep⟩
    refine hwait.bindE fun _ => ?_
    rw [hf]
    exact Triple.ret (solo_stable _)
  cases res with
  | ok v => exact Triple.pre (fun s hs => hs.1) (hrest (Pure.pure v) rfl)
  | error x =>
    cases x with
    | cancelledError => exact fun s hs => absurd (hs.2 _ rfl) nofun
    | _ => exact Triple.pre (fun s hs => hs.1) (hrest (throw _) rfl)

/-- A post. -/
theorem post {room : RoomId} {body : Str} {reply : Option EventId} {Q : Solo → Prop}
    (h : ∀ s r s', P s → Solo.Step t s (.await (.roomSend room body (reply.filter (· ≠ [])))) r s' →
      Q s')
    (hpause : Kept t (· = .await .pause) Q) :
    (solo t).Returns P (postMessage room body reply) fun _ => Q := by
  have hsend := network (P := P) (t := t)
    (e := .roomSend room body (reply.filter (· ≠ [])))
    (Q := fun r s => (∃ e, r = .ok e) ∧ Q s)
    (fun s r s' hs hstep => ⟨hstep.roomSend, h s r s' hs hstep⟩)
    (fun r _ _ _ _ he hs hstep => ⟨hs.1, hpause he hs.2 hstep⟩)
  refine hsend.mono fun r s hs => ?_
  obtain ⟨⟨e, rfl⟩, hs⟩ := hs
  exact ⟨e, rfl, hs⟩

end Alone

/-! ## What a turn consists of besides its call -/

/-- The effect belongs to a turn, and neither calls the runner, nor looks for a session, makes or
deletes one, nor stamps the rate limit. -/
def Eff.serves : Eff → Bool
  | .sync (.execute s) =>
    match s with
    | .registerAlias _ _ | .touchSession _ _ | .insertPendingApproval _ => true
    | _ => false
  | .sync e =>
    match e with
    | .time | .utcnow | .commit | .lockTry _ | .lockRelease _ | .activeSet _ _ | .activePop _
    | .kill _ | .returncode _ | .registryEnabled | .mark (.leftRun _ _ _)
    | .mark (.recording _ _ _) => true
    | _ => false
  | .await e =>
    match e with
    | .pause | .lockWait _ | .roomSend _ _ _ | .upsertSession _ _ _ _ _ | .fetchPending _ _
    | .linkSession _ _ | .exec _ _ _ _ | .communicate _ _ | .wait _ | .drain _ => true
    | _ => false

/-- `Eff.serves` as a proposition. -/
abbrev Serves (e : Eff) : Prop := e.serves = true

section Serves

variable {room : RoomId} {session : SessionId} {root : EventId}

/-- A statement that `Serves`, with its commit. -/
theorem serves_write {s : Stmt} (h : Serves (.sync (.execute s))) :
    PerformsE Serves (do let _ ← execute s; commit) :=
  performsE_bind (performsE_execute h) fun _ => performsE_commit rfl

/-- Reading the clock `Serves` the turn. -/
theorem serves_now : PerformsE Serves Store.now :=
  performsE_bind (performsE_sync rfl) fun _ => performsE_pure _

/-- `touch_session` `Serves` the turn. -/
theorem serves_touchSession : PerformsE Serves (Store.touchSession root) :=
  performsE_bind serves_now fun _ => serves_write rfl

/-- `register_alias` to the turn's root `Serves` it. -/
theorem serves_registerAlias {e : EventId} : PerformsE Serves (Store.registerAlias e root) := by
  rw [Store.registerAlias]
  split
  · exact performsE_pure _
  · exact serves_write rfl

/-- A post with its alias `Serves` the turn. -/
theorem serves_postAlias {body : Str} {reply : Option EventId} :
    PerformsE Serves (do let e ← postMessage room body reply; Store.registerAlias e root) :=
  performsE_bind (performsE_network rfl rfl) fun _ => serves_registerAlias

/-- The chunks of an output `Serve` the turn. -/
theorem serves_postChunks {mention : UserId} {target : EventId} {i : Nat} {chunks : List Str} :
    PerformsE Serves (postChunks room mention target root i chunks) := by
  induction chunks generalizing i with
  | nil => exact performsE_pure _
  | cons chunk chunks ih =>
    refine performsE_bind (performsE_network rfl rfl) fun e => ?_
    exact performsE_bind serves_registerAlias fun _ => ih

/-- A response `Serves` the turn. -/
theorem serves_postResponse {output : Str} {rc : Int} {mention : UserId} {maxLen : Nat}
    {target : EventId} {action : Str} :
    PerformsE Serves (postResponse room output rc session mention maxLen target action root) := by
  rw [postResponse]
  split
  · exact serves_postAlias
  · exact performsE_bind (performsE_fromExcept _) fun _ => serves_postChunks

/-- `record_pending_if_gated` `Serves` the turn. -/
theorem serves_recordPendingIfGated {agent : AgentName} {start : Time} :
    PerformsE Serves (recordPendingIfGated agent room session root start) := by
  refine (record_recordPendingIfGated start).mono fun e he => ?_
  unfold RecordEff at he
  split at he <;> first | rfl | cases he

/-- `_run_claude` `Serves` the turn, its child and its timeout included. -/
theorem serves_runClaude {argv : List Str} {dir : Str} {agent : AgentName} {timeout : Nat}
    {turn : Turn} : PerformsE Serves (runClaude argv dir agent room timeout turn) := by
  refine (run_runClaude timeout).mono fun e he => ?_
  unfold RunEff at he
  split at he <;> first | rfl | cases he

end Serves

/-! ### What raises no exception -/

namespace Alone

variable {P : Solo → Prop} {room : RoomId}

/-- A program that serves a turn. -/
theorem serves {α : Type} {p : Py α} (hP : Kept t Serves P) (hp : PerformsE Serves p) :
    (solo t).Triple P p.run fun _ => P :=
  performs hP hp

/-- A post returns and keeps what the effects that serve a turn keep. -/
theorem postMessage {body : Str} {reply : Option EventId} (hP : Kept t Serves P) :
    (solo t).Returns P (MatrixDispatcher.postMessage room body reply) fun _ => P :=
  post (fun _ _ _ hs hstep => hP rfl hs hstep) fun _ _ _ _ he hs hstep =>
    hP (by rw [he]; rfl) hs hstep

/-- Returning at once keeps the assertion. -/
theorem done {α : Type} {v : α} : (solo t).Returns P (Pure.pure v : Py α) fun _ => P :=
  Returns.pure (Q := fun _ => P) (solo_stable P)

/-- An alias of a session that is there. -/
theorem registerAlias {e root : EventId} (hP : Kept t Serves P)
    (hroot : ∀ s, P s → s.db.sessions.hasKey root = true) :
    (solo t).Returns P (Store.registerAlias e root) fun _ => P := by
  rw [Store.registerAlias]
  split
  · exact done
  · have hexecute : (solo t).Returns P (Py.execute (.registerAlias e root)) fun _ => P := by
      refine perform fun s r s' hs hstep => ?_
      rcases hstep.execute with ⟨v, -, rfl⟩ | ⟨⟨x, hx⟩, -⟩
      · exact ⟨v, rfl, hP rfl hs hstep⟩
      · -- the thread root is there, so no constraint is violated
        obtain ⟨db, hdb⟩ := Tables.registerAlias_ok (e := e) (hroot s hs)
        rw [Stmt.exec, hdb] at hx
        cases hx
    refine hexecute.bind fun _ => ?_
    exact perform fun s r s' hs hstep => ⟨(), hstep.commit, hP rfl hs hstep⟩

/-- A call of the registry. -/
theorem failOpen {e : AwaitEff} {default : e.Val} (hP : Kept t Serves P)
    (he : Serves (.await e)) :
    (solo t).Returns P (Registry.failOpen default (Py.network e)) fun _ => P := by
  refine sync (fun s r s' hs hstep => hP rfl hs hstep) fun enabled => ?_
  split
  · refine MatrixDispatcher.Returns.tryExcept (M := P) (fun _ => solo_stable P) ?_ fun _ => done
    -- A failure of the call is answered by the default.
    have hnetwork := network (P := P) (t := t) (e := e)
      (Q := fun r s => P s ∧ ∀ x, r = .error x → x.isException = true)
      (fun s r s' hs hstep => ⟨hP he hs hstep, fun x hx => by subst hx; exact hstep.isException⟩)
      (fun r _ _ _ _ hpause hs hstep => ⟨hP (by rw [hpause]; rfl) hs.1 hstep, hs.2⟩)
    refine hnetwork.mono fun res s hs => ?_
    cases res with
    | ok v => exact hs.1
    | error x => exact ⟨hs.2 x rfl, hs.1⟩
  · exact done

/-- `register_session` is fail-open: it returns, whatever the registry answers. -/
theorem registerSession {session : SessionId} {agent : AgentName} {dir url : Str}
    (hP : Kept t Serves P) :
    (solo t).Returns P (MatrixDispatcher.registerSession session agent room dir url)
      fun _ => P := by
  refine sync (fun s r s' hs hstep => hP rfl hs hstep) fun enabled => ?_
  split
  · exact failOpen hP rfl
  · exact done

/-- The lock is taken without raising, after any number of waits. -/
theorem acquireRoomLock {F : Eff → Prop} (hP : Kept t F P) (htry : F (.sync (.lockTry room)))
    (hwait : F (.await (.lockWait room))) :
    (solo t).Returns P (MatrixDispatcher.acquireRoomLock room) fun _ => P := by
  refine sync (fun s r s' hs hstep => hP htry hs hstep) fun got => ?_
  split
  · exact done
  · exact await fun s r s' hs hstep => ⟨(), hstep.lockWait, hP hwait hs hstep⟩

end Alone

end MatrixDispatcher
