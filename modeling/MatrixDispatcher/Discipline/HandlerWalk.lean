import MatrixDispatcher.Discipline.Deeds
import MatrixDispatcher.Discipline.Sessions

/-!
# Handlers in their arena

The programs that a handler is made of, with what they do for a session. A triple whose result is
a `match` says what is known on success and on an exception.

* `post`, `alias`, `turn_runClaude`, … — the pieces.
* `responseTexts` — what `_post_response` posts.
* `reply_handleReply` — the whole of a thread reply.
-/

namespace MatrixDispatcher

open Coro Py

variable {n : Nat} {S : Surroundings n} {F : World → Prop} {ds : List Deed}

/-- Nothing more is done. -/
theorem Returns.done {α : Type} {v : α} (hF : S.Lasting F) :
    (watch S).Returns (Stands n F ds) (Pure.pure v : Py α) fun _ => Stands n F ds :=
  fun _ h _ hrely => ⟨v, rfl, Stands.stable hF h hrely⟩

/-! ## Deeds -/

/-- An effect that is a deed, when it succeeds. -/
theorem Triple.deed {e : Eff} {d : Deed} {V : e.Ret → Prop} (hF : S.Lasting F)
    (he : e.tame = true) (hsound : ∀ w, e.Sound w)
    (hdeed : ∀ w a r w', Stands n F ds w → S.Succeeds e a →
      exec (.handler n) a e w = some (r, w') →
        V r ∧ (obsOf (.handler n) e r).bind (deedOf (.handler n)) = some d) :
    (watch S).Triple (Stands n F ds) (Coro.perform e) fun r w =>
      V r ∧ Stands n F (ds ++ [d]) w := by
  refine .perform (Stands.stable hF) (fun _ => (Arena.stable_const _).and (Stands.stable hF))
    (fun w h => watch_safe (hsound w)) ?_
  rintro w r w' h ⟨a, hsucc, hexec⟩
  obtain ⟨hV, hd⟩ := hdeed w a r w' h hsucc hexec
  refine ⟨hV, h.onward hF (.of_tame hexec he) ?_⟩
  rw [exec_deeds hexec, h.deeds, hd]
  rfl

/-- A mark that is a deed. -/
theorem Returns.mark {m : Mark} {d : Deed} (hF : S.Lasting F)
    (hd : deedOf (.handler n) (.marked (.handler n) m) = some d) :
    (watch S).Returns (Stands n F ds) (Py.sync (.mark m)) fun _ => Stands n F (ds ++ [d]) := by
  refine Arena.Returns.lift (fun _ => Stands.stable hF) ?_
  refine (Triple.deed (e := .sync (.mark m)) (V := fun _ => True) hF rfl (fun _ => trivial)
    ?_).mono fun _ _ h => h.2
  exact fun _ _ _ _ _ _ _ => ⟨trivial, hd⟩

/-- A post that succeeds. -/
theorem Returns.post {room : RoomId} {body : Str} {reply : Option EventId} (hF : S.Lasting F) :
    (watch S).Returns (Stands n F ds) (postMessage room body reply) fun _ =>
      Stands n F (ds ++ [.posted room body]) := by
  have hsend : (watch S).Triple (Stands n F ds)
      (Coro.perform (Eff.await (.roomSend room body (reply.filter (· ≠ []))))) fun r w =>
        (∃ e : EventId, r = .ok e) ∧ Stands n F (ds ++ [.posted room body]) w := by
    refine Triple.deed hF rfl (fun _ => trivial) fun w a r w' h hsucc hexec => ?_
    rcases r with x | e
    · -- a post fails by an answer of its own only, as the handler is not cancelled
      obtain ⟨⟨r', w''⟩, hquiet, heq⟩ := Option.map_eq_some_iff.mp hexec
      cases heq
      rcases execAwait_eq hquiet with ⟨hmem, -⟩ | ⟨-, hop⟩
      · exact (h.uncancelled hmem).elim
      · cases a with
        | raised x => exact (hsucc x rfl).elim
        | _ => cases hop
    · exact ⟨⟨e, rfl⟩, by simp [obsOf, deedOf]⟩
  -- Landing in the task leaves the post as it is.
  have hnetwork := Triple.network (b := False) hF (fun _ => hF) <|
    hsend.mono fun r w h => by
      obtain ⟨⟨e, rfl⟩, h⟩ := h
      exact h
  refine hnetwork.mono fun r w h => ?_
  cases r with
  | ok e => exact ⟨e, rfl, h⟩
  | error x => exact h.1.1.elim

/-! ## The store -/

/-- Reading the clock returns and leaves the handler standing. -/
theorem Returns.now (hF : S.Lasting F) :
    (watch S).Returns (Stands n F ds) Store.now fun _ => Stands n F ds :=
  Triple.sync_bind hF rfl fun _ => Returns.done hF

/-- A statement that violates no constraint, and the commit. -/
theorem Returns.write {s : Stmt} {f : s.Ret → Py Unit} (hF : S.Lasting F)
    (hs : s.writesKeys = false)
    (hsound : ∀ w, Stands n F ds w → ∃ v db, s.exec w.db = .ok (v, db))
    (hf : ∀ v, f v = Py.commit) :
    (watch S).Returns (Stands n F ds) (Py.execute s >>= f) fun _ => Stands n F ds :=
  (Returns.execute hF hs hsound).bindE fun v => by
    rw [hf v]
    exact Returns.commit hF

/-- The insertion of an alias succeeds if its thread root has a session: the foreign key is met. -/
theorem Tables.registerAlias_ok {db : Tables} {e root : EventId}
    (h : db.sessions.hasKey root = true) : ∃ db', db.registerAlias e root = .ok db' := by
  rw [Tables.registerAlias]
  simp only [h, if_true]
  split
  · exact ⟨_, rfl⟩
  · split <;> exact ⟨_, rfl⟩

/-- An alias can be registered as long as its session is there. -/
theorem Returns.registerAlias {e root : EventId} (hF : S.Lasting F)
    (hroot : ∀ w, Stands n F ds w → w.db.sessions.hasKey root = true) :
    (watch S).Returns (Stands n F ds) (Store.registerAlias e root) fun _ => Stands n F ds := by
  rw [Store.registerAlias]
  split
  · exact Returns.done hF
  · refine Returns.write hF rfl (fun w h => ?_) fun _ => rfl
    obtain ⟨db, hdb⟩ := Tables.registerAlias_ok (e := e) (hroot w h)
    exact ⟨(), db, by rw [Stmt.exec, hdb]; rfl⟩

/-- `touch_session` returns and leaves the handler standing. -/
theorem Returns.touchSession {root : EventId} (hF : S.Lasting F) :
    (watch S).Returns (Stands n F ds) (Store.touchSession root) fun _ => Stands n F ds :=
  (Returns.now hF).bindE fun _ => Returns.write hF rfl (fun _ _ => ⟨_, _, rfl⟩) fun _ => rfl

/-- The insertion of a row returns and leaves the handler standing. -/
theorem Returns.insertPendingApproval {a : ApprovalId} {root : EventId} {session : SessionId}
    {room : RoomId} {tool : Str} (hF : S.Lasting F) :
    (watch S).Returns (Stands n F ds) (Store.insertPendingApproval a root session room tool)
      fun _ => Stands n F ds :=
  (Returns.now hF).bindE fun _ => Returns.write hF rfl (fun _ _ => ⟨_, _, rfl⟩) fun _ => rfl

/-! ## The registry -/

/-- An operation of the registry, whether it succeeds or not. -/
theorem Triple.registry {e : AwaitEff} (hF : S.Lasting F) (he : (Eff.await e).quiet = true) :
    (watch S).Triple (Stands n F ds) (Py.network e).run fun r w =>
      (∀ x, r = .error x → x.isException = true) ∧ Stands n F ds w := by
  have heffect : (watch S).Triple (Stands n F ds) (Coro.perform (Eff.await e)) fun r w =>
      (∀ x, r = .error x → x.isException = true) ∧ Stands n F ds w := by
    refine Triple.quiet hF he ?_
    rintro w a r w' h - hexec x rfl
    exact isException_of_exec hexec h.uncancelled
  have hnetwork := Triple.network (b := True) hF (fun _ => hF) (heffect.mono fun r w h => by
    cases r with
    | ok v => exact h.2
    | error x => exact ⟨⟨trivial, h.1 x rfl⟩, h.2⟩)
  refine hnetwork.mono fun r w h => ?_
  cases r with
  | ok v => exact ⟨nofun, h⟩
  | error x => exact ⟨fun y hy => by cases hy; exact h.1.2, h.2⟩

/-- `try: p except Exception: handler`. -/
theorem Returns.tryExcept {W α : Type} {N : Arena Eff Eff.Ret W} {p : Py α}
    {handler : Exn → Py α} {P M : W → Prop} {Q : α → W → Prop} (hQ : ∀ a, N.Stable (Q a))
    (hp : N.Triple P p.run fun r w =>
      match r with
      | .ok a => Q a w
      | .error x => x.isException = true ∧ M w)
    (hhandler : ∀ x, N.Returns M (handler x) Q) :
    N.Returns P (Py.tryExcept p handler) Q := by
  have hcaught : ∀ x : Exn, N.Returns (fun w => x.isException = true ∧ M w)
      (if x.isException then handler x else throw x) Q := fun x =>
    Arena.Triple.of_fact fun hx => by
      rw [if_pos hx]
      exact hhandler x
  refine Arena.Returns.tryCatch hQ (hp.mono fun res w h => ?_) hcaught
  cases res with
  | ok a => exact h
  | error x => exact h

/-- Calls of the registry never raise. -/
theorem Returns.failOpen {e : AwaitEff} {default : e.Val} (hF : S.Lasting F)
    (he : (Eff.await e).quiet = true) :
    (watch S).Returns (Stands n F ds) (Registry.failOpen default (Py.network e))
      fun _ => Stands n F ds := by
  refine Triple.sync_bind hF rfl fun enabled => ?_
  split
  · refine Returns.tryExcept (fun _ => Stands.stable hF) ?_ fun _ => Returns.done hF
    refine (Triple.registry hF he).mono fun r w h => ?_
    cases r with
    | ok v => exact h.2
    | error x => exact ⟨h.1 x rfl, h.2⟩
  · exact Returns.done hF

/-- `register_session` returns, whatever the registry answers. -/
theorem Returns.registerSession {session : SessionId} {agent : AgentName} {room : RoomId}
    {dir url : Str} (hF : S.Lasting F) :
    (watch S).Returns (Stands n F ds) (registerSession session agent room dir url)
      fun _ => Stands n F ds := by
  refine Triple.sync_bind hF rfl fun enabled => ?_
  split
  · exact Returns.failOpen hF rfl
  · exact Returns.done hF

/-- `_record_pending_if_gated` is called, and does not raise. -/
theorem Returns.recordPendingIfGated {agent : AgentName} {room : RoomId} {session : SessionId}
    {root : EventId} {start : Time} (hF : S.Lasting F) :
    (watch S).Returns (Stands n F ds) (recordPendingIfGated agent room session root start)
      fun _ => Stands n F (ds ++ [.checked room session root]) := by
  refine (Returns.mark (d := .checked room session root) hF (by simp [deedOf])).bindE fun _ => ?_
  refine Triple.sync_bind hF rfl fun enabled => ?_
  split
  · refine (Returns.failOpen (e := .fetchPending agent start) hF rfl).bindE fun found => ?_
    split
    · exact Returns.done hF
    · refine (Returns.insertPendingApproval hF).bindE fun _ => ?_
      exact Returns.failOpen hF rfl
  · exact Returns.done hF

/-! ## The room lock -/

/-- The lock is taken, however long others hold it. -/
theorem Returns.acquireRoomLock {room : RoomId} (hF : S.Lasting F) :
    (watch S).Returns (Stands n F ds) (acquireRoomLock room) fun _ => Stands n F ds := by
  refine Triple.sync_bind hF rfl fun got => ?_
  split
  · exact Returns.done hF
  · refine Returns.await hF rfl fun w a x w' h hx => ?_
    obtain ⟨⟨r', w''⟩, hquiet, heq⟩ := Option.map_eq_some_iff.mp h
    cases heq
    -- waiting for a lock ends with an exception only if the task is cancelled
    rcases execAwait_eq hquiet with ⟨-, heq, -⟩ | ⟨-, hop⟩
    · cases heq
      cases hx
    · rw [execOperation] at hop
      split at hop <;> cases hop

/-- A body that runs under the room lock. What it has done is known from how it ends. -/
theorem Triple.withRoomLock {α : Type} {room : RoomId} {body : Py α} (hF : S.Lasting F)
    {F' : Except Exn α → List Deed → World → Prop} (hF' : ∀ res tail, S.Lasting (F' res tail))
    (hbody : (watch S).Triple (Stands n F ds) body.run fun res w =>
      ∃ tail, Stands n (F' res tail) (ds ++ tail) w) :
    (watch S).Triple (Stands n F ds) (withRoomLock room body).run fun res w =>
      ∃ tail, Stands n (F' res tail) (ds ++ tail) w := by
  have hstable : ∀ res, (watch S).Stable fun w =>
      ∃ tail, Stands n (F' res tail) (ds ++ tail) w := fun res =>
    Arena.Stable.exists fun tail => Stands.stable (hF' res tail)
  refine (Returns.acquireRoomLock hF).bindE fun _ => Arena.Triple.finallyDo hstable hbody ?_
  refine fun res => Arena.Triple.of_exists fun tail => ?_
  refine (Triple.quiet (V := fun _ => True) (hF' res tail) rfl
    fun _ _ _ _ _ _ _ => trivial).mono ?_
  exact fun _ w h => ⟨tail, h.2⟩

/-! ## Children -/

/-- Handler `n` has started child `pid` for the turn. -/
def Started (n : Nat) (turn : Turn) (argv : List Str) (pid : Pid) (w : World) : Prop :=
  ∃ child, w.procs[pid]? = some child ∧ child.starter = .handler n ∧ child.turn = turn ∧
    child.argv = argv

/-- A child that was started lasts. -/
theorem Started.lasting {turn : Turn} {argv : List Str} {pid : Pid} :
    S.Lasting (Started n turn argv pid) := by
  rintro w w' hon ⟨child, hchild, hstarter, rfl, rfl⟩
  obtain ⟨child', hchild', hstarter', hturn, hargv⟩ := hon.lasts.procs pid child hchild
  exact ⟨child', hchild', hstarter'.trans hstarter, hturn, hargv⟩

/-- Child `pid` has exited with that code and those outputs. -/
def Exited (pid : Pid) (rc : Int) (out err : Str) (w : World) : Prop :=
  w.exitOf pid = some (rc, out, err)

/-- A child that has exited stays so. -/
theorem Exited.lasting {pid : Pid} {rc : Int} {out err : Str} :
    S.Lasting (Exited pid rc out err) :=
  fun _ _ hon h => hon.lasts.exits pid _ h

/-- Child `pid` has exited with those outputs. -/
def Printed (pid : Pid) (outputs : Str × Str) (w : World) : Prop :=
  ∃ rc, Exited pid rc outputs.1 outputs.2 w

/-- What a child has printed lasts. -/
theorem Printed.lasting {pid : Pid} {outputs : Str × Str} : S.Lasting (Printed pid outputs) :=
  fun _ _ hon ⟨rc, h⟩ => ⟨rc, Exited.lasting hon h⟩

/-- What `_run_claude` returns for a child with that code and those outputs. -/
def runResult (rc : Int) (out err : Str) : Int × Str := (rc, if rc = 0 then out else err.take 500)

/-- `_run_claude` has run the turn to its end. -/
def Completed (n : Nat) (turn : Turn) (argv : List Str) (result : Int × Str) (w : World) : Prop :=
  ∃ pid out err, Started n turn argv pid w ∧ Exited pid result.1 out err w ∧
    result = runResult result.1 out err

/-- A turn that was completed stays so. -/
theorem Completed.lasting {turn : Turn} {argv : List Str} {result : Int × Str} :
    S.Lasting (Completed n turn argv result) :=
  fun _ _ hon ⟨pid, out, err, hstarted, hexited, heq⟩ =>
    ⟨pid, out, err, Started.lasting hon hstarted, Exited.lasting hon hexited, heq⟩

/-- `asyncio.create_subprocess_exec`. -/
theorem Triple.launch {argv : List Str} {dir : Str} {agent : AgentName} {turn : Turn}
    (hF : S.Lasting F) :
    (watch S).Triple (Stands n F ds) (Py.network (.exec argv dir agent turn)).run fun r w =>
      match r with
      | .ok pid => Stands n (fun w => F w ∧ Started n turn argv pid w) ds w
      | .error x => (¬ S.calm ∧ x.isException = true) ∧ Stands n F ds w := by
  -- From the answer it is known whether the child was started.
  have hlearn : (watch S).Triple (Stands n F ds)
      (Coro.perform (Eff.await (.exec argv dir agent turn))) fun r => Stands n (fun w => F w ∧
        match r with
        | .ok pid => Started n turn argv pid w
        | .error x => ¬ S.calm ∧ x.isException = true) ds := by
    refine Triple.learn hF ?_ rfl fun w a r w' h hsucc hexec => ?_
    · rintro (x | pid)
      · exact fun _ _ _ h => h
      · exact Started.lasting
    obtain ⟨⟨r', w''⟩, hquiet, heq⟩ := Option.map_eq_some_iff.mp hexec
    cases heq
    rcases execAwait_eq hquiet with ⟨hmem, -⟩ | ⟨-, hop⟩
    · exact (h.uncancelled hmem).elim
    rw [execOperation.eq_def] at hop
    dsimp only at hop
    split at hop
    · cases hop
      exact ⟨⟨.handler n, turn, argv, dir, agent, .alive⟩, List.getElem?_concat_length,
        rfl, rfl, rfl⟩
    · obtain ⟨-, x, rfl, hx⟩ := failure_eq hop
      exact ⟨fun hcalm => hsucc hcalm x (raised_of_failure hop), hx⟩
  have hnetwork := Triple.network (b := ¬ S.calm) hF
    (fun pid => hF.and (@Started.lasting n S turn argv pid)) <| hlearn.mono fun r w h => by
      cases r with
      | ok pid => exact h
      | error x => exact ⟨h.facts.2, h.opened, h.uncancelled, h.deeds, h.facts.1⟩
  refine hnetwork.mono fun r w h => ?_
  cases r with
  | ok pid => exact h
  | error x => exact h

/-- `proc.communicate()` with its handler for a timeout. -/
theorem Triple.communicateOrKill {pid : Pid} {timeout : Nat} (hF : S.Lasting F) :
    (watch S).Triple (Stands n F ds) (communicateOrKill pid timeout).run fun r w =>
      match r with
      | .ok outputs => Stands n (fun w => F w ∧ Printed pid outputs w) ds w
      | .error x => (¬ S.calm ∧ x.isException = true) ∧ Stands n F ds w := by
  -- From the answer the output of the child is known.
  have hcommunicate : (watch S).Triple (Stands n F ds)
      (Coro.perform (Eff.await (.communicate pid timeout))) fun r => Stands n (fun w => F w ∧
        match r with
        | .ok outputs => Printed pid outputs w
        | .error x => ¬ S.calm ∧ x.isException = true) ds := by
    refine Triple.learn hF ?_ rfl fun w a r w' h hsucc hexec => ?_
    · rintro (x | outputs)
      · exact fun _ _ _ h => h
      · exact Printed.lasting
    obtain ⟨⟨r', w''⟩, hquiet, heq⟩ := Option.map_eq_some_iff.mp hexec
    cases heq
    rcases execAwait_eq hquiet with ⟨hmem, -⟩ | ⟨-, hop⟩
    · exact (h.uncancelled hmem).elim
    rw [execOperation.eq_def] at hop
    dsimp only at hop
    split at hop
    · obtain ⟨⟨rc, out, err⟩, hexit, heq⟩ := Option.map_eq_some_iff.mp hop
      cases heq
      exact ⟨rc, hexit⟩
    · cases hop
      exact ⟨fun hcalm => hsucc hcalm _ rfl, rfl⟩
    · cases hop
  refine Arena.Triple.bind (p := (Py.await (.communicate pid timeout)).run) hcommunicate fun r => ?_
  cases r with
  | ok outputs =>
    exact fun w h w' hrely => Stands.stable (hF.and Printed.lasting) h hrely
  | error x =>
    refine (?_ : (watch S).Triple (fun w => (¬ S.calm ∧ x.isException = true) ∧ Stands n F ds w)
      _ _).pre fun w h => ⟨h.facts.2, h.opened, h.uncancelled, h.deeds, h.facts.1⟩
    refine Arena.Triple.of_fact fun hx => ?_
    -- An exception is passed on with what was known.
    have hraise : ∀ y : Exn, y.isException = true → ∀ w, Stands n F ds w →
        ∀ w', (watch S).rely w w' → (¬ S.calm ∧ y.isException = true) ∧ Stands n F ds w' :=
      fun y hy w h w' hrely => ⟨⟨hx.1, hy⟩, Stands.stable hF h hrely⟩
    dsimp only
    split
    · -- the child is killed, and waited for
      refine Arena.Triple.bindE (Q := fun _ => Stands n F ds) ?_ fun _ => ?_
      · refine (Triple.quiet (V := fun r : Except Exn Unit => ∀ y, r = .error y →
          y.isException = true) hF rfl ?_).mono fun r w h => ?_
        · rintro w a r w' - - hexec y rfl
          obtain ⟨⟨r', w''⟩, hquiet, heq⟩ := Option.map_eq_some_iff.mp hexec
          cases heq
          obtain ⟨r', hsignal, heq⟩ := Option.map_eq_some_iff.mp hquiet
          cases heq
          rw [World.signal.eq_def] at hsignal
          split at hsignal
          · cases hsignal
          · split at hsignal <;> cases hsignal
            rfl
          · cases hsignal
        · cases r with
          | ok _ => exact h.2
          | error y => exact hraise y (h.1 y rfl) w h.2
      refine (Returns.await hF rfl fun w a x w' h hx => ?_).bindE fun _ => ?_
      · obtain ⟨⟨r', w''⟩, hquiet, heq⟩ := Option.map_eq_some_iff.mp h
        cases heq
        rcases execAwait_eq hquiet with ⟨-, heq, -⟩ | ⟨-, hop⟩
        · cases heq
          cases hx
        · rw [execOperation.eq_def] at hop
          dsimp only at hop
          split at hop
          · split at hop <;> cases hop
          · cases hop
      refine (Returns.tryExcept (fun _ => Stands.stable hF) ?_ fun _ => Returns.done hF).bindE
        fun _ => fun w h => hraise _ rfl w h
      refine (Triple.quiet (V := fun r : Except Exn Unit => ∀ y, r = .error y →
        y.isException = true) hF rfl ?_).mono fun r w h => ?_
      · rintro w a r w' h - hexec y rfl
        exact isException_of_exec hexec h.uncancelled
      · cases r with
        | ok _ => exact h.2
        | error y => exact ⟨h.1 y rfl, h.2⟩
    · exact fun w h => hraise x hx.2 w h

/-- `proc.returncode` of a child that is known to have exited. -/
theorem Returns.returncode {pid : Pid} {outputs : Str × Str} (hF : S.Lasting F) :
    (watch S).Returns (Stands n (fun w => F w ∧ Printed pid outputs w) ds)
      (Py.sync (.returncode pid)) fun r =>
        Stands n (fun w => F w ∧ Exited pid (r.getD (-1)) outputs.1 outputs.2 w) ds := by
  have hprinted := hF.and (@Printed.lasting n S pid outputs)
  have hlasting : ∀ r : Option Int,
      S.Lasting fun w => F w ∧ Exited pid (r.getD (-1)) outputs.1 outputs.2 w :=
    fun r => hF.and Exited.lasting
  refine Arena.Returns.lift (fun r => Stands.stable (hlasting r)) ?_
  refine .perform (Stands.stable hprinted) (fun r => Stands.stable (hlasting r))
    (fun w _ => watch_safe trivial) fun w r w' h ⟨a, _, hexec⟩ => ?_
  have hstands := h.quiet hprinted hexec rfl rfl
  obtain ⟨rc, hexited⟩ := h.facts.2
  -- The child has exited, so it has a code.
  obtain rfl : r = some rc := by
    obtain ⟨⟨r', w''⟩, hquiet, heq⟩ := Option.map_eq_some_iff.mp hexec
    cases heq
    cases hquiet
    rw [hexited]
    rfl
  have hon : Onward S w w' := .of_tame hexec rfl
  exact ⟨hstands.opened, hstands.uncancelled, hstands.deeds, hstands.facts.1,
    Exited.lasting hon hexited⟩

/-- `_run_claude`. -/
theorem Triple.runClaude {argv : List Str} {dir : Str} {agent : AgentName} {room : RoomId}
    {timeout : Nat} {turn : Turn} (hF : S.Lasting F) :
    (watch S).Triple (Stands n F ds) (runClaude argv dir agent room timeout turn).run fun r w =>
      match r with
      | .ok result => Stands n (fun w => F w ∧ Completed n turn argv result w) ds w
      | .error x => (¬ S.calm ∧ x.isException = true) ∧ Stands n F ds w := by
  refine Arena.Triple.bindE (Q := fun pid => Stands n (fun w => F w ∧ Started n turn argv pid w) ds)
    ((Triple.launch hF).mono fun r w h => ?_) fun pid => ?_
  · cases r with
    | ok pid => exact h
    | error x => exact fun w' hrely => ⟨h.1, Stands.stable hF h.2 hrely⟩
  have hstarted := hF.and (@Started.lasting n S turn argv pid)
  refine Triple.sync_bind hstarted rfl fun _ => ?_
  have hprinted : ∀ outputs, S.Lasting fun w =>
      (F w ∧ Started n turn argv pid w) ∧ Printed pid outputs w :=
    fun outputs => hstarted.and Printed.lasting
  -- the child is waited for, and its registration taken back
  have hwait : (watch S).Returns (Stands n (fun w => F w ∧ Started n turn argv pid w) ds)
      (Coro.attempt (Coro.finallyDo (MatrixDispatcher.communicateOrKill pid timeout)
        (Coro.perform (Eff.sync (.activePop room))))) fun r w =>
      match r with
      | .ok outputs =>
        Stands n (fun w => (F w ∧ Started n turn argv pid w) ∧ Printed pid outputs w) ds w
      | .error x => (¬ S.calm ∧ x.isException = true) ∧
          Stands n (fun w => F w ∧ Started n turn argv pid w) ds w := by
    have hstable : ∀ r : Except Exn (Str × Str), (watch S).Stable fun w =>
        match r with
        | .ok outputs =>
          Stands n (fun w => (F w ∧ Started n turn argv pid w) ∧ Printed pid outputs w) ds w
        | .error x => (¬ S.calm ∧ x.isException = true) ∧
            Stands n (fun w => F w ∧ Started n turn argv pid w) ds w := by
      rintro (x | outputs)
      · exact (Arena.stable_const _).and (Stands.stable hstarted)
      · exact Stands.stable (hprinted outputs)
    refine Arena.Returns.attempt hstable ?_
    refine Arena.Triple.finallyDo hstable (Triple.communicateOrKill hstarted) fun r => ?_
    cases r with
    | ok outputs =>
      refine (Triple.quiet (V := fun _ => True) (hprinted outputs) rfl
        fun _ _ _ _ _ _ _ => trivial).mono fun _ _ h => h.2
    | error x =>
      refine Arena.Triple.of_fact fun hx => ?_
      refine (Triple.quiet (V := fun _ => True) hstarted rfl
        fun _ _ _ _ _ _ _ => trivial).mono fun _ _ h => ⟨hx, h.2⟩
  refine hwait.bindE fun r => ?_
  cases r with
  | error x =>
    refine Arena.Triple.of_fact fun hx => Triple.sync_bind hstarted rfl fun _ => ?_
    intro w h w' hrely
    have hstands := Stands.stable hstarted h hrely
    exact ⟨hx, hstands.opened, hstands.uncancelled, hstands.deeds, hstands.facts.1⟩
  | ok outputs =>
    refine Triple.sync_bind (hprinted outputs) rfl fun _ => ?_
    refine (Returns.returncode hstarted).bindE fun r => ?_
    intro w h w' hrely
    have hstands := Stands.stable (hstarted.and Exited.lasting) h hrely
    obtain ⟨⟨hfacts, hstart⟩, hexited⟩ := hstands.facts
    exact ⟨hstands.opened, hstands.uncancelled, hstands.deeds, hfacts,
      pid, outputs.1, outputs.2, hstart, hexited, rfl⟩

/-- The deed of a call of the runner, and what is known when it returns. -/
theorem Triple.callRunner {turn : Turn} {dir : Str} {timeout : Nat} (hF : S.Lasting F) :
    (watch S).Triple (Stands n F ds) (callRunner turn dir timeout).run fun r w =>
      match r with
      | .ok result => Stands n (fun w => F w ∧ Completed n turn turn.argv result w)
          (ds ++ [.called turn]) w
      | .error x => (¬ S.calm ∧ x.isException = true) ∧ Stands n F (ds ++ [.called turn]) w :=
  (Returns.mark (d := .called turn) hF (by simp [deedOf])).bindE fun _ => Triple.runClaude hF

/-! ## Responses -/

/-- Since the deeds `b`, the handler has not called `_record_pending_if_gated`. -/
def Unchecked (b ds : List Deed) : Prop :=
  ∃ tail, ds = b ++ tail ∧ ∀ room session root, Deed.checked room session root ∉ tail

/-- At first nothing has been checked. -/
theorem Unchecked.refl (b : List Deed) : Unchecked b b :=
  ⟨[], (List.append_nil b).symm, fun _ _ _ => List.not_mem_nil⟩

/-- Deeds that are no checks leave it so. -/
theorem Unchecked.append {b ds ds' : List Deed} (h : Unchecked b ds)
    (h' : ∀ room session root, Deed.checked room session root ∉ ds') : Unchecked b (ds ++ ds') := by
  obtain ⟨tail, rfl, htail⟩ := h
  refine ⟨tail ++ ds', List.append_assoc .., fun room session root hmem => ?_⟩
  exact (List.mem_append.mp hmem).elim (htail room session root) (h' room session root)

/-- A post is no check. -/
theorem Unchecked.post {b : List Deed} (h : Unchecked b ds) (room : RoomId) (body : Str) :
    Unchecked b (ds ++ [.posted room body]) :=
  h.append fun _ _ _ hmem => by cases List.mem_singleton.mp hmem

/-- A call of the runner is no check. -/
theorem Unchecked.call {b : List Deed} (h : Unchecked b ds) (turn : Turn) :
    Unchecked b (ds ++ [.called turn]) :=
  h.append fun _ _ _ hmem => by cases List.mem_singleton.mp hmem

/-- The session of the thread root is there until `_record_pending_if_gated` is called. -/
def Keeps (n : Nat) (F : World → Prop) (b : List Deed) (root : EventId) : Prop :=
  ∀ ds w, Unchecked b ds → Stands n F ds w → w.db.sessions.hasKey root = true

variable {b : List Deed}

/-- A post whose event id becomes an alias of the thread root. -/
theorem Returns.postAlias {room : RoomId} {body : Str} {reply : Option EventId} {root : EventId}
    (hF : S.Lasting F) (hroot : Keeps n F b root) (hds : Unchecked b ds) :
    (watch S).Returns (Stands n F ds)
      (do let e ← postMessage room body reply; Store.registerAlias e root) fun _ =>
        Stands n F (ds ++ [.posted room body]) :=
  (Returns.post hF).bindE fun _ => Returns.registerAlias hF (hroot _ · (hds.post _ _))

/-- The texts that `_post_response` posts for the chunks from the `i`-th on. -/
def chunkTexts (mentionUser : UserId) : Nat → List Str → List Str
  | _, [] => []
  | i, chunk :: chunks =>
    (if i = 0 then mentionUser ++ lit " " ++ chunk else chunk) ::
      chunkTexts mentionUser (i + 1) chunks

/-- The chunks are posted one after the other, each with its alias; the induction is on those that
are left. -/
theorem Returns.postChunks {room : RoomId} {mention : UserId} {target root : EventId} {i : Nat}
    {chunks : List Str} (hF : S.Lasting F) (hroot : Keeps n F b root) (hds : Unchecked b ds) :
    (watch S).Returns (Stands n F ds) (postChunks room mention target root i chunks) fun _ =>
      Stands n F (ds ++ (chunkTexts mention i chunks).map (.posted room)) := by
  induction chunks generalizing i ds with
  | nil =>
    rw [chunkTexts, List.map_nil, List.append_nil]
    exact Returns.done hF
  | cons chunk chunks ih =>
    refine (Returns.post hF).bindE fun e => ?_
    have hposted := hds.post room (if i = 0 then mention ++ lit " " ++ chunk else chunk)
    refine (Returns.registerAlias hF (hroot _ · hposted)).bindE fun _ => ?_
    refine (ih hposted).mono fun _ w h => ?_
    rwa [List.append_assoc] at h

/-- The texts that `_post_response` posts. -/
def responseTexts (mentionUser : UserId) (maxMessageLength : Nat) (session : SessionId)
    (action : Str) (exitCode : Int) (output : Str) : Except Exn (List Str) :=
  if exitCode ≠ 0 then
    .ok [mentionUser ++ lit " Session " ++ session.short ++ lit " " ++ action ++
      lit " error:\n\n" ++ output]
  else (splitOnParagraphs (output.orElse (lit "(no output)")) maxMessageLength).map
    (chunkTexts mentionUser 0)

/-- A positive length makes chunks of any text. -/
theorem splitOnParagraphs_ok {text : Str} {maxLen : Nat} (h : 0 < maxLen) :
    ∃ chunks, splitOnParagraphs text maxLen = .ok chunks := by
  rw [splitOnParagraphs]
  split
  · exact ⟨_, rfl⟩
  · rw [if_neg fun hzero => h.ne' hzero.1]
    exact ⟨_, rfl⟩

/-- A response posts the texts that `responseTexts` says, unless the length of messages is zero. -/
theorem Triple.postResponse {room : RoomId} {output : Str} {rc : Int} {session : SessionId}
    {mention : UserId} {maxLen : Nat} {target root : EventId} {action : Str} (hF : S.Lasting F)
    (hroot : Keeps n F b root) (hds : Unchecked b ds) :
    (watch S).Triple (Stands n F ds)
      (postResponse room output rc session mention maxLen target action root).run fun r w =>
      match r with
      | .ok _ => ∃ texts, responseTexts mention maxLen session action rc output = .ok texts ∧
          Stands n F (ds ++ texts.map (.posted room)) w
      | .error _ => ¬ 0 < maxLen ∧ Stands n F ds w := by
  rw [MatrixDispatcher.postResponse]
  split
  · next hrc =>
    refine Arena.Triple.mono ?_ (Returns.postAlias hF hroot hds)
    rintro r w ⟨_, rfl, h⟩
    exact ⟨_, if_pos hrc, h⟩
  · next hrc =>
    rcases hsplit : splitOnParagraphs (output.orElse (lit "(no output)")) maxLen with x | chunks
    -- The output cannot be cut, which happens only if the length of messages is zero.
    · have hmax : ¬ 0 < maxLen := fun hpos => by
        obtain ⟨chunks, hok⟩ := splitOnParagraphs_ok hpos
        rw [hok] at hsplit
        cases hsplit
      exact fun w h w' hrely => ⟨hmax, Stands.stable hF h hrely⟩
    · refine Arena.Triple.mono ?_ (Returns.postChunks hF hroot hds)
      rintro r w ⟨_, rfl, h⟩
      refine ⟨_, ?_, h⟩
      rw [responseTexts, if_neg hrc, hsplit]
      rfl

/-! ## Turns -/

/-- What a handler does from the call of the runner on, and how it ends. If it is calm, it
answers, unless the length of messages is zero. -/
inductive Aftermath (S : Surroundings n) (args : HandlerArgs) (turn : Turn) (action : Str)
    (w : World) : Except Exn Unit → List Deed → Prop
  | answered (result : Int × Str) (texts : List Str)
    (hcompleted : Completed n turn turn.argv result w)
    (htexts : responseTexts args.mentionUser args.maxMessageLength turn.sessionId action
      result.1 result.2 = .ok texts) :
    Aftermath S args turn action w (.ok ()) (.called turn :: texts.map (.posted args.roomId) ++
      [.checked args.roomId turn.sessionId turn.threadRootId])
  | timedOut (hcalm : ¬ S.calm) :
    Aftermath S args turn action w (.ok ())
      [.called turn, .posted args.roomId (timedOutText args turn.sessionId)]
  | raised (x : Exn) (hcalm : S.calm → ¬ 0 < args.maxMessageLength) :
    Aftermath S args turn action w (.error x) [.called turn]

/-- What came after the call of the runner lasts. -/
theorem Aftermath.lasting {args : HandlerArgs} {turn : Turn} {action : Str}
    {res : Except Exn Unit} {tail : List Deed} :
    S.Lasting fun w => Aftermath S args turn action w res tail := by
  intro w w' hon h
  cases h with
  | answered result texts hcompleted htexts =>
    exact .answered result texts (Completed.lasting hon hcompleted) htexts
  | timedOut hcalm => exact .timedOut hcalm
  | raised x hcalm => exact .raised x hcalm

section

variable {args : HandlerArgs} (turn : Turn) {action : Str} {target : EventId}

/-- The answer to a turn that has run to its end. -/
theorem Triple.answer {result : Int × Str} {start : Time} (hF : S.Lasting F)
    (hroot : Keeps n F b turn.threadRootId) (hds : Unchecked b ds) :
    (watch S).Triple
      (Stands n (fun w => F w ∧ Completed n turn turn.argv result w) (ds ++ [.called turn]))
      (do
        MatrixDispatcher.postResponse args.roomId result.2 result.1 turn.sessionId
          args.mentionUser args.maxMessageLength target action turn.threadRootId
        recordPendingIfGated args.agentName args.roomId turn.sessionId turn.threadRootId start :
        Py Unit).run fun res w =>
      ∃ tail, Stands n (fun w => F w ∧ Aftermath S args turn action w res tail) (ds ++ tail) w := by
  have hcompleted := hF.and (@Completed.lasting n S turn turn.argv result)
  -- The session is still there, since nothing was checked so far.
  have hkeeps : Keeps n (fun w => F w ∧ Completed n turn turn.argv result w) b
      turn.threadRootId :=
    fun ds w hds h => hroot ds w hds ⟨h.opened, h.uncancelled, h.deeds, h.facts.1⟩
  refine Arena.Triple.bindE (Q := fun _ w => ∃ texts,
    responseTexts args.mentionUser args.maxMessageLength turn.sessionId action result.1 result.2 =
      .ok texts ∧ Stands n (fun w => F w ∧ Completed n turn turn.argv result w)
        (ds ++ [.called turn] ++ texts.map (.posted args.roomId)) w)
    ((Triple.postResponse hcompleted hkeeps (hds.call turn)).mono fun res w h => ?_)
    fun _ => ?_
  · cases res with
    | ok _ => exact h
    | error x =>
      intro w' hrely
      have hstands := Stands.stable hcompleted h.2 hrely
      exact ⟨_, hstands.opened, hstands.uncancelled, hstands.deeds, hstands.facts.1,
        .raised x fun _ => h.1⟩
  · refine Arena.Triple.of_exists fun texts => Arena.Triple.of_fact fun htexts => ?_
    refine Arena.Triple.mono ?_ (Returns.recordPendingIfGated hcompleted)
    rintro _ w ⟨_, rfl, h⟩
    refine ⟨_, h.opened, h.uncancelled, ?_, h.facts.1, .answered result texts h.facts.2 htexts⟩
    rw [h.deeds, List.append_assoc, List.append_assoc]
    rfl

/-- The notice of a timeout. -/
theorem Triple.timedOut {reply : Option EventId} (hcalm : ¬ S.calm) (hF : S.Lasting F)
    (hroot : Keeps n F b turn.threadRootId) (hds : Unchecked b ds) :
    (watch S).Triple (Stands n F (ds ++ [.called turn]))
      (do
        let notice ← postMessage args.roomId (timedOutText args turn.sessionId) reply
        Store.registerAlias notice turn.threadRootId : Py Unit).run fun res w =>
      ∃ tail, Stands n (fun w => F w ∧ Aftermath S args turn action w res tail) (ds ++ tail) w := by
  refine Arena.Triple.mono ?_ (Returns.postAlias hF hroot (hds.call turn))
  rintro _ w ⟨_, rfl, h⟩
  refine ⟨_, h.opened, h.uncancelled, ?_, h.facts, .timedOut hcalm⟩
  rw [h.deeds, List.append_assoc]
  rfl

/-- The exception of a turn that has failed. -/
theorem Triple.raised {x : Exn} (hcalm : ¬ S.calm) (hF : S.Lasting F) :
    (watch S).Triple (Stands n F (ds ++ [.called turn])) (throw x : Py Unit).run fun res w =>
      ∃ tail, Stands n (fun w => F w ∧ Aftermath S args turn action w res tail) (ds ++ tail) w := by
  intro w h w' hrely
  have hstands := Stands.stable hF h hrely
  exact ⟨_, hstands.opened, hstands.uncancelled, hstands.deeds, hstands.facts,
    .raised x fun hcalm' => (hcalm hcalm').elim⟩

/-- The call of the runner is attempted; what comes after it is known for each way it ends. -/
theorem Triple.attempted {call : Py (Int × Str)} {f : Except Exn (Int × Str) → Py Unit}
    {Q : Except Exn Unit → World → Prop} (hF : S.Lasting F)
    (hcall : (watch S).Triple (Stands n F ds) call.run fun r w =>
      match r with
      | .ok result => Stands n (fun w => F w ∧ Completed n turn turn.argv result w)
          (ds ++ [.called turn]) w
      | .error x => (¬ S.calm ∧ x.isException = true) ∧ Stands n F (ds ++ [.called turn]) w)
    (hok : ∀ result, (watch S).Triple
      (Stands n (fun w => F w ∧ Completed n turn turn.argv result w) (ds ++ [.called turn]))
      (f (.ok result)).run Q)
    (herror : ∀ x, ¬ S.calm → (watch S).Triple (Stands n F (ds ++ [.called turn]))
      (f (.error x)).run Q) :
    (watch S).Triple (Stands n F ds) (Coro.attempt call >>= f).run Q := by
  refine (Arena.Returns.attempt (fun r => ?_) hcall).bindE fun r => ?_
  · cases r with
    | ok result => exact Stands.stable (hF.and Completed.lasting)
    | error x => exact (Arena.stable_const _).and (Stands.stable hF)
  · cases r with
    | ok result => exact hok result
    | error x => exact Arena.Triple.of_fact fun hx => herror x hx.1

end

/-- The part of a thread reply that runs under the room lock. -/
theorem Triple.replyTurn {args : HandlerArgs} {message : Str} {row : SessionRow} {ack : EventId}
    (hF : S.Lasting F) (hroot : Keeps n F b row.threadRootId) (hds : Unchecked b ds) :
    (watch S).Triple (Stands n F ds) (replyTurn args message row ack).run fun res w =>
      ∃ tail, Stands n (fun w => F w ∧
        Aftermath S args (replyOf args message row) (lit "resume") w res tail) (ds ++ tail) w := by
  refine Triple.sync_bind hF rfl fun start => ?_
  refine Triple.attempted (replyOf args message row) hF (Triple.callRunner hF)
    (fun result => ?_) fun x hcalm => ?_
  · have hcompleted := hF.and
      (@Completed.lasting n S (replyOf args message row) (replyOf args message row).argv result)
    refine (Returns.touchSession hcompleted).bindE fun _ => ?_
    exact Triple.answer (replyOf args message row) hF hroot hds
  · cases x with
    | timeoutError => exact Triple.timedOut (replyOf args message row) hcalm hF hroot hds
    | _ => exact Triple.raised (replyOf args message row) hcalm hF

/-- The text of the acknowledgement of a thread reply. -/
def resumingText (session : SessionId) : Str :=
  lit "Resuming... (session " ++ session.short ++ lit ")"

/-- A thread reply to a tracked session. -/
theorem Triple.handleReply {args : HandlerArgs} {message : Str} {row : SessionRow}
    (hF : S.Lasting F) (hroot : Keeps n F b row.threadRootId) :
    (watch S).Triple (Stands n F b) (handleReply args message row).run fun res w =>
      ∃ tail, Stands n (fun w => F w ∧
        Aftermath S args (replyOf args message row) (lit "resume") w res tail)
        (b ++ [.posted args.roomId (resumingText row.sessionId)] ++ tail) w := by
  have hds := (Unchecked.refl b).post args.roomId (resumingText row.sessionId)
  refine (Returns.post hF).bindE fun ack => ?_
  refine (Returns.registerAlias hF (hroot _ · hds)).bindE fun _ => ?_
  refine (Returns.registerSession hF).bindE fun _ => ?_
  exact Triple.withRoomLock hF (fun res tail => hF.and Aftermath.lasting)
    (Triple.replyTurn hF hroot hds)

end MatrixDispatcher
