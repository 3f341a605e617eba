import MatrixDispatcher.Discipline.Detours
import MatrixDispatcher.Discipline.Handling
import MatrixDispatcher.Safety.Reconcile

/-!
# With and without the registry

A run of handlers with the registry has one without it beside it, unless another task goes on while
a handler is inside a call of the registry; such calls delay a handler, and another one may
overtake it on its way to the room lock.

* `registryBypass` — the worlds of two runs side by side.
* `outage_reconcileOnce` — a pass whose calls of the registry all fail.
* `fail_open` — handlers with and without the registry, and passes whose calls all fail.
-/

namespace MatrixDispatcher

open Coro Py

/-! ## Two runs side by side -/

/-- The process is not told to stop. -/
def unstopped : Answer → Bool
  | .move .interrupt => false
  | _ => true

/-- The tasks that are to start are handlers, and no task is cancelled. -/
structure World.Handling (w : World) : Prop where
  inbox : ∀ item ∈ w.inbox, ∃ args, item.2 = Request.handle args
  cancelled : w.cancelled = []

/-- A world with the registry beside one without it. -/
structure Paired (w w' : World) : Prop where
  alike : w.Alike w'
  pool : w'.pool = false
  handling : w.Handling

section

variable {config : MatrixDispatcher.Config} {w w' w₁ : World} {t : Tid} {a : Answer} {e : Eff}

theorem World.Handling.alike (h : w.Handling) (halike : w.Alike w') : w'.Handling := by
  have hinbox : w.bare.inbox = w'.bare.inbox := by rw [halike.bare]
  have hcancelled : w.bare.cancelled = w'.bare.cancelled := by rw [halike.bare]
  refine ⟨fun item hitem => h.inbox item ?_, hcancelled.symm.trans h.cancelled⟩
  rwa [show w.inbox = w'.inbox from hinbox]

/-- The effects of handlers neither create tasks nor cancel any. -/
theorem World.Handling.exec {r : e.Ret} (h : w.Handling) (he : HandlerEff e)
    (hexec : exec t a e w = some (r, w₁)) : w₁.Handling := by
  -- No effect of a handler writes the inbox,
  have hinbox : w₁.inbox = w.inbox := by
    refine frame hexec (c := .inbox) fun hmem => ?_
    cases e with
    | sync e => cases e <;> first | (simp [Eff.writes] at hmem; done) | cases he
    | await e => cases e <;> simp [Eff.writes, AwaitEff.writes] at hmem
  -- and none cancels: a task that is not cancelled stays so at its awaits.
  have hcancelled : w₁.cancelled = w.cancelled := by
    cases e with
    | sync e =>
      refine frame hexec (c := .cancelled) fun hmem => ?_
      cases e <;> first | (simp [Eff.writes] at hmem; done) | cases he
    | await e =>
      obtain ⟨⟨r', w''⟩, hquiet, heq⟩ := Option.map_eq_some_iff.mp hexec
      cases heq
      rcases execAwait_eq hquiet with ⟨hmem, -⟩ | ⟨-, hop⟩
      · rw [h.cancelled] at hmem
        cases hmem
      · refine (frame_operation hop).2 .cancelled fun hmem => ?_
        cases e <;> first | (simp [AwaitEff.writes] at hmem; done) | cases he
  exact ⟨hinbox ▸ h.inbox, hcancelled.trans h.cancelled⟩

/-- An effect outside of detours. -/
theorem Paired.outside {r : e.Ret} (h : Paired w w') (he : registryDetours.outside e)
    (hexec : exec t a e w = some (r, w₁)) :
    ∃ w₁', exec t a e w' = some (r, w₁') ∧ Paired w₁ w₁' := by
  obtain ⟨w₁', hexec', halike⟩ := exec_alike he.2 h.alike hexec
  refine ⟨w₁', hexec', halike, ?_, h.handling.exec he.1 hexec⟩
  refine Eq.trans (frame hexec' (c := .pool) fun hmem => ?_) h.pool
  obtain ⟨-, hoffline⟩ := he
  cases e with
  | sync e => cases e <;> first | (simp [Eff.writes] at hmem; done) | cases hoffline
  | await e =>
    cases e <;> first | (simp [Eff.writes, AwaitEff.writes] at hmem; done) | cases hoffline

/-- An effect of a detour. -/
theorem Paired.besides {r : e.Ret} (h : Paired w w') (hhandler : HandlerEff e)
    (he : e.besides = true) (hexec : exec t a e w = some (r, w₁)) : Paired w₁ w' := by
  have hcancelled : t ∉ w.cancelled := by
    rw [h.handling.cancelled]
    exact List.not_mem_nil
  have halike := exec_besides he hcancelled hexec
  exact ⟨⟨halike.bare.trans h.alike.bare, halike.trace.trans h.alike.trace⟩, h.pool,
    h.handling.exec hhandler hexec⟩

/-- An operation that a handler awaits does not end in a cancellation. -/
theorem Paired.uncancelled {e : AwaitEff} {r : Except Exn e.Val} (h : Paired w w')
    (hexec : exec t a (.await e) w = some (r, w₁)) : r ≠ .error .cancelledError := by
  rintro rfl
  have hcancelled : t ∉ w.cancelled := by
    rw [h.handling.cancelled]
    exact List.not_mem_nil
  exact absurd (isException_of_exec hexec hcancelled) nofun

end

/-- Runs of handlers with the registry have runs without it beside them. -/
def registryBypass (config : MatrixDispatcher.Config) :
    Detours.Bypass registryDetours (dispatcher config) (unstopped · = true) where
  alike := Paired
  awaits_ask := rfl
  awaits_quick := by
    intro e he
    cases e with
    | sync e => rfl
    | await e => cases he
  awaits_call := by
    intro e he
    cases e with
    | sync e => cases he
    | await e => rfl
  awaits_land := rfl
  outside h he hexec := h.outside he hexec
  ask := by
    intro w w₁ w' t a r h hexec
    refine ⟨w'.observe none, ?_, ?_⟩
    · change some (w'.pool, _) = _
      rw [h.pool]
      rfl
    · have hexec : exec t a (.sync .registryEnabled) w = some (r, w₁) := hexec
      exact Paired.besides (e := .sync .registryEnabled) h rfl rfl hexec
  quick := by
    intro w w₁ w' t a e r h he hexec
    obtain ⟨hhandler, hbesides⟩ := besides_of_onDetour he
    exact h.besides hhandler hbesides hexec
  call := by
    intro w w₁ w' t a e r h he hexec
    cases e with
    | sync e => cases he
    | await e =>
      obtain ⟨hhandler, hbesides⟩ := besides_of_call he
      exact ⟨h.uncancelled hexec, h.besides hhandler hbesides hexec⟩
  land := by
    intro w w₁ w' t a r h hexec
    have hexec : exec t a (.await .pause) w = some (r, w₁) := hexec
    refine ⟨?_, Paired.besides (e := .await .pause) h rfl rfl hexec⟩
    cases r with
    | ok _ => rfl
    | error x =>
      obtain ⟨⟨r', w''⟩, hquiet, heq⟩ := Option.map_eq_some_iff.mp hexec
      cases heq
      rcases execAwait_eq hquiet with ⟨hmem, -⟩ | ⟨-, hop⟩
      · rw [h.handling.cancelled] at hmem
        cases hmem
      · cases a <;> cases hop
  env := by
    intro w w₁ w' a h hcalm henv
    obtain ⟨m, rfl, hmoved⟩ := env_eq henv
    have hstill : w₁.bare = w.bare → w₁.trace = w.trace → Paired w₁ w' := fun hbare htrace =>
      ⟨⟨hbare.trans h.alike.bare, by rw [htrace, h.alike.trace]⟩, h.pool,
        h.handling.alike ⟨hbare.symm, by rw [htrace]⟩⟩
    cases m with
    | interrupt => cases hcalm
    | mint b =>
      rw [World.moved] at hmoved
      split at hmoved <;> cases hmoved
      exact .inr (hstill rfl rfl)
    | setState b state =>
      rw [World.moved] at hmoved
      split at hmoved <;> cases hmoved
      exact .inr (hstill rfl rfl)
    | exit pid rc out err =>
      have hprocs : w.bare.procs = w'.bare.procs := by rw [h.alike.bare]
      rw [World.moved.eq_def] at hmoved
      dsimp only at hmoved
      split at hmoved <;> cases hmoved
      next starter turn argv cwd agent hproc =>
      have hmoved' : w'.moved (.exit pid rc out err) =
          some { w' with procs := setStatus w'.procs pid (.exited rc out err) } := by
        have hproc' : w'.procs[pid]? = some ⟨starter, turn, argv, cwd, agent, .alive⟩ := by
          rw [show w'.procs = w.procs from hprocs.symm]
          exact hproc
        rw [World.moved.eq_def]
        simp only [hproc']
      have hbare := congrArg (fun v : World =>
        { v with procs := setStatus v.procs pid (.exited rc out err) }) h.alike.bare
      exact .inl ⟨_, hmoved', ⟨hbare, h.alike.trace⟩, h.pool, h.handling.inbox,
        h.handling.cancelled⟩
  start := by
    intro w w₁ w' t fiber a h hstart
    obtain ⟨n, request, rfl, hitem, rfl, rfl⟩ := start_eq hstart
    obtain ⟨args, hargs⟩ := h.handling.inbox _ (List.mem_of_getElem? hitem)
    obtain rfl : request = .handle args := hargs
    have hinbox : w.bare.inbox = w'.bare.inbox := by rw [h.alike.bare]
    have hitem' : w'.inbox[n]? = some (t, .handle args) := by
      rw [show w'.inbox = w.inbox from hinbox.symm]
      exact hitem
    have hstart' : (dispatcher config).start (.pick n) w' =
        some (t, handlerFiber args, { w' with inbox := w'.inbox.eraseIdx n }) := by
      simp only [dispatcher, hitem']
      rfl
    refine ⟨_, _, hstart', .once ?_, ?_⟩
    · exact Detours.Beside.bind (.bind_refl (fun _ => trivial) (performsE_await ⟨trivial, rfl⟩)
        fun _ => stays_handleEvent args) fun _ _ _ =>
          .refl ⟨⟨trivial, rfl⟩, fun _ => trivial⟩
    · have hbare := congrArg (fun v : World => { v with inbox := v.inbox.eraseIdx n }) h.alike.bare
      exact ⟨⟨hbare, h.alike.trace⟩, h.pool,
        fun item hmem => h.handling.inbox item (List.eraseIdx_subset hmem), h.handling.cancelled⟩

/-! ## Passes without an answer -/

/-- If it is a call of the registry, it failed. -/
def unanswered (c : Call Eff Eff.Ret) : Prop :=
  ∀ e r, c = ⟨.await e, r⟩ →
    ((Eff.await e).callsRegistry = true ∨ ∃ ids, e = .fetchStates ids) → ∃ x, r = .error x

/-- The statement deletes one of these rows, which is past the expiry age. -/
def Expires (rows : List PendingRow) (now : Int) (s : Stmt) : Prop :=
  ∃ row ∈ rows, now - row.createdAt > PENDING_APPROVAL_EXPIRY_SECONDS ∧
    s = .deletePendingApproval row.approvalId .expired

/-- What is left to a pass without the registry, once it has read these rows. -/
def OutageEff (rows : List PendingRow) (now : Int) : Eff → Prop
  | .sync (.execute s) => Expires rows now s
  | .sync .registryEnabled | .sync .commit => True
  | .sync (.mark m) => ∀ turn, m ≠ .runnerCall turn
  | .await .pause | .await (.fetchStates _) => True
  | _ => False

section

variable {config : MatrixDispatcher.Config} {rows : List PendingRow} {now : Int} {es : Log}

theorem outage_expireStale : PerformsE (OutageEff rows now) (expireStale now rows) :=
  performsE_expireStale (fun row hrow hold => ⟨row, hrow, hold, rfl⟩) trivial

theorem outage_getApprovalStates {ids : List ApprovalId} :
    PerformsE (OutageEff rows now) (Registry.getApprovalStates ids) :=
  performsE_getApprovalStates trivial trivial trivial

/-- If the registry does not answer, no state is known. -/
theorem states_of_unanswered {ids : List ApprovalId} {states : List (ApprovalId × ApprovalState)}
    (h : TraceE (Registry.getApprovalStates ids) es (.ok states))
    (hfail : ∀ c ∈ es, unanswered c) : states = [] := by
  rw [Registry.getApprovalStates] at h
  split at h
  · obtain ⟨-, heq⟩ := traceE_pure.mp h
    cases heq
    rfl
  obtain ⟨enabled, es₀, rfl, hcall⟩ := traceE_sync_bind.mp h
  -- A disabled registry is not called; an enabled one does not answer.
  cases enabled with
  | false =>
    obtain ⟨-, heq⟩ := traceE_pure.mp hcall
    cases heq
    rfl
  | true =>
    rcases traceE_tryCatch.mp hcall with ⟨a, hok, -⟩ | ⟨es₁, x, es₂, rfl, -, hhandler⟩
    · -- the call cannot have succeeded
      rcases traceE_network.mp hok with ⟨-, heq⟩ | ⟨r, landing, -, rfl, heq⟩
      · cases heq
      · obtain ⟨x, rfl⟩ := hfail _ (List.mem_cons_of_mem _ List.mem_cons_self) _ _ rfl
          (.inr ⟨ids, rfl⟩)
        cases landing <;> cases heq
    · split at hhandler
      · obtain ⟨-, heq⟩ := traceE_pure.mp hhandler
        cases heq
        rfl
      · obtain ⟨-, heq⟩ := traceE_throw.mp hhandler
        cases heq

/-- A row whose state is unknown is left alone. -/
theorem outage_reconcileRow (row : PendingRow) :
    PerformsE (OutageEff rows now) (reconcileRow config [] row) := performsE_pure _

/-- After the clock was read. -/
theorem outage_rest (hfail : ∀ c ∈ es, unanswered c) {res : Except Exn Unit}
    (h : TraceE (do
      sync (.mark (.sweep now))
      let live ← expireStale now rows
      sync (.mark (.swept (live.map (·.approvalId))))
      if live = [] then pure ()
      else
        let states ← Registry.getApprovalStates (live.map (·.approvalId))
        Coro.forEach live (reconcileRow config states)) es res) :
    ∀ c ∈ es, OutageEff rows now c.eff := by
  have happend : ∀ {es₁ es₂ : Log}, (∀ c ∈ es₁, OutageEff rows now c.eff) →
      (∀ c ∈ es₂, OutageEff rows now c.eff) → ∀ c ∈ es₁ ++ es₂, OutageEff rows now c.eff :=
    fun h₁ h₂ c hc => (List.mem_append.mp hc).elim (h₁ c) (h₂ c)
  obtain ⟨_, es₁, rfl, h₁⟩ := traceE_sync_bind.mp h
  refine List.forall_mem_cons.mpr ⟨nofun, ?_⟩
  rcases traceE_bind.mp h₁ with ⟨es₂, live, es₃, rfl, hexpire, h₂⟩ | ⟨x, hexpire, -⟩
  case inr => exact hexpire.of_performs outage_expireStale
  -- The expiry does its work, and then no state is known.
  refine happend (hexpire.of_performs outage_expireStale) ?_
  obtain ⟨_, es₄, rfl, h₃⟩ := traceE_sync_bind.mp h₂
  refine List.forall_mem_cons.mpr ⟨nofun, ?_⟩
  split at h₃
  · obtain ⟨rfl, -⟩ := traceE_pure.mp h₃
    nofun
  rcases traceE_bind.mp h₃ with ⟨es₅, states, es₆, rfl, hstates, h₄⟩ | ⟨x, hstates, -⟩
  case inr => exact hstates.of_performs outage_getApprovalStates
  obtain rfl := states_of_unanswered hstates fun c hc => hfail c (by simp [hc])
  exact happend (hstates.of_performs outage_getApprovalStates)
    (h₄.of_performs (performsE_forEach outage_reconcileRow))

/-- Such effects neither call the runner nor post. -/
theorem idle_of_outage {e : Eff} (h : OutageEff rows now e) : Idle e ∧ e.Postless := by
  cases e with
  | sync e =>
    refine ⟨fun r => ?_, trivial⟩
    cases e with
    | execute s =>
      obtain ⟨row, -, -, rfl⟩ := h
      cases r <;> rfl
    | commit => cases r <;> rfl
    | mark m =>
      cases m with
      | runnerCall turn => exact absurd rfl (h turn)
      | _ => rfl
    | _ => rfl
  | await e =>
    cases e with
    | fetchStates _ => exact ⟨fun r => by cases r <;> rfl, trivial⟩
    | pause => exact ⟨fun _ => rfl, trivial⟩
    | _ => exact h.elim

/-- A pass that calls no runner function, posts nothing, and deletes rows past the expiry age. -/
structure OnlyExpires (es : Log) : Prop where
  calls : runnerCalls es = []
  posts : posts es = []
  statements : ∀ s r, ⟨.sync (.execute s), r⟩ ∈ es → s = .getPendingApprovals ∨
    ∃ rows t, ⟨.sync (.execute .getPendingApprovals), .ok rows⟩ ∈ es ∧ ⟨.sync .time, t⟩ ∈ es ∧
      Expires rows (Time.seconds t) s

/-- What a pass does before it looks at its rows. -/
def Begins (e : Eff) : Prop :=
  e = .sync .registryEnabled ∨ e = .sync (.execute .getPendingApprovals) ∨ e = .sync .time

/-- The beginning of a pass, and what it does with the rows that it read. -/
theorem OnlyExpires.of_outage (rows : List PendingRow) (t : Time) {before : Log}
    (hbefore : ∀ c ∈ before, Begins c.eff)
    (hrows : rows ≠ [] → ⟨.sync (.execute .getPendingApprovals), .ok rows⟩ ∈ before ∧
      ⟨.sync .time, t⟩ ∈ before)
    (h : ∀ c ∈ es, OutageEff rows t.seconds c.eff) : OnlyExpires (before ++ es) := by
  -- Neither the beginning nor the expiry calls the runner or posts.
  have hidle : ∀ c ∈ before ++ es, Idle c.eff ∧ c.eff.Postless := by
    intro c hc
    rcases List.mem_append.mp hc with hc | hc
    · rcases hbefore c hc with heq | heq | heq <;> rw [heq]
      · exact ⟨fun _ => rfl, trivial⟩
      · exact ⟨fun r => by cases r <;> rfl, trivial⟩
      · exact ⟨fun _ => rfl, trivial⟩
    · exact idle_of_outage (h c hc)
  refine ⟨runnerCalls_of_idle fun c hc => (hidle c hc).1,
    posts_of_postless fun c hc => (hidle c hc).2, fun s r hmem => ?_⟩
  rcases List.mem_append.mp hmem with hmem | hmem
  · rcases hbefore _ hmem with heq | heq | heq <;> cases heq
    exact .inl rfl
  · obtain ⟨row, hrow, hold, rfl⟩ := h _ hmem
    obtain ⟨hread, htime⟩ := hrows (List.ne_nil_of_mem hrow)
    exact .inr ⟨rows, t, List.mem_append_left _ hread, List.mem_append_left _ htime, row, hrow,
      hold, rfl⟩

/-- With every call of the registry failing, a pass only deletes rows past the expiry age. -/
theorem outage_reconcileOnce {res : Except Exn Unit} (h : TraceE (reconcileOnce config) es res)
    (hfail : ∀ c ∈ es, unanswered c) : OnlyExpires es := by
  obtain ⟨es₁, es₂, rfl, hbody, hend⟩ := traceE_finallyDo.mp h
  obtain rfl : es₂ = passOver := trace_perform.mp hend
  -- The mark at the end is none of the effects that count.
  have hover : ∀ {rows now}, ∀ c ∈ passOver, OutageEff rows now c.eff :=
    List.forall_mem_singleton.mpr nofun
  have hshort : ∀ {before : Log}, (∀ c ∈ before, Begins c.eff) →
      OnlyExpires (before ++ passOver) := fun hbefore =>
    .of_outage [] 0 hbefore (fun hne => absurd rfl hne) hover
  -- The two reads at the beginning of a pass that comes so far.
  have hread : ∀ {enabled r}, ∀ c ∈ ([⟨.sync .registryEnabled, enabled⟩,
      ⟨.sync (.execute .getPendingApprovals), r⟩] : Log), Begins c.eff :=
    List.forall_mem_cons.mpr ⟨.inl rfl, List.forall_mem_singleton.mpr (.inr (.inl rfl))⟩
  obtain ⟨enabled, es₃, rfl, h₁⟩ := traceE_sync_bind.mp hbody
  split at h₁
  case isFalse =>
    obtain ⟨rfl, -⟩ := traceE_pure.mp h₁
    exact hshort (List.forall_mem_singleton.mpr (.inl rfl))
  rcases traceE_execute_bind h₁ with ⟨rows, es₄, rfl, h₂⟩ | ⟨x, rfl, -⟩
  case inr => exact hshort hread
  split at h₂
  · obtain ⟨rfl, -⟩ := traceE_pure.mp h₂
    exact hshort hread
  obtain ⟨t, es₅, rfl, h₃⟩ := traceE_now_bind.mp h₂
  -- After the readings, the expiry is all that is left.
  have hrest := outage_rest (fun c hc => hfail c (by simp [hc])) h₃
  have hdone : OnlyExpires ([⟨.sync .registryEnabled, enabled⟩,
      ⟨.sync (.execute .getPendingApprovals), .ok rows⟩, ⟨.sync .time, t⟩] ++
        (es₅ ++ passOver)) := by
    refine .of_outage rows t ?_ (fun _ => ⟨by simp, by simp⟩) fun c hc =>
      (List.mem_append.mp hc).elim (hrest c) (hover c)
    exact List.forall_mem_cons.mpr ⟨.inl rfl, List.forall_mem_cons.mpr
      ⟨.inr (.inl rfl), List.forall_mem_singleton.mpr (.inr (.inr rfl))⟩⟩
  exact hdone

end

/-! ## Two replies -/

/-- The arguments of a reply to the one session. -/
def replyArgsOf (e : EventId) (body : Str) : HandlerArgs := messageArgs e body (replyTo (lit "$1"))

/-- Two replies to the one session are about to be handled, with the registry. -/
def twoReplies : World where
  __ := oneSession
  pool := true
  inbox := [(.handler 0, .handle (replyArgsOf (lit "$2") (lit "first"))),
    (.handler 1, .handle (replyArgsOf (lit "$3") (lit "second")))]

/-- The tasks, in the order in which that ends what they wait for, apart from calls of the registry
and the task's turn after such a call. -/
def wakings (config : MatrixDispatcher.Config) :
    List Tid → Machine.Config Tid Eff Eff.Ret World → List (Label Tid Answer) → List Tid
  | _, _, [] => []
  | landing, c, l :: ls =>
    match (dispatcher config).step c l with
    | none => []
    | some c' =>
      match Machine.event c l with
      | .effect t e _ =>
        if e.callsRegistry then wakings config (t :: landing) c' ls
        else if t ∈ landing then wakings config (landing.erase t) c' ls
        else if e.awaits then t :: wakings config landing c' ls
        else wakings config landing c' ls
      | _ => wakings config landing c' ls

/-- Both handlers begin. -/
def bothBegin : List (Label Tid Answer) := [.start (.pick 0), .start (.pick 0)]

/-- The steps of a reply's handler until its session is to be registered; its ack is `ack`. -/
def untilAck (t : Tid) (ack : EventId) : List (Label Tid Answer) :=
  [.done, .done, .text ack, .done, .done, .done].map (.task t)

/-- The runner calls that are observed: the messages they pass on, the latest one first. -/
def calledWith (trace : List Obs) : List Str :=
  trace.filterMap fun
    | .marked _ (.runnerCall turn) => some turn.text
    | _ => none

/-- The first reply's handler is inside `upsert_session`, and the second one's gets the lock. -/
def overtakingReply : List (Label Tid Answer) :=
  bothBegin ++ untilAck (.handler 0) (lit "$a") ++ [.done, .done].map (.task (.handler 0)) ++
    untilAck (.handler 1) (lit "$b") ++
      [.done, .done, .done, .done, .done, .clock 0, .done].map (.task (.handler 1))

/-- Without the registry, the first reply's handler gets the lock. -/
def inOrder : List (Label Tid Answer) :=
  bothBegin ++ untilAck (.handler 0) (lit "$a") ++
    [.done, .done, .clock 0, .done].map (.task (.handler 0)) ++
    untilAck (.handler 1) (lit "$b") ++ [.done, .done].map (.task (.handler 1))

/-- The handler of the first reply registers its session and starts a child, with the registry; then
the handler of the second one waits for the lock. -/
def oneAfterTheOther : List (Label Tid Answer) :=
  bothBegin ++ untilAck (.handler 0) (lit "$a") ++
    [.done, .done, .done, .done, .done, .clock 0, .done].map (.task (.handler 0)) ++
    untilAck (.handler 1) (lit "$b") ++
      [.done, .done, .done, .done, .done].map (.task (.handler 1))

/-- Every task is at an `await`, and the runner was called with these messages. -/
def restsWith (texts : List Str) (c : Machine.Config Tid Eff Eff.Ret World) : Bool :=
  decide (c.running = none) && decide (calledWith c.world.trace = texts)

theorem of_restsWith {o : Option (Machine.Config Tid Eff Eff.Ret World)} {texts : List Str}
    (h : o.any (restsWith texts) = true) :
    ∃ c, o = some c ∧ c.running = none ∧ calledWith c.world.trace = texts := by
  obtain ⟨c, ho, hboth⟩ := (Option.any_eq_true ..).mp h
  obtain ⟨hrest, htexts⟩ := Bool.and_eq_true_iff.mp hboth
  exact ⟨c, ho, of_decide_eq_true hrest, of_decide_eq_true htexts⟩

/-! ## The registry is never an outage -/

/-- What the registry does not change: what is observed apart from recorded rows, the tables apart
from `pending_approvals`, and `_last_spawn_at`. -/
structure World.Unaffected (w w' : World) : Prop where
  trace : w.trace.filter Obs.bare = w'.trace.filter Obs.bare
  sessions : w.db.sessions = w'.db.sessions
  eventAliases : w.db.eventAliases = w'.db.eventAliases
  pollState : w.db.pollState = w'.db.pollState
  lastSpawn : w.lastSpawn = w'.lastSpawn

theorem World.Alike.unaffected {w w' : World} (h : w.Alike w') : w.Unaffected w' where
  trace := h.trace
  sessions := congrArg (·.db.sessions) h.bare
  eventAliases := congrArg (·.db.eventAliases) h.bare
  pollState := congrArg (·.db.pollState) h.bare
  lastSpawn := congrArg (·.lastSpawn) h.bare

/-- Handlers that wait, with the registry and without it. -/
theorem Paired.initial {w : World} (h : w.Handling) : Paired w { w with pool := false } :=
  ⟨⟨rfl, rfl⟩, rfl, h⟩

/-- A run of handlers with the registry has one without it beside it, under the schedule without
the calls of the registry, if the others stand still while a handler is inside such a call. In
every run, a handler by itself does what it does without the registry, if it is not cancelled at a
call. With every call of the registry failing, a pass calls no runner function, posts nothing and
only deletes rows past the expiry age. -/
theorem fail_open (config : MatrixDispatcher.Config) :
    (∀ w ls c, w.Handling →
      Detours.Undisturbed registryDetours (dispatcher config) (unstopped · = true) none
        (.ofWorld w) ls c →
      ∃ ls' c', ls'.Sublist ls ∧
        (dispatcher config).run (fun _ _ => True) (.ofWorld { w with pool := false }) ls' =
          some c' ∧
        c.world.Unaffected c'.world) ∧
    (∀ args es res, TraceE (handleEvent args) es res → Detours.Beside.Copes registryDetours es →
      ∃ es' res', TraceE (handleEvent args) es' res' ∧
        es'.filter (fun c => !c.eff.besides) = es.filter (fun c => !c.eff.besides) ∧
        ∀ c ∈ es', c.eff = .sync .registryEnabled → c = ⟨.sync .registryEnabled, false⟩) ∧
    ∀ es res, TraceE (reconcileOnce config) es res → (∀ c ∈ es, unanswered c) → OnlyExpires es := by
  -- The three parts: a run beside one without the registry, a handler by itself, and a pass.
  refine ⟨fun w ls c hw hrun => ?_, fun args es res htrace hcopes => ?_,
    fun es res => outage_reconcileOnce⟩
  -- The two worlds differ in the pool only, and nobody is on a detour.
  · have hstart : (registryBypass config).Sim none (.ofWorld w)
        (.ofWorld { w with pool := false }) :=
      .inl ⟨.initial hw, rfl, fun _ => trivial⟩
    obtain ⟨ls', c', busy, hsub, hrun', hsim⟩ := hstart.leads hrun
    have hpaired : Paired c.world c'.world := hsim.alike
    exact ⟨ls', c', hsub, hrun', hpaired.alike.unaffected⟩
  -- What is done on detours is left out of both logs.
  · have hquick : ∀ e, registryDetours.quick e → (!e.besides) = false := fun e he =>
      (Bool.not_eq_false' ..).mpr (besides_of_onDetour he).2
    have hcall : ∀ e, registryDetours.call e = true → (!e.besides) = false := fun e he =>
      (Bool.not_eq_false' ..).mpr (besides_of_call he).2
    obtain ⟨es', res', htrace', -, hsame, hno⟩ := (stays_handleEvent args).trace
      (V := fun e => !e.besides) rfl hquick hcall rfl htrace hcopes
    exact ⟨es', res', htrace', hsame, hno⟩

/-- The handler of the first reply is inside its calls, and the second one stands still. -/
theorem fail_open_replies : ∃ c ls' c',
    Detours.Undisturbed registryDetours (dispatcher oneAgent) (unstopped · = true) none
      (.ofWorld twoReplies) oneAfterTheOther c ∧
    ls'.Sublist oneAfterTheOther ∧
    (dispatcher oneAgent).run (fun _ _ => True) (.ofWorld { twoReplies with pool := false }) ls' =
      some c' ∧
    c.world.Unaffected c'.world ∧ calledWith c.world.trace = [lit "first"] := by
  have h : (registryDetours.undisturbed? (dispatcher oneAgent) unstopped none (.ofWorld twoReplies)
      oneAfterTheOther).any (restsWith [lit "first"]) = true := by decide +kernel
  obtain ⟨c, heval, -, hcalls⟩ := of_restsWith h
  have hwaiting : twoReplies.Handling :=
    ⟨List.forall_mem_cons.mpr ⟨⟨_, rfl⟩, List.forall_mem_singleton.mpr ⟨_, rfl⟩⟩, rfl⟩
  have hrun := Detours.undisturbed_of_eval heval
  obtain ⟨ls', c', hsub, hrun', hsame⟩ := (fail_open oneAgent).1 twoReplies _ c hwaiting hrun
  exact ⟨c, ls', c', hrun, hsub, hrun', hsame, hcalls⟩

/-- The handlers of two replies wake in the same order with the registry and without it, and the
runner is called for the second reply with the registry, and for the first one without it. -/
theorem overtaken_at_registration : ∃ c c',
    (dispatcher oneAgent).run (fun _ _ => True) (.ofWorld twoReplies) overtakingReply = some c ∧
    (dispatcher oneAgent).run (fun _ _ => True) (.ofWorld { twoReplies with pool := false })
      inOrder = some c' ∧
    c.running = none ∧ c'.running = none ∧
    wakings oneAgent [] (.ofWorld twoReplies) overtakingReply =
      wakings oneAgent [] (.ofWorld { twoReplies with pool := false }) inOrder ∧
    calledWith c.world.trace = [lit "second"] ∧ calledWith c'.world.trace = [lit "first"] := by
  have h : ((dispatcher oneAgent).run (fun _ _ => True) (.ofWorld twoReplies) overtakingReply).any
      (restsWith [lit "second"]) = true := by decide +kernel
  have h' : ((dispatcher oneAgent).run (fun _ _ => True)
      (.ofWorld { twoReplies with pool := false }) inOrder).any
      (restsWith [lit "first"]) = true := by decide +kernel
  obtain ⟨c, hrun, hrest, hcalls⟩ := of_restsWith h
  obtain ⟨c', hrun', hrest', hcalls'⟩ := of_restsWith h'
  exact ⟨c, c', hrun, hrun', hrest, hrest', by decide +kernel, hcalls, hcalls'⟩

end MatrixDispatcher
