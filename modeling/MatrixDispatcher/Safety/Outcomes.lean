import MatrixDispatcher.Discipline.Handling
import MatrixDispatcher.Safety.Reconcile

/-!
# The end of a turn

What the operator sees after the subprocess of a turn has ended, however it ended. The paths of
new sessions and of thread replies raise what the runner raised, unless it is a timeout; the path
of approvals reports it.

* `EndsWithWord` — after the runner's call a path posts a message in the thread and releases the
  lock.
* `Reported` — the outcomes that the paths of new sessions and replies report.
* `turns_speak_iff` — which path ends with a word on which outcome.
-/

namespace MatrixDispatcher

open Coro Py

/-- How a call of the runner ends: with an exit code and the output, or with an exception. -/
abbrev RunnerResult := Except Exn (Int × Str)

/-! ## What is to be shown -/

/-- A message was posted in the room, and then became an alias of the thread root. -/
def Spoke (room : RoomId) (root : EventId) (es : Log) : Prop :=
  ∃ before body reply e after,
    es = before ++ ⟨.await (.roomSend room body reply), .ok e⟩ :: after ∧
      ⟨.sync (.execute (.registerAlias e root)), .ok ()⟩ ∈ after

/-- The task is not cancelled, its posts succeed, and so do the statements about its session. -/
def Calm : Call Eff Eff.Ret → Prop
  | ⟨.await (.roomSend _ _ _), r⟩ => ∃ e, r = .ok e ∧ e ≠ []
  | ⟨.await .pause, r⟩ | ⟨.sync .commit, r⟩ | ⟨.sync (.execute (.registerAlias _ _)), r⟩
  | ⟨.sync (.execute (.touchSession _ _)), r⟩ => r = .ok ()
  | _ => True

/-- Whenever the runner's call in the path ends like this, a message is posted in the thread after
it, and the room lock is released. -/
def EndsWithWord (path : Py Unit) (runner : Py (Int × Str)) (room : RoomId) (root : EventId)
    (out : RunnerResult) : Prop :=
  ∀ before during after res, TraceE path (before ++ during ++ after) res →
    TraceE runner during out → (∀ c ∈ before ++ during ++ after, Calm c) →
      Spoke room root after ∧ ⟨.sync (.lockRelease room), ()⟩ ∈ after

/-- The output, if it is to be posted in chunks, can be cut into chunks. -/
def Cuttable (maxLen : Nat) (out : RunnerResult) : Prop :=
  ∀ output, out = .ok (0, output) →
    ∃ chunks, splitOnParagraphs (output.orElse (lit "(no output)")) maxLen = .ok chunks

/-- The outcomes that new sessions and replies report: all but exceptions other than timeouts. -/
def Reported (maxLen : Nat) (out : RunnerResult) : Prop :=
  Cuttable maxLen out ∧ ∀ x, out = .error x → x = .timeoutError

/-! ## Posts -/

section

variable {room : RoomId} {root : EventId} {es es' : Log}

theorem Spoke.append (h : Spoke room root es) : Spoke room root (es ++ es') := by
  obtain ⟨before, body, reply, e, after, rfl, halias⟩ := h
  refine ⟨before, body, reply, e, after ++ es', by simp, List.mem_append_left _ halias⟩

theorem Spoke.prepend (h : Spoke room root es') : Spoke room root (es ++ es') := by
  obtain ⟨before, body, reply, e, after, rfl, halias⟩ := h
  exact ⟨es ++ before, body, reply, e, after, by simp, halias⟩

/-- A post that succeeds. -/
theorem trace_postMessage {body : Str} {reply : Option EventId} {res : Except Exn EventId}
    (h : TraceE (postMessage room body reply) es res) (hcalm : ∀ c ∈ es, Calm c) :
    ∃ e, e ≠ [] ∧ res = .ok e ∧ es =
      [⟨.await (.roomSend room body (reply.filter (· ≠ []))), .ok e⟩, ⟨.await .pause, .ok ()⟩] := by
  rcases traceE_network.mp h with ⟨rfl, -⟩ | ⟨r, landing, -, rfl, rfl⟩
  · obtain ⟨_, heq, -⟩ : Calm ⟨.await (.roomSend _ _ _), _⟩ := hcalm _ List.mem_cons_self
    cases heq
  · obtain ⟨e, rfl, he⟩ : Calm ⟨.await (.roomSend _ _ _), r⟩ := hcalm _ List.mem_cons_self
    obtain rfl : Calm ⟨.await .pause, landing⟩ := hcalm _ (by simp)
    exact ⟨e, he, rfl, rfl⟩

/-- The first statement of a registration. -/
theorem trace_registerAlias {e : EventId} {res : Except Exn Unit} (he : e ≠ [])
    (h : TraceE (Store.registerAlias e root) es res) (hcalm : ∀ c ∈ es, Calm c) :
    ⟨.sync (.execute (.registerAlias e root)), .ok ()⟩ ∈ es := by
  rw [Store.registerAlias, if_neg he] at h
  rcases traceE_execute_bind h with ⟨_, es', rfl, -⟩ | ⟨x, rfl, -⟩
  · exact List.mem_cons_self
  · have hok : (.error x : Except Exn Unit) = .ok () := hcalm _ List.mem_cons_self
    cases hok

/-- A notice in the thread, and what follows. -/
theorem spoke_of_notice {α : Type} {body : Str} {reply : Option EventId} {f : Unit → Py α}
    {res : Except Exn α}
    (h : TraceE (do let e ← postMessage room body reply; f (← Store.registerAlias e root)) es res)
    (hcalm : ∀ c ∈ es, Calm c) : Spoke room root es := by
  rcases traceE_bind.mp h with ⟨es₁, e, es₂, rfl, hpost, hrest⟩ | ⟨x, hpost, rfl⟩
  · obtain ⟨e, he, heq, rfl⟩ := trace_postMessage hpost fun c hc =>
      hcalm c (List.mem_append_left _ hc)
    cases heq
    have halias : ⟨.sync (.execute (.registerAlias e root)), .ok ()⟩ ∈ es₂ := by
      rcases traceE_bind.mp hrest with ⟨es₃, _, es₄, rfl, hregister, -⟩ | ⟨x, hregister, -⟩
      · exact List.mem_append_left _ (trace_registerAlias he hregister fun c hc =>
          hcalm c (List.mem_append_right _ (List.mem_append_left _ hc)))
      · exact trace_registerAlias he hregister fun c hc => hcalm c (List.mem_append_right _ hc)
    exact ⟨[], body, _, e, _, rfl, List.mem_cons_of_mem _ halias⟩
  · obtain ⟨_, -, heq, -⟩ := trace_postMessage hpost hcalm
    cases heq

/-- A notice at the end of a program. -/
theorem spoke_of_notice_end {body : Str} {reply : Option EventId} {res : Except Exn Unit}
    (h : TraceE (do let e ← postMessage room body reply; Store.registerAlias e root) es res)
    (hcalm : ∀ c ∈ es, Calm c) : Spoke room root es :=
  spoke_of_notice (f := Pure.pure) (by simpa using h) hcalm

/-- A text that can be cut has a first chunk. -/
theorem ne_nil_of_split {text : Str} {maxLen : Nat} {chunks : List Str}
    (h : splitOnParagraphs text maxLen = .ok chunks) : chunks ≠ [] := by
  rw [splitOnParagraphs] at h
  split at h
  · cases h
    exact List.cons_ne_nil _ _
  split at h
  · cases h
  · have hne : ∀ l : List Str, (if l = [] then [text.take maxLen] else l) ≠ [] := by
      intro l
      split
      · exact List.cons_ne_nil _ _
      · assumption
    obtain rfl := Except.ok.inj h
    exact hne _

/-- A response that can be cut. -/
theorem spoke_of_postResponse {output : Str} {rc : Int} {session : SessionId} {mention : UserId}
    {maxLen : Nat} {target : EventId} {action : Str} {res : Except Exn Unit}
    (hcut : Cuttable maxLen (.ok (rc, output)))
    (h : TraceE (postResponse room output rc session mention maxLen target action root) es res)
    (hcalm : ∀ c ∈ es, Calm c) : Spoke room root es := by
  rw [postResponse] at h
  split at h
  · exact spoke_of_notice_end h hcalm
  · next hrc =>
    obtain rfl : rc = 0 := not_not.mp hrc
    obtain ⟨chunks, hchunks⟩ := hcut output rfl
    obtain ⟨chunk, chunks, rfl⟩ := List.exists_cons_of_ne_nil (ne_nil_of_split hchunks)
    rw [hchunks] at h
    exact spoke_of_notice h hcalm

end

/-! ## Where the runner is called -/

section

variable {α : Type} {room : RoomId} {root : EventId} {es : Log}

/-- Two ways to split a list at an element of a kind of which there is only one are the same. -/
theorem append_cons_inj {P : Call Eff Eff.Ret → Prop} {before before' after after' : Log}
    {c c' : Call Eff Eff.Ret} (hc : P c') (hbefore : ∀ d ∈ before, ¬ P d)
    (hafter : ∀ d ∈ after, ¬ P d) (h : before ++ c :: after = before' ++ c' :: after') :
    before = before' ∧ c :: after = c' :: after' := by
  rcases List.append_eq_append_iff.mp h with ⟨l, rfl, hl⟩ | ⟨l, rfl, hl⟩
  · cases l with
    | nil => exact ⟨(List.append_nil _).symm, hl⟩
    | cons d l =>
      obtain ⟨rfl, rfl⟩ := List.cons.inj hl
      exact absurd hc (hafter c' (by simp))
  · cases l with
    | nil => exact ⟨List.append_nil _, hl.symm⟩
    | cons d l =>
      obtain ⟨rfl, rfl⟩ := List.cons.inj hl
      exact absurd hc (hbefore c' (by simp))

/-- The call of the runner for a turn. -/
def callFor (turn : Turn) (run : Py (Int × Str)) : Py (Int × Str) := do
  sync (.mark (.runnerCall turn))
  run

/-- The log of a program that calls the runner: what comes before the call, the call and the way it
ends, and what the program does then. -/
def TurnIn (runs : Turn → Py (Int × Str)) (good : RunnerResult → Log → Prop) (es : Log) : Prop :=
  ∃ before turn during out after, es = before ++ during ++ after ∧
    (∀ c ∈ before, Idle c.eff) ∧ TraceE (callFor turn (runs turn)) during out ∧
    (∀ c ∈ after, Idle c.eff) ∧ good out after

/-- The log of a path that calls the runner under the room lock. -/
def CalledIn (runs : Turn → Py (Int × Str)) (room : RoomId)
    (good : RunnerResult → Log → Prop) (es : Log) : Prop :=
  ∃ es', es = es' ++ [⟨.sync (.lockRelease room), ()⟩] ∧ TurnIn runs good es'

/-- If all calls of a path are followed by a word, the path ends with one. -/
theorem endsWithWord_of_calledIn {path : Py Unit} {runs : Turn → Py (Int × Str)}
    {out : RunnerResult} (turn : Turn) (hruns : ∀ turn, PerformsE Idle (runs turn))
    (h : ∀ es res, TraceE path es res → runnerCalls es ≠ [] →
      CalledIn runs room (fun out' after => out' = out → (∀ c ∈ after, Calm c) →
        Spoke room root after) es) :
    EndsWithWord path (callFor turn (runs turn)) room root out := by
  intro before during after res htrace hduring hcalm
  obtain ⟨⟨⟩, d, rfl, hd⟩ := traceE_sync_bind.mp hduring
  have hcalls : runnerCalls (before ++ ⟨.sync (.mark (.runnerCall turn)), ()⟩ :: d ++ after) ≠ [] :=
    fun hnone => nomatch List.filterMap_eq_nil_iff.mp hnone
      ⟨.sync (.mark (.runnerCall turn)), ()⟩ (by simp)
  obtain ⟨_, heq, before', turn', _, out', after', rfl, hbefore, hduring', hafter, hgood⟩ :=
    h _ res htrace hcalls
  obtain ⟨⟨⟩, d', rfl, hd'⟩ := traceE_sync_bind.mp hduring'
  -- the path calls the runner once, so this is the call that was given
  have hrest : ∀ c ∈ d' ++ (after' ++ [⟨.sync (.lockRelease room), ()⟩]), Idle c.eff := by
    intro c hc
    rcases List.mem_append.mp hc with hc | hc
    · exact hd'.of_performs (hruns turn') c hc
    rcases List.mem_append.mp hc with hc | hc
    · exact hafter c hc
    · rw [List.mem_singleton.mp hc]
      exact fun _ => rfl
  rw [List.append_assoc, List.append_assoc, List.append_assoc, List.cons_append,
    List.cons_append] at heq
  have hmark : (actOf ⟨.sync (.mark (.runnerCall turn)), ()⟩).turn? ≠ none :=
    Option.some_ne_none turn
  obtain ⟨rfl, hcons⟩ := append_cons_inj (P := fun c => (actOf c).turn? ≠ none) hmark
    (fun c hc hne => hne (hbefore c hc _))
    (fun c hc hne => hne (hrest c hc _)) heq.symm
  obtain ⟨hsame, htail⟩ := List.cons.inj hcons
  cases hsame
  obtain ⟨rfl, rfl, rfl⟩ := Trace.unique hd' hd htail
  refine ⟨Spoke.append (hgood rfl fun c hc => hcalm c ?_), by simp⟩
  simp [hc]

variable {runs : Turn → Py (Int × Str)} {good : RunnerResult → Log → Prop} {β : Type}

theorem TurnIn.prepend {es' : Log} (hidle : ∀ c ∈ es', Idle c.eff) (h : TurnIn runs good es) :
    TurnIn runs good (es' ++ es) := by
  obtain ⟨before, turn, during, out, after, rfl, hbefore, hduring, hafter, hgood⟩ := h
  refine ⟨es' ++ before, turn, during, out, after, by simp, fun c hc => ?_, hduring, hafter, hgood⟩
  exact (List.mem_append.mp hc).elim (hidle c) (hbefore c)

theorem CalledIn.prepend {es' : Log} (hidle : ∀ c ∈ es', Idle c.eff)
    (h : CalledIn runs room good es) : CalledIn runs room good (es' ++ es) := by
  obtain ⟨es, rfl, hturn⟩ := h
  exact ⟨es' ++ es, by simp, hturn.prepend hidle⟩

/-- A program that does not call the runner, then one that does. -/
theorem trace_idle_bind {p : Py α} {f : α → Py β} {res : Except Exn β} (hp : PerformsE Idle p)
    (h : TraceE (p >>= f) es res) (hcalls : runnerCalls es ≠ []) :
    ∃ es₁ a es₂, es = es₁ ++ es₂ ∧ (∀ c ∈ es₁, Idle c.eff) ∧ TraceE (f a) es₂ res ∧
      runnerCalls es₂ ≠ [] := by
  rcases traceE_bind.mp h with ⟨es₁, a, es₂, rfl, hfirst, hrest⟩ | ⟨x, hfirst, rfl⟩
  · have hidle := hfirst.of_performs hp
    refine ⟨es₁, a, es₂, rfl, hidle, hrest, fun hnone => hcalls ?_⟩
    rw [runnerCalls_append, runnerCalls_of_idle hidle, hnone]
    rfl
  · exact absurd (runnerCalls_of_idle (hfirst.of_performs hp)) hcalls

theorem idle_acquireRoomLock : PerformsE Idle (acquireRoomLock room) := by
  refine performsE_bind (performsE_sync fun _ => rfl) fun got => ?_
  split
  · exact performsE_pure _
  · exact performsE_await fun _ => rfl

/-- Under the lock, the runner is called. -/
theorem calledIn_withRoomLock {body : Py Unit} {res : Except Exn Unit}
    (hbody : ∀ es res, TraceE body es res → runnerCalls es ≠ [] → TurnIn runs good es)
    (h : TraceE (withRoomLock room body) es res) (hcalls : runnerCalls es ≠ []) :
    CalledIn runs room good es := by
  obtain ⟨es₁, _, es₂, rfl, hidle, hlocked, hcalls₂⟩ :=
    trace_idle_bind idle_acquireRoomLock h hcalls
  obtain ⟨es₃, _, rfl, hturn, hrelease⟩ := traceE_finallyDo.mp hlocked
  obtain rfl := trace_perform.mp hrelease
  refine CalledIn.prepend hidle ⟨es₃, rfl, hbody es₃ res hturn fun hnone => hcalls₂ ?_⟩
  rw [runnerCalls_append, hnone]
  rfl

/-- The clock is read, the runner is called, and the program goes on with the way it ended. -/
theorem turnIn_attempt (turn : Turn) {rest : Time → RunnerResult → Py Unit}
    {res : Except Exn Unit} (hidle : ∀ start out, PerformsE Idle (rest start out))
    (hgood : ∀ start out after res, TraceE (rest start out) after res → good out after)
    (h : TraceE (do
      let start ← sync .utcnow
      let out ← Coro.attempt (callFor turn (runs turn))
      rest start out) es res) : TurnIn runs good es := by
  obtain ⟨start, es', rfl, h'⟩ := traceE_sync_bind.mp h
  rcases traceE_bind.mp h' with ⟨during, out, after, rfl, hcall, hrest⟩ | ⟨x, hcall, -⟩
  · obtain ⟨out, hduring, heq⟩ := traceE_attempt.mp hcall
    cases heq
    refine ⟨[⟨.sync .utcnow, start⟩], turn, during, out, after, rfl, fun c hc => ?_, hduring,
      hrest.of_performs (hidle start _), hgood start out after res hrest⟩
    rw [List.mem_singleton.mp hc]
    exact fun _ => rfl
  · obtain ⟨_, _, heq⟩ := traceE_attempt.mp hcall
    cases heq

end

/-! ## The three paths -/

/-- The subprocess of a turn in this directory. -/
def runIn (dir : Str) (timeout : Nat) (turn : Turn) : Py (Int × Str) :=
  runClaude turn.argv dir turn.agentName turn.roomId timeout turn

section

variable {args : HandlerArgs} {message : Str} {row : SessionRow} {out : RunnerResult} {es : Log}
  {res : Except Exn Unit} {root : EventId} {room : RoomId}

/-- What follows on the use of a session is said after it. -/
theorem spoke_of_touch {f : Unit → Py Unit}
    (hrest : ∀ es res, TraceE (f ()) es res → (∀ c ∈ es, Calm c) → Spoke room root es)
    (h : TraceE (Store.touchSession root >>= f) es res) (hcalm : ∀ c ∈ es, Calm c) :
    Spoke room root es := by
  rcases traceE_bind.mp h with ⟨es₁, _, es₂, rfl, -, h₂⟩ | ⟨x, htouch, rfl⟩
  · exact (hrest es₂ res h₂ fun c hc => hcalm c (List.mem_append_right _ hc)).prepend
  · -- the statement and the commit succeed
    obtain ⟨t, es₁, rfl, h₁⟩ := traceE_now_bind.mp htouch
    rcases traceE_execute_bind h₁ with ⟨_, es₂, rfl, h₂⟩ | ⟨y, rfl, -⟩
    · obtain rfl := traceE_commit.mp h₂
      have hok : (.error x : Except Exn Unit) = .ok () := hcalm ⟨.sync .commit, .error x⟩ (by simp)
      cases hok
    · have hok : (.error y : Except Exn Unit) = .ok () :=
        hcalm _ (List.mem_cons_of_mem _ List.mem_cons_self)
      cases hok

/-- A response is followed by what is done after it. -/
theorem spoke_of_response {rc : Int} {output : Str} {session : SessionId} {mention : UserId}
    {maxLen : Nat} {target : EventId} {action : Str} {f : Unit → Py Unit}
    (hcut : Cuttable maxLen (.ok (rc, output)))
    (h : TraceE (postResponse room output rc session mention maxLen target action root >>= f) es
      res) (hcalm : ∀ c ∈ es, Calm c) : Spoke room root es := by
  rcases traceE_bind.mp h with ⟨es₁, _, es₂, rfl, hpost, -⟩ | ⟨x, hpost, -⟩
  · exact (spoke_of_postResponse hcut hpost fun c hc =>
      hcalm c (List.mem_append_left _ hc)).append
  · exact spoke_of_postResponse hcut hpost hcalm

theorem idle_response {rc : Int} {output : Str} {session : SessionId} {mention : UserId}
    {maxLen : Nat} {target : EventId} {action : Str} {agent : AgentName} {start : Time} :
    PerformsE Idle (do
      postResponse room output rc session mention maxLen target action root
      recordPendingIfGated agent room session root start) :=
  performsE_bind (idle_plain (plain_postResponse _ _ _ _ _ _ _ _ _)) fun _ =>
    idle_recordPendingIfGated

/-- What is due after the runner's call of a path that ended like this. -/
abbrev Due (room : RoomId) (root : EventId) (out out' : RunnerResult) (after : Log) : Prop :=
  out' = out → (∀ c ∈ after, Calm c) → Spoke room root after

/-- A thread reply. -/
theorem calledIn_handleReply (hout : Reported args.maxMessageLength out)
    (h : TraceE (handleReply args message row) es res) (hcalls : runnerCalls es ≠ []) :
    CalledIn (runIn args.projectDir args.subprocessTimeoutSeconds) args.roomId
      (Due args.roomId row.threadRootId out) es := by
  obtain ⟨es₁, ack, es₂, rfl, hidle₁, h₂, hcalls₂⟩ :=
    trace_idle_bind (idle_plain (plain_postMessage _ _ _)) h hcalls
  obtain ⟨es₃, _, es₄, rfl, hidle₃, h₄, hcalls₄⟩ :=
    trace_idle_bind (idle_plain (plain_registerAlias _ _)) h₂ hcalls₂
  obtain ⟨es₅, _, es₆, rfl, hidle₅, h₆, hcalls₆⟩ :=
    trace_idle_bind (idle_plain (plain_registerSession _ _ _ _ _)) h₄ hcalls₄
  -- What comes before the lock calls no runner, so the call is in the turn.
  refine CalledIn.prepend hidle₁ (CalledIn.prepend hidle₃ (CalledIn.prepend hidle₅ ?_))
  refine calledIn_withRoomLock (fun es res h _ => ?_) h₆ hcalls₆
  refine turnIn_attempt (replyOf args message row) (fun start out => ?_)
    (fun start out' after res hrest => ?_) h
  · split
    · exact idle_plain (plain_postAlias _ _ _ _)
    · exact performsE_throw _
    · exact performsE_bind (idle_plain (plain_touchSession _)) fun _ => idle_response
  -- A notice or the response is posted, depending on how the run ended.
  · rintro rfl hcalm
    split at hrest
    · exact spoke_of_notice_end hrest hcalm
    · next x hx => exact absurd (hout.2 x rfl) fun heq => hx (by rw [heq])
    · exact spoke_of_touch (fun es res h hcalm => spoke_of_response hout.1 h hcalm) hrest hcalm

/-- The turn of a new session. -/
theorem turnIn_spawnTurn (hout : Reported args.maxMessageLength out)
    (h : TraceE (spawnTurn args message) es res) (hcalls : runnerCalls es ≠ []) :
    TurnIn (runIn args.projectDir args.subprocessTimeoutSeconds)
      (Due args.roomId args.event.eventId out) es := by
  obtain ⟨es₁, session, es₂, rfl, hidle₁, h₂, hcalls₂⟩ :=
    trace_idle_bind (performsE_sync fun _ => rfl) h hcalls
  obtain ⟨es₃, ack, es₄, rfl, hidle₃, h₄, hcalls₄⟩ :=
    trace_idle_bind (idle_plain (plain_postMessage _ _ _)) h₂ hcalls₂
  obtain ⟨es₅, _, es₆, rfl, hidle₅, h₆, hcalls₆⟩ :=
    trace_idle_bind (idle_plain (plain_insertSession _ _ _ _)) h₄ hcalls₄
  obtain ⟨es₇, _, es₈, rfl, hidle₇, h₈, hcalls₈⟩ :=
    trace_idle_bind (idle_plain (plain_registerAlias _ _)) h₆ hcalls₆
  obtain ⟨es₉, _, es', rfl, hidle₉, h', -⟩ :=
    trace_idle_bind (idle_plain (plain_registerSession _ _ _ _ _)) h₈ hcalls₈
  -- Neither the acknowledgement nor the insertion of the session calls the runner.
  refine TurnIn.prepend hidle₁ (TurnIn.prepend hidle₃ (TurnIn.prepend hidle₅
    (TurnIn.prepend hidle₇ (TurnIn.prepend hidle₉ ?_))))
  refine turnIn_attempt (newOf args message session) (fun start out => ?_)
    (fun start out' after res hrest => ?_) h'
  · split
    · exact idle_plain (plain_postAlias _ _ _ _)
    · exact performsE_throw _
    · exact idle_response
  -- A notice or the response is posted, depending on how the run ended.
  · rintro rfl hcalm
    split at hrest
    · exact spoke_of_notice_end hrest hcalm
    · next x hx => exact absurd (hout.2 x rfl) fun heq => hx (by rw [heq])
    · exact spoke_of_response hout.1 hrest hcalm

/-- A message at the root of the room. -/
theorem calledIn_rootTurn (hout : Reported args.maxMessageLength out)
    (h : TraceE (withRoomLock args.roomId (rootTurn args message)) es res)
    (hcalls : runnerCalls es ≠ []) :
    CalledIn (runIn args.projectDir args.subprocessTimeoutSeconds) args.roomId
      (Due args.roomId args.event.eventId out) es := by
  refine calledIn_withRoomLock (fun es res h hcalls => ?_) h hcalls
  obtain ⟨es₁, now, es₂, rfl, hidle₁, h₂, hcalls₂⟩ :=
    trace_idle_bind (performsE_sync fun _ => rfl) h hcalls
  obtain ⟨es₃, last, es₄, rfl, hidle₃, h₄, hcalls₄⟩ :=
    trace_idle_bind (performsE_sync fun _ => rfl) h₂ hcalls₂
  refine TurnIn.prepend hidle₁ (TurnIn.prepend hidle₃ ?_)
  dsimp only at h₄
  split at h₄
  · -- a message that is rate-limited has no turn
    have hidle := h₄.of_performs (idle_plain (plain_notice _ _ _))
    exact absurd (runnerCalls_of_idle hidle) hcalls₄
  · obtain ⟨es₅, _, es₆, rfl, hidle₅, h₆, hcalls₆⟩ :=
      trace_idle_bind (performsE_sync fun _ => rfl) h₄ hcalls₄
    exact TurnIn.prepend hidle₅ (turnIn_spawnTurn hout h₆ hcalls₆)

/-- An approval. -/
theorem calledIn_resumeOnApproval {config : MatrixDispatcher.Config} {pending : PendingRow}
    {agent : AgentName} {cfg : AgentCfg} {dir : Str}
    (hroom : config.roomToAgent pending.roomId = some (agent, cfg))
    (hdir : cfg.projectDir = some dir) (hexn : out ≠ .error .cancelledError)
    (hout : Cuttable (config.maxMessageLength.getD 4000) out)
    (h : TraceE (resumeOnApproval config pending) es res) (hcalls : runnerCalls es ≠ []) :
    CalledIn (runIn dir cfg.timeout) pending.roomId
      (Due pending.roomId pending.threadRootId out) es := by
  rw [resumeOnApproval] at h
  simp only [hroom, hdir] at h
  have hdelete : PerformsE Idle (Store.deletePendingApproval pending.approvalId .claim) :=
    performsE_bind (performsE_execute fun r => by cases r <;> rfl) fun _ =>
      performsE_commit fun r => by cases r <;> rfl
  -- The claim calls no runner, so the call is in the turn under the lock.
  obtain ⟨es₁, _, es₂, rfl, hidle₁, h₂, hcalls₂⟩ := trace_idle_bind hdelete h hcalls
  refine CalledIn.prepend hidle₁ (calledIn_withRoomLock (fun es res h _ => ?_) h₂ hcalls₂)
  refine turnIn_attempt (approvedOf pending agent) (fun start out => ?_)
    (fun start out' after res hrest => ?_) h
  · split
    · exact performsE_throw _
    · exact idle_plain (plain_postAlias _ _ _ _)
    · exact idle_plain (plain_postAlias _ _ _ _)
    · exact performsE_bind (idle_plain (plain_touchSession _)) fun _ => idle_response
  -- Here every exception but a cancellation is reported.
  · rintro rfl hcalm
    split at hrest
    · exact absurd rfl hexn
    · exact spoke_of_notice_end hrest hcalm
    · exact spoke_of_notice_end hrest hcalm
    · exact spoke_of_touch (fun es res h hcalm => spoke_of_response hout h hcalm) hrest hcalm

end

/-! ## Outcomes after which nothing is said -/

section

variable {args : HandlerArgs} {message : Str} {row : SessionRow} {out : RunnerResult}
  {res : Except Exn Unit} {root : EventId} {room : RoomId} {turn : Turn} {dir : Str} {timeout : Nat}

/-- The log of a subprocess that cannot be started. -/
def failedRun (turn : Turn) (dir : Str) (x : Exn) : Log :=
  [⟨.sync (.mark (.runnerCall turn)), ()⟩,
    ⟨.await (.exec turn.argv dir turn.agentName turn), .error x⟩, ⟨.await .pause, .ok ()⟩]

theorem trace_failedRun {x : Exn} (hx : x ≠ .cancelledError) :
    TraceE (callFor turn (runIn dir timeout turn)) (failedRun turn dir x) (.error x) := by
  refine traceE_sync_bind.mpr ⟨(), _, rfl, traceE_bind.mpr (.inr ⟨x, traceE_network.mpr ?_, rfl⟩)⟩
  refine .inr ⟨.error x, .ok (), fun heq => hx ?_, rfl, rfl⟩
  cases heq
  rfl

/-- The log of a subprocess that exits with code 0. -/
def goodRun (turn : Turn) (dir : Str) (timeout : Nat) (output : Str) : Log :=
  [⟨.sync (.mark (.runnerCall turn)), ()⟩,
    ⟨.await (.exec turn.argv dir turn.agentName turn), .ok 0⟩, ⟨.await .pause, .ok ()⟩,
    ⟨.sync (.activeSet turn.roomId 0), ()⟩, ⟨.await (.communicate 0 timeout), .ok (output, [])⟩,
    ⟨.sync (.activePop turn.roomId), ()⟩, ⟨.sync (.mark (.leftRun turn.roomId 0 .result)), ()⟩,
    ⟨.sync (.returncode 0), some 0⟩]

theorem trace_goodRun {output : Str} :
    TraceE (callFor turn (runIn dir timeout turn)) (goodRun turn dir timeout output)
      (.ok (0, output)) := by
  refine traceE_sync_bind.mpr ⟨(), _, rfl, traceE_bind.mpr (.inl
    ⟨[⟨.await (.exec turn.argv dir turn.agentName turn), .ok 0⟩, ⟨.await .pause, .ok ()⟩], 0, _,
      rfl, traceE_network.mpr (.inr ⟨.ok 0, .ok (), nofun, rfl, rfl⟩), ?_⟩)⟩
  exact ⟨(), _, rfl, .ok (output, []), _, rfl, (), _, rfl, (), _, rfl, some 0, _, rfl, rfl, rfl⟩

theorem trace_withRoomLock {body : Py Unit} {es : Log} (h : TraceE body es res) :
    TraceE (withRoomLock room body)
      (⟨.sync (.lockTry room), true⟩ :: (es ++ [⟨.sync (.lockRelease room), ()⟩])) res :=
  ⟨true, _, rfl, traceE_finallyDo.mpr ⟨es, _, rfl, h, trace_perform.mpr rfl⟩⟩

theorem trace_attempt {run : Py (Int × Str)} {rest : Time → RunnerResult → Py Unit}
    {during after : Log} {start : Time} (hrun : TraceE run during out)
    (hrest : TraceE (rest start out) after res) :
    TraceE (do
      let start ← sync .utcnow
      let out ← Coro.attempt run
      rest start out) (⟨.sync .utcnow, start⟩ :: (during ++ after)) res :=
  traceE_sync_bind.mpr ⟨start, _, rfl, traceE_bind.mpr (.inl
    ⟨during, out, after, rfl, traceE_attempt.mpr ⟨out, hrun, rfl⟩, hrest⟩)⟩

/-- A log without posts says nothing. -/
theorem not_spoke {es : Log} (h : ∀ c ∈ es, c.eff.Postless) : ¬ Spoke room root es := by
  rintro ⟨before, body, reply, e, after, rfl, -⟩
  exact h ⟨.await (.roomSend room body reply), .ok e⟩ (by simp)

/-- A log in which nothing is said after the runner's call. -/
theorem not_endsWithWord (before after : Log) {during : Log} {path : Py Unit}
    {runner : Py (Int × Str)} (hpath : TraceE path (before ++ during ++ after) res)
    (hrun : TraceE runner during out)
    (hcalm : ∀ c ∈ before ++ during ++ after, Calm c) (hafter : ∀ c ∈ after, c.eff.Postless) :
    ¬ EndsWithWord path runner room root out :=
  fun h => not_spoke hafter (h before during after res hpath hrun hcalm).1

/-- The log of a reply up to the lock. -/
def replyPrelude (args : HandlerArgs) (row : SessionRow) : Log :=
  [⟨.await (.roomSend args.roomId (lit "Resuming... (session " ++ row.sessionId.short ++ lit ")")
      ((some args.event.eventId).filter (· ≠ []))), .ok (lit "$ack")⟩, ⟨.await .pause, .ok ()⟩,
    ⟨.sync (.execute (.registerAlias (lit "$ack") row.threadRootId)), .ok ()⟩,
    ⟨.sync .commit, .ok ()⟩, ⟨.sync .registryEnabled, false⟩]

theorem trace_handleReply {es : Log}
    (h : TraceE (replyTurn args message row (lit "$ack")) es res) :
    TraceE (handleReply args message row) (replyPrelude args row ++
      ⟨.sync (.lockTry args.roomId), true⟩ ::
        (es ++ [⟨.sync (.lockRelease args.roomId), ()⟩])) res := by
  refine traceE_bind.mpr (.inl ⟨[_, _], lit "$ack", _, rfl,
    traceE_network.mpr (.inr ⟨.ok _, .ok (), nofun, rfl, rfl⟩), ?_⟩)
  refine traceE_bind.mpr (.inl ⟨[_, _], (), _, rfl,
    ⟨.ok (), _, rfl, .ok (), _, rfl, rfl, rfl⟩, ?_⟩)
  exact traceE_bind.mpr (.inl ⟨[_], (), _, rfl, ⟨false, _, rfl, rfl, rfl⟩, trace_withRoomLock h⟩)

/-- The log of the use of a session. -/
def touched (root : EventId) : Log :=
  [⟨.sync .time, 0⟩, ⟨.sync (.execute (.touchSession root 0)), .ok ()⟩, ⟨.sync .commit, .ok ()⟩]

/-- A response that cannot be cut raises. -/
theorem trace_postResponse {output : Str} {session : SessionId} {mention : UserId} {maxLen : Nat}
    {target : EventId} {action : Str} {x : Exn}
    (h : splitOnParagraphs (output.orElse (lit "(no output)")) maxLen = .error x) :
    TraceE (postResponse room output 0 session mention maxLen target action root) []
      (.error x) := by
  rw [postResponse, if_neg (by decide), h]
  exact ⟨rfl, rfl⟩

theorem trace_touched {f : Unit → Py Unit} {es : Log} (h : TraceE (f ()) es res) :
    TraceE (Store.touchSession root >>= f) (touched root ++ es) res :=
  traceE_bind.mpr (.inl ⟨touched root, (), es, rfl,
    ⟨0, _, rfl, .ok (), _, rfl, .ok (), _, rfl, rfl, rfl⟩, h⟩)

/-- A reply does not report such an outcome. -/
theorem not_endsWithWord_reply
    {x : Exn} (htimeout : x ≠ .timeoutError) (hcancelled : x ≠ .cancelledError) :
    ¬ EndsWithWord (handleReply args message row)
      (callFor (replyOf args message row)
        (runIn args.projectDir args.subprocessTimeoutSeconds (replyOf args message row)))
      args.roomId row.threadRootId (.error x) := by
  have hturn : TraceE (replyTurn args message row (lit "$ack")) (⟨.sync .utcnow, 0⟩ ::
      (failedRun (replyOf args message row) args.projectDir x ++ [])) (.error x) := by
    refine trace_attempt (trace_failedRun hcancelled) ?_
    cases x <;> first | exact absurd rfl htimeout | exact ⟨rfl, rfl⟩
  have hpath : TraceE (handleReply args message row)
      (replyPrelude args row ++ [⟨.sync (.lockTry args.roomId), true⟩, ⟨.sync .utcnow, 0⟩] ++
        failedRun (replyOf args message row) args.projectDir x ++
        [⟨.sync (.lockRelease args.roomId), ()⟩]) (.error x) := by
    simpa using trace_handleReply hturn
  refine not_endsWithWord _ _ hpath (trace_failedRun hcancelled) ?_ ?_
  · simp [replyPrelude, failedRun, Calm, lit]
  · simp [Eff.Postless]

/-- A reply does not post an output that cannot be cut. -/
theorem not_endsWithWord_reply_output {output : Str} {x : Exn}
    (h : splitOnParagraphs (output.orElse (lit "(no output)")) args.maxMessageLength = .error x) :
    ¬ EndsWithWord (handleReply args message row)
      (callFor (replyOf args message row)
        (runIn args.projectDir args.subprocessTimeoutSeconds (replyOf args message row)))
      args.roomId row.threadRootId (.ok (0, output)) := by
  have hturn : TraceE (replyTurn args message row (lit "$ack")) (⟨.sync .utcnow, 0⟩ ::
      (goodRun (replyOf args message row) args.projectDir args.subprocessTimeoutSeconds output ++
        (touched row.threadRootId ++ []))) (.error x) :=
    trace_attempt trace_goodRun
      (trace_touched (traceE_bind.mpr (.inr ⟨x, trace_postResponse h, rfl⟩)))
  have hpath : TraceE (handleReply args message row)
      (replyPrelude args row ++ [⟨.sync (.lockTry args.roomId), true⟩, ⟨.sync .utcnow, 0⟩] ++
        goodRun (replyOf args message row) args.projectDir args.subprocessTimeoutSeconds output ++
        (touched row.threadRootId ++ [⟨.sync (.lockRelease args.roomId), ()⟩])) (.error x) := by
    simpa using trace_handleReply hturn
  refine not_endsWithWord _ _ hpath trace_goodRun ?_ ?_
  · simp [replyPrelude, goodRun, touched, Calm, lit]
  · simp [touched, Eff.Postless]

/-- The log of a new session up to the clock reading of its turn. -/
def spawnPrelude (args : HandlerArgs) (session : SessionId) : Log :=
  [⟨.sync .time, secondsToTime 100⟩, ⟨.sync (.lastSpawnGet args.roomId), none⟩,
    ⟨.sync (.lastSpawnSet args.roomId (secondsToTime 100)), ()⟩, ⟨.sync .uuid4, session⟩,
    ⟨.await (.roomSend args.roomId (lit "Working... (session " ++ session.short ++ lit ")")
      ((some args.event.eventId).filter (· ≠ []))), .ok (lit "$ack")⟩, ⟨.await .pause, .ok ()⟩,
    ⟨.sync .time, 0⟩,
    ⟨.sync (.execute (.insertSession args.event.eventId args.roomId args.agentName session 0)),
      .ok ()⟩, ⟨.sync .commit, .ok ()⟩,
    ⟨.sync (.execute (.registerAlias (lit "$ack") args.event.eventId)), .ok ()⟩,
    ⟨.sync .commit, .ok ()⟩, ⟨.sync .registryEnabled, false⟩]

/-- The turn of a new session, up to what it does after the runner's call. -/
theorem spawnTurn_eq (args : HandlerArgs) (message : Str) :
    ∃ rest : SessionId → EventId → Time → RunnerResult → Py Unit,
      spawnTurn args message = (do
        let session ← sync .uuid4
        let ack ← postMessage args.roomId (lit "Working... (session " ++ session.short ++ lit ")")
          (some args.event.eventId)
        Store.insertSession args.event.eventId args.roomId args.agentName session
        Store.registerAlias ack args.event.eventId
        registerSession session args.agentName args.roomId args.projectDir args.scopedMcpUrl
        let start ← sync .utcnow
        let out ← Coro.attempt (callFor (newOf args message session)
          (runIn args.projectDir args.subprocessTimeoutSeconds (newOf args message session)))
        rest session ack start out) ∧
      (∀ session ack start x, x ≠ .timeoutError → rest session ack start (.error x) = throw x) ∧
      ∀ session ack start rc output, rest session ack start (.ok (rc, output)) = (do
        postResponse args.roomId output rc session args.mentionUser args.maxMessageLength
          (ack.orElse args.event.eventId) (lit "spawn") args.event.eventId
        recordPendingIfGated args.agentName args.roomId session args.event.eventId start) := by
  refine ⟨_, rfl, fun session ack start x hx => ?_, fun _ _ _ _ _ => rfl⟩
  cases x <;> first | exact absurd rfl hx | rfl

/-- What the message at the root of a room does, from what it does after the runner's call. -/
theorem trace_rootTurn {session : SessionId} {during after : Log}
    {rest : SessionId → EventId → Time → RunnerResult → Py Unit}
    (hspawn : spawnTurn args message = (do
        let session ← sync .uuid4
        let ack ← postMessage args.roomId (lit "Working... (session " ++ session.short ++ lit ")")
          (some args.event.eventId)
        Store.insertSession args.event.eventId args.roomId args.agentName session
        Store.registerAlias ack args.event.eventId
        registerSession session args.agentName args.roomId args.projectDir args.scopedMcpUrl
        let start ← sync .utcnow
        let out ← Coro.attempt (callFor (newOf args message session)
          (runIn args.projectDir args.subprocessTimeoutSeconds (newOf args message session)))
        rest session ack start out))
    (hrun : TraceE (callFor (newOf args message session)
      (runIn args.projectDir args.subprocessTimeoutSeconds (newOf args message session))) during
        out)
    (hrest : TraceE (rest session (lit "$ack") 0 out) after res) :
    TraceE (withRoomLock args.roomId (rootTurn args message))
      (⟨.sync (.lockTry args.roomId), true⟩ :: spawnPrelude args session ++
        [⟨.sync .utcnow, 0⟩] ++ during ++
        (after ++ [⟨.sync (.lockRelease args.roomId), ()⟩])) res := by
  have hspawned : TraceE (spawnTurn args message)
      ((spawnPrelude args session).drop 3 ++ ⟨.sync .utcnow, 0⟩ :: (during ++ after)) res := by
    rw [hspawn]
    refine ⟨session, _, rfl, traceE_bind.mpr (.inl ⟨[_, _], lit "$ack", _, rfl,
      traceE_network.mpr (.inr ⟨.ok _, .ok (), nofun, rfl, rfl⟩), ?_⟩)⟩
    refine traceE_bind.mpr (.inl ⟨[_, _, _], (), _, rfl,
      ⟨0, _, rfl, .ok (), _, rfl, .ok (), _, rfl, rfl, rfl⟩, ?_⟩)
    refine traceE_bind.mpr (.inl ⟨[_, _], (), _, rfl,
      ⟨.ok (), _, rfl, .ok (), _, rfl, rfl, rfl⟩, ?_⟩)
    exact traceE_bind.mpr (.inl ⟨[_], (), _, rfl, ⟨false, _, rfl, rfl, rfl⟩,
      trace_attempt hrun hrest⟩)
  have hroot : TraceE (rootTurn args message)
      (spawnPrelude args session ++ ⟨.sync .utcnow, 0⟩ :: (during ++ after)) res := by
    refine traceE_sync_bind.mpr ⟨secondsToTime 100, _, rfl,
      traceE_sync_bind.mpr ⟨none, _, rfl, ?_⟩⟩
    -- the room has had no session in the last seconds
    have hlate : ¬ secondsToTime 100 - (none : Option Time).getD 0 <
        secondsToTime RATE_LIMIT_SECONDS := by decide
    rw [if_neg hlate]
    exact traceE_sync_bind.mpr ⟨(), _, rfl, hspawned⟩
  simpa using trace_withRoomLock hroot

/-- A new session does not report such an outcome. -/
theorem not_endsWithWord_root {session : SessionId}
    {x : Exn} (htimeout : x ≠ .timeoutError) (hcancelled : x ≠ .cancelledError) :
    ¬ EndsWithWord (withRoomLock args.roomId (rootTurn args message))
      (callFor (newOf args message session)
        (runIn args.projectDir args.subprocessTimeoutSeconds (newOf args message session)))
      args.roomId args.event.eventId (.error x) := by
  obtain ⟨rest, hspawn, herror, -⟩ := spawnTurn_eq args message
  have hrest : TraceE (rest session (lit "$ack") 0 (.error x)) [] (.error x) := by
    rw [herror session _ 0 x htimeout]
    exact ⟨rfl, rfl⟩
  refine not_endsWithWord _ _ (trace_rootTurn hspawn (trace_failedRun hcancelled) hrest)
    (trace_failedRun hcancelled) ?_ ?_
  · simp [spawnPrelude, failedRun, Calm, lit]
  · simp [Eff.Postless]

/-- A new session does not post an output that cannot be cut. -/
theorem not_endsWithWord_root_output {session : SessionId} {output : Str} {x : Exn}
    (h : splitOnParagraphs (output.orElse (lit "(no output)")) args.maxMessageLength = .error x) :
    ¬ EndsWithWord (withRoomLock args.roomId (rootTurn args message))
      (callFor (newOf args message session)
        (runIn args.projectDir args.subprocessTimeoutSeconds (newOf args message session)))
      args.roomId args.event.eventId (.ok (0, output)) := by
  obtain ⟨rest, hspawn, -, hok⟩ := spawnTurn_eq args message
  have hrest : TraceE (rest session (lit "$ack") 0 (.ok (0, output))) [] (.error x) := by
    rw [hok]
    exact traceE_bind.mpr (.inr ⟨x, trace_postResponse h, rfl⟩)
  refine not_endsWithWord _ _ (trace_rootTurn hspawn trace_goodRun hrest) trace_goodRun ?_ ?_
  · simp [spawnPrelude, goodRun, Calm, lit]
  · simp [Eff.Postless]

/-- An approval does not post an output that cannot be cut. -/
theorem not_endsWithWord_approval {config : MatrixDispatcher.Config} {pending : PendingRow}
    {agent : AgentName} {cfg : AgentCfg}
    (hroom : config.roomToAgent pending.roomId = some (agent, cfg))
    (hdir : cfg.projectDir = some dir) {output : Str} {x : Exn}
    (h : splitOnParagraphs (output.orElse (lit "(no output)"))
      (config.maxMessageLength.getD 4000) = .error x) :
    ¬ EndsWithWord (resumeOnApproval config pending)
      (callFor (approvedOf pending agent) (runIn dir cfg.timeout (approvedOf pending agent)))
      pending.roomId pending.threadRootId (.ok (0, output)) := by
  -- The turn runs well, and the output cannot be cut: nothing is posted.
  have hturn : TraceE (resumeTurn config pending dir agent cfg.timeout)
      (⟨.sync .utcnow, 0⟩ :: (goodRun (approvedOf pending agent) dir cfg.timeout output ++
        (touched pending.threadRootId ++ []))) (.error x) :=
    trace_attempt trace_goodRun
      (trace_touched (traceE_bind.mpr (.inr ⟨x, trace_postResponse h, rfl⟩)))
  have hpath : TraceE (resumeOnApproval config pending)
      (deletion pending.approvalId .claim ++
        [⟨.sync (.lockTry pending.roomId), true⟩, ⟨.sync .utcnow, 0⟩] ++
        goodRun (approvedOf pending agent) dir cfg.timeout output ++
        (touched pending.threadRootId ++ [⟨.sync (.lockRelease pending.roomId), ()⟩]))
      (.error x) := by
    rw [resumeOnApproval]
    simp only [hroom, hdir]
    refine traceE_bind.mpr (.inl ⟨deletion pending.approvalId .claim, (), _, ?_,
      ⟨.ok (), _, rfl, .ok (), _, rfl, rfl, rfl⟩, trace_withRoomLock hturn⟩)
    simp
  refine not_endsWithWord _ _ hpath trace_goodRun ?_ ?_
  · simp [deletion, goodRun, touched, Calm]
  · simp [touched, Eff.Postless]

end

/-! ## All paths -/

/-- A text that no chunk can be cut of raises. -/
theorem exists_error_of_not_cuttable {maxLen : Nat} {out : RunnerResult}
    (h : ¬ Cuttable maxLen out) : ∃ output x, out = .ok (0, output) ∧
      splitOnParagraphs (output.orElse (lit "(no output)")) maxLen = .error x := by
  rw [Cuttable, not_forall] at h
  obtain ⟨output, h⟩ := h
  rw [Classical.not_imp, not_exists] at h
  obtain ⟨hout, hnone⟩ := h
  cases hsplit : splitOnParagraphs (output.orElse (lit "(no output)")) maxLen with
  | error x => exact ⟨output, x, hout, hsplit⟩
  | ok chunks => exact absurd hsplit (hnone chunks)

/-- An outcome is reported unless its output cannot be cut, or it is an exception other than a
timeout. -/
theorem reported_of_not {maxLen : Nat} {out : RunnerResult}
    (hcut : ∀ output x, out = .ok (0, output) →
      splitOnParagraphs (output.orElse (lit "(no output)")) maxLen = .error x → False)
    (htimeout : ∀ x, out = .error x → x ≠ .timeoutError → False) : Reported maxLen out := by
  refine ⟨by_contra fun hnot => ?_, fun x hx => by_contra fun hne => htimeout x hx hne⟩
  obtain ⟨output, x, hout, hsplit⟩ := exists_error_of_not_cuttable hnot
  exact hcut output x hout hsplit

/-- The paths of replies and new sessions end with a word on the outcomes that they report, the
path of approvals on all outcomes whose output can be cut, and on no others. -/
theorem turns_speak_iff (args : HandlerArgs) (message : Str) (row : SessionRow)
    (config : MatrixDispatcher.Config) (pending : PendingRow) {agent : AgentName} {cfg : AgentCfg}
    {dir : Str} (hroom : config.roomToAgent pending.roomId = some (agent, cfg))
    (hdir : cfg.projectDir = some dir) {out : RunnerResult}
    (hout : ∀ x, out = .error x → x.isException = true) :
    (EndsWithWord (handleReply args message row)
        (resumeClaude row.sessionId message args.projectDir args.agentName args.roomId
          args.subprocessTimeoutSeconds row.threadRootId none)
        args.roomId row.threadRootId out ↔ Reported args.maxMessageLength out) ∧
      (∀ session, EndsWithWord (withRoomLock args.roomId (rootTurn args message))
        (spawnClaude session (spawnPrompt args.agentName message) args.projectDir args.agentName
          args.roomId args.subprocessTimeoutSeconds args.event.eventId)
        args.roomId args.event.eventId out ↔ Reported args.maxMessageLength out) ∧
      (EndsWithWord (resumeOnApproval config pending)
        (resumeClaude pending.sessionId (nudge pending.toolName pending.approvalId) dir agent
          pending.roomId cfg.timeout pending.threadRootId (some pending.approvalId))
        pending.roomId pending.threadRootId out ↔
          Cuttable (config.maxMessageLength.getD 4000) out) := by
  -- A runner that is not cancelled ends with an `Exception` at worst.
  have hcancelled : out ≠ .error .cancelledError := fun heq => nomatch hout _ heq
  have hruns : ∀ {dir timeout} turn, PerformsE Idle (runIn dir timeout turn) :=
    fun _ => idle_runClaude
  have hreply : resumeClaude row.sessionId message args.projectDir args.agentName args.roomId
      args.subprocessTimeoutSeconds row.threadRootId none = callFor (replyOf args message row)
        (runIn args.projectDir args.subprocessTimeoutSeconds (replyOf args message row)) := rfl
  have hnew : ∀ session, spawnClaude session (spawnPrompt args.agentName message) args.projectDir
      args.agentName args.roomId args.subprocessTimeoutSeconds args.event.eventId =
        callFor (newOf args message session)
          (runIn args.projectDir args.subprocessTimeoutSeconds (newOf args message session)) :=
    fun _ => rfl
  have happroved : resumeClaude pending.sessionId (nudge pending.toolName pending.approvalId) dir
      agent pending.roomId cfg.timeout pending.threadRootId (some pending.approvalId) =
        callFor (approvedOf pending agent)
          (runIn dir cfg.timeout (approvedOf pending agent)) := rfl
  rw [hreply, happroved]
  -- For each path: an outcome that is not reported has a run without a word, and every other one
  -- ends with a word.
  refine ⟨⟨fun h => ?_, fun h => ?_⟩, fun session => ?_, ⟨fun h => ?_, fun h => ?_⟩⟩
  · refine reported_of_not (fun output x hout' hx => ?_) fun x hout' hx => ?_
    · subst hout'
      exact not_endsWithWord_reply_output hx h
    · subst hout'
      exact not_endsWithWord_reply hx (fun heq => hcancelled (congrArg _ heq)) h
  · exact endsWithWord_of_calledIn (replyOf args message row) hruns
      fun es res => calledIn_handleReply h
  · rw [hnew session]
    refine ⟨fun h => ?_, fun h => ?_⟩
    · refine reported_of_not (fun output x hout' hx => ?_) fun x hout' hx => ?_
      · subst hout'
        exact not_endsWithWord_root_output hx h
      · subst hout'
        exact not_endsWithWord_root hx (fun heq => hcancelled (congrArg _ heq)) h
    · exact endsWithWord_of_calledIn (newOf args message session) hruns
        fun es res => calledIn_rootTurn h
  · by_contra hcut
    obtain ⟨output, x, rfl, hx⟩ := exists_error_of_not_cuttable hcut
    exact not_endsWithWord_approval hroom hdir hx h
  · exact endsWithWord_of_calledIn (approvedOf pending agent) hruns
      fun es res => calledIn_resumeOnApproval hroom hdir hcancelled h

/-- A reply in the room of the one agent. -/
def replyArgs : HandlerArgs :=
  messageArgs (lit "$reply") (lit "go on") .null

/-- The session that it continues. -/
def replySession : SessionRow := ⟨lit "$root", lit "!room", lit "agent", lit "s", 0, 0⟩

/-- An approval of that session. -/
def replyPending : PendingRow :=
  ⟨lit "a", lit "$root", lit "s", lit "!room", lit "tool", 0⟩

theorem turns_speak_failing :
    (EndsWithWord (handleReply replyArgs (lit "go on") replySession)
        (resumeClaude (lit "s") (lit "go on") (lit "/p") (lit "agent") (lit "!room") 300
          (lit "$root") none)
        (lit "!room") (lit "$root") (.error .osError) ↔ Reported 4000 (.error .osError)) ∧
      (∀ session, EndsWithWord (withRoomLock (lit "!room") (rootTurn replyArgs (lit "go on")))
        (spawnClaude session (spawnPrompt (lit "agent") (lit "go on")) (lit "/p") (lit "agent")
          (lit "!room") 300 (lit "$reply"))
        (lit "!room") (lit "$reply") (.error .osError) ↔ Reported 4000 (.error .osError)) ∧
      (EndsWithWord (resumeOnApproval oneAgent replyPending)
        (resumeClaude (lit "s") (nudge (lit "tool") (lit "a")) (lit "/p") (lit "agent")
          (lit "!room") 300 (lit "$root") (some (lit "a")))
        (lit "!room") (lit "$root") (.error .osError) ↔ Cuttable 4000 (.error .osError)) :=
  have hroom : oneAgent.roomToAgent replyPending.roomId =
      some (lit "agent", ⟨lit "!room", some (lit "/p"), none, none⟩) := rfl
  have hout : ∀ x, (.error .osError : RunnerResult) = .error x → x.isException = true :=
    fun _ h => Except.error.inj h ▸ rfl
  turns_speak_iff replyArgs (lit "go on") replySession oneAgent replyPending hroom rfl hout

/-- A reply whose subprocess cannot be started: nothing follows the acknowledgement. -/
theorem reply_unanswered :
    ¬ EndsWithWord (handleReply replyArgs (lit "go on") replySession)
      (resumeClaude (lit "s") (lit "go on") (lit "/p") (lit "agent") (lit "!room") 300
        (lit "$root") none)
      (lit "!room") (lit "$root") (.error .osError) :=
  have h : Exn.osError ≠ .timeoutError ∧ Exn.osError ≠ .cancelledError := by decide
  @not_endsWithWord_reply replyArgs (lit "go on") replySession .osError h.1 h.2

end MatrixDispatcher
