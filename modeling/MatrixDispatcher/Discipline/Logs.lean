import MatrixDispatcher.Coro.Log
import MatrixDispatcher.Discipline.Plain

/-!
# Logs of the dispatcher's programs

The rules of `Coro.Logging` for the ways in which the dispatcher performs effects.

* `Log` — the effects of a program with their responses.
* `Logging.network` — the rule for operations of other programs.
* `posts` — the messages that a log shows to have been posted.
-/

namespace MatrixDispatcher

open Coro Py

/-- The effects of a program with their responses. -/
abbrev Log := List (Call Eff Eff.Ret)

/-- Any response may come. -/
def anyResponse : Assumption Eff Eff.Ret := fun _ _ _ => True

variable {A : Assumption Eff Eff.Ret} {P : Log → Prop}

/-- An operation of another program, and the wait for its response. -/
theorem Logging.network {e : AwaitEff} {Q Q' : Except Exn e.Val → Log → Prop}
    (h : ∀ l r, P l → A l (.await e) r → Q r (l ++ [⟨.await e, r⟩]))
    (hok : ∀ l res, Q res l → A l (.await .pause) (.ok ()) →
      Q' res (l ++ [⟨.await .pause, .ok ()⟩]))
    (herror : ∀ l res x, Q res l → A l (.await .pause) (.error x) →
      Q' (.error x) (l ++ [⟨.await .pause, .error x⟩]))
    (hcancelled : ∀ l, Q (.error .cancelledError) l → Q' (.error .cancelledError) l) :
    (logging A).Triple P (Py.network e).run Q' := by
  -- After the response there is the landing, which may be cancelled.
  have hpause : ∀ (f : Py e.Val) (res : Except Exn e.Val), f.run = .ret res →
      (logging A).Triple (Q res) (Py.await .pause >>= fun _ => f).run Q' := by
    intro f res hf
    refine Coro.Logging.bind (Q := fun r l => match r with
      | .ok _ => Q' res l
      | .error x => Q' (.error x) l) (Coro.Logging.perform fun l r hl hr => ?_) (fun _ => ?_)
      fun x l => id
    · cases r with
      | ok _ => exact hok l res hl hr
      | error x => exact herror l res x hl hr
    · rw [hf]
      exact Coro.Logging.ret fun _ => id
  refine Coro.Logging.attempt (Coro.Logging.perform h) fun res => ?_
  cases res with
  | ok v => exact hpause (Pure.pure v) (.ok v) rfl
  | error x =>
    cases x with
    | cancelledError => exact Coro.Logging.throw hcancelled
    | _ => exact hpause (throw _) (.error _) rfl

theorem permits_anyResponse (l es : Log) : Permits anyResponse l es := by
  induction es generalizing l with
  | nil => trivial
  | cons c es ih => exact ⟨trivial, ih _⟩

/-- What a triple says of a trace. -/
theorem TraceE.of_triple {α : Type} {p : Py α} {es : Log} {res : Except Exn α}
    {Q : Except Exn α → Log → Prop} (h : TraceE p es res)
    (hQ : (logging anyResponse).Triple (· = []) p.run Q) : Q res es :=
  logging_triple.mp hQ es res h (permits_anyResponse _ _)

/-! ## Traces -/

section

variable {α : Type} {es : Log}

theorem traceE_await {e : AwaitEff} {res : Except Exn e.Val} :
    TraceE (Py.await e) es res ↔ es = [⟨.await e, res⟩] := trace_perform

theorem traceE_execute {s : Stmt} {res : Except Exn s.Ret} :
    TraceE (execute s) es res ↔ es = [⟨.sync (.execute s), res⟩] := trace_perform

theorem traceE_commit {res : Except Exn Unit} :
    TraceE commit es res ↔ es = [⟨.sync .commit, res⟩] := trace_perform

/-- A synchronous effect at the beginning of a program. -/
theorem traceE_sync_bind {e : SyncEff} {f : e.Ret → Py α} {res : Except Exn α} :
    TraceE (sync e >>= f) es res ↔ ∃ r es', es = ⟨.sync e, r⟩ :: es' ∧ TraceE (f r) es' res :=
  Iff.rfl

theorem traceE_now_bind {f : Int → Py α} {res : Except Exn α} :
    TraceE (Store.now >>= f) es res ↔
      ∃ t es', es = ⟨.sync .time, t⟩ :: es' ∧ TraceE (f (Time.seconds t)) es' res :=
  Iff.rfl

/-- A statement at the beginning of a program. -/
theorem traceE_execute_bind {s : Stmt} {f : s.Ret → Py α} {res : Except Exn α}
    (h : TraceE (execute s >>= f) es res) :
    (∃ v es', es = ⟨.sync (.execute s), .ok v⟩ :: es' ∧ TraceE (f v) es' res) ∨
      ∃ x, es = [⟨.sync (.execute s), .error x⟩] ∧ res = .error x := by
  rcases traceE_bind.mp h with ⟨es₁, v, es₂, rfl, hexec, hrest⟩ | ⟨x, hexec, rfl⟩
  · obtain rfl := traceE_execute.mp hexec
    exact .inl ⟨v, es₂, rfl, hrest⟩
  · exact .inr ⟨x, traceE_execute.mp hexec, rfl⟩

/-- An operation of another program: a cancelled task does not wait for its response. -/
theorem traceE_network {e : AwaitEff} {res : Except Exn e.Val} :
    TraceE (network e) es res ↔
      (es = [⟨.await e, .error .cancelledError⟩] ∧ res = .error .cancelledError) ∨
        ∃ r landing, r ≠ .error .cancelledError ∧
          es = [⟨.await e, r⟩, ⟨.await .pause, landing⟩] ∧ res = landing.bind fun _ => r := by
  -- What is left after the response is the landing and the result.
  have hpause : ∀ (q : Py e.Val) (r : Except Exn e.Val), q.run = Coro.ret r →
      ∀ es res, TraceE (do Py.await .pause; q) es res ↔
        ∃ landing, es = [⟨.await .pause, landing⟩] ∧ res = landing.bind fun _ => r := by
    intro q r hq es res
    rw [traceE_bind]
    constructor
    · rintro (⟨es₁, _, es₂, rfl, hp, hrest⟩ | ⟨x, hp, rfl⟩)
      · obtain rfl := traceE_await.mp hp
        rw [TraceE, hq] at hrest
        obtain ⟨rfl, rfl⟩ := hrest
        exact ⟨_, rfl, rfl⟩
      · exact ⟨_, traceE_await.mp hp, rfl⟩
    · rintro ⟨_ | ⟨⟩, rfl, rfl⟩
      · exact .inr ⟨_, traceE_await.mpr rfl, rfl⟩
      · refine .inl ⟨_, (), [], rfl, traceE_await.mpr rfl, ?_⟩
        rw [TraceE, hq]
        exact ⟨rfl, rfl⟩
  rw [network, traceE_bind]
  constructor
  · rintro (⟨es₁, r, es₂, rfl, hp, hrest⟩ | ⟨x, hp, rfl⟩)
    · obtain ⟨_, hawait, heq⟩ := traceE_attempt.mp hp
      cases heq
      obtain rfl := traceE_await.mp hawait
      cases r with
      | ok v =>
        obtain ⟨landing, rfl, rfl⟩ := (hpause (Pure.pure v) (.ok v) rfl _ _).mp hrest
        exact .inr ⟨_, landing, by simp, rfl, rfl⟩
      | error x =>
        cases x with
        | cancelledError =>
          obtain ⟨rfl, rfl⟩ := traceE_throw.mp hrest
          exact .inl ⟨rfl, rfl⟩
        | _ =>
          obtain ⟨landing, rfl, rfl⟩ := (hpause (throw _) (.error _) rfl _ _).mp hrest
          exact .inr ⟨_, landing, by simp, rfl, rfl⟩
    · obtain ⟨_, _, heq⟩ := traceE_attempt.mp hp
      cases heq
  · rintro (⟨rfl, rfl⟩ | ⟨r, landing, hne, rfl, rfl⟩)
    · exact .inl ⟨_, _, [], rfl, traceE_attempt.mpr ⟨_, traceE_await.mpr rfl, rfl⟩,
        traceE_throw.mpr ⟨rfl, rfl⟩⟩
    · refine .inl ⟨[⟨.await e, r⟩], r, [⟨.await .pause, landing⟩], rfl,
        traceE_attempt.mpr ⟨_, traceE_await.mpr rfl, rfl⟩, ?_⟩
      cases r with
      | ok v => exact (hpause (Pure.pure v) (.ok v) rfl _ _).mpr ⟨landing, rfl, rfl⟩
      | error x =>
        cases x with
        | cancelledError => exact absurd rfl hne
        | _ => exact (hpause (throw _) (.error _) rfl _ _).mpr ⟨landing, rfl, rfl⟩

end

/-! ## Posts -/

/-- A message, and the event that it replies to. -/
structure Post where
  roomId : RoomId
  body : Str
  replyTo : Option EventId
  deriving DecidableEq

/-- The message of a post that was made. -/
def postOf : Call Eff Eff.Ret → Option Post
  | ⟨.await (.roomSend room body reply), .ok _⟩ => some ⟨room, body, reply⟩
  | _ => none

def posts (l : Log) : List Post := l.filterMap postOf

theorem posts_append (l l' : Log) : posts (l ++ l') = posts l ++ posts l' :=
  List.filterMap_append

/-- The effect posts nothing. -/
def Eff.Postless : Eff → Prop
  | .await (.roomSend _ _ _) => False
  | _ => True

theorem postOf_eq_none {e : Eff} (he : e.Postless) (r : e.Ret) : postOf ⟨e, r⟩ = none := by
  unfold postOf
  split
  · next heq =>
    cases heq
    cases he
  · rfl

theorem posts_of_postless {es : Log} (h : ∀ c ∈ es, c.eff.Postless) : posts es = [] :=
  List.filterMap_eq_nil_iff.mpr fun c hc => postOf_eq_none (h c hc) c.response

theorem posts_snoc {l : Log} {e : Eff} (he : e.Postless) (r : e.Ret) :
    posts (l ++ [⟨e, r⟩]) = posts l := by
  have hlast : posts [⟨e, r⟩] = [] := posts_of_postless fun c hc => by
    rwa [List.mem_singleton.mp hc]
  rw [posts_append, hlast, List.append_nil]

theorem postless_registerAlias {e root : EventId} :
    PerformsE Eff.Postless (Store.registerAlias e root) := by
  rw [Store.registerAlias]
  split
  · exact performsE_pure _
  · exact performsE_bind (performsE_execute trivial) fun _ => performsE_commit trivial

variable {sent : List Post} {room : RoomId} {body : Str} {reply : Option EventId}

/-- A post is made, or raises. -/
theorem logs_post :
    (logging anyResponse).Triple (fun l => posts l = sent) (postMessage room body reply).run
      fun res l => posts l = sent ++ [⟨room, body, reply.filter (· ≠ [])⟩] ∨
        (posts l = sent ∧ ∃ x, res = .error x) := by
  refine Logging.network (Q := fun res l =>
      posts l = sent ++ [⟨room, body, reply.filter (· ≠ [])⟩] ∨
        (posts l = sent ∧ ∃ x, res = .error x))
    (fun l r hl _ => ?_) (fun l res hl _ => ?_) (fun l res x hl _ => ?_) fun l hl => hl
  · cases r with
    | ok e =>
      rw [posts_append, hl]
      exact .inl rfl
    | error x =>
      rw [posts_append, hl]
      exact .inr ⟨List.append_nil _, x, rfl⟩
  · have hpause : (Eff.await .pause).Postless := trivial
    rwa [posts_snoc hpause]
  · have hpause : (Eff.await .pause).Postless := trivial
    rw [posts_snoc hpause]
    exact hl.imp id fun h => ⟨h.1, x, rfl⟩

/-- What posts nothing leaves the posts as they are. -/
theorem logs_nopost {α : Type} {p : Py α} (hp : PerformsE Eff.Postless p) :
    (logging anyResponse).Triple (fun l => posts l = sent) p.run fun _ l => posts l = sent :=
  Logging.performs hp fun _ _ r he hl _ => by rwa [posts_snoc he]

/-- A notice in a thread is posted once, unless that raises. -/
theorem logs_postAlias {root : EventId} :
    (logging anyResponse).Triple (fun l => posts l = sent)
      (do let e ← postMessage room body reply; Store.registerAlias e root : Py Unit).run
      fun res l => posts l = sent ++ [⟨room, body, reply.filter (· ≠ [])⟩] ∨
        (posts l = sent ∧ ∃ x, res = .error x) := by
  refine Logging.bind logs_post (fun e => ?_) fun x _ hl => hl.imp id fun h => ⟨h.1, x, rfl⟩
  refine Arena.Triple.pre (fun l hl => hl.resolve_right fun h => nomatch h.2) ?_
  exact (logs_nopost postless_registerAlias).mono fun _ _ => .inl

end MatrixDispatcher
