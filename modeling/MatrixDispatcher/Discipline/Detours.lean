import MatrixDispatcher.Coro.Detour
import MatrixDispatcher.Discipline.Deeds
import MatrixDispatcher.Runtime.Bare

/-!
# The detours of handlers

A handler with an enabled registry makes detours: it calls the registry, whatever it answers, and
goes on as without it.

* `registryDetours` — the question, the calls, and what a handler does between them.
* `stays_handleEvent` — with the registry beside itself without it.
-/

namespace MatrixDispatcher

open Coro Py

/-! ## The effects -/

/-- The call of the registry did not end in a cancellation. -/
def copes : (e : Eff) → e.Ret → Prop
  | .await _, r => r ≠ .error .cancelledError
  | _, _ => True

/-- The call of the registry that a handler awaits. -/
def Eff.callsRegistry : Eff → Bool
  | .await (.upsertSession _ _ _ _ _) | .await (.fetchPending _ _) | .await (.linkSession _ _) =>
    true
  | _ => false

/-- What a handler does on a detour between two calls. -/
def OnDetour : Eff → Prop
  | .sync .registryEnabled | .sync .time | .sync .commit
  | .sync (.execute (.insertPendingApproval _)) => True
  | _ => False

/-- What is done on a detour is an effect of a handler that may be left out. -/
theorem besides_of_onDetour {e : Eff} (h : OnDetour e) : HandlerEff e ∧ e.besides = true := by
  cases e with
  | sync e =>
    cases e with
    | execute s => cases s <;> first | exact ⟨trivial, rfl⟩ | cases h
    | _ => first | exact ⟨rfl, rfl⟩ | cases h
  | await e => cases h

/-- So is a call of the registry. -/
theorem besides_of_call {e : Eff} (h : e.callsRegistry = true) :
    HandlerEff e ∧ e.besides = true := by
  cases e with
  | sync e => cases h
  | await e => cases e <;> first | exact ⟨trivial, rfl⟩ | exact ⟨rfl, rfl⟩ | cases h

/-- The detours of a handler: it asks whether the registry is enabled, and calls it. -/
def registryDetours : Detours Eff Eff.Ret where
  outside e := HandlerEff e ∧ Offline e
  ask := .sync .registryEnabled
  no := false
  outside_ne := by
    rintro _ ⟨-, h⟩ rfl
    cases h
  quick := OnDetour
  call := Eff.callsRegistry
  copes := copes
  land := .await .pause
  landed := .ok ()

/-- A handler with the registry beside one without it. -/
abbrev Beside {α : Type} (P : Except Exn α → Except Exn α → Prop) (p q : Py α) : Prop :=
  registryDetours.Beside P .outside p.run q.run

/-- `Local` effects are outside of detours. -/
theorem outside_of_local {e : Eff} (h : Local e) : registryDetours.outside e := by
  obtain ⟨hplain, hregisters⟩ := h
  refine ⟨.of_turn (.of_plain hplain), ?_⟩
  cases e with
  | sync e =>
    cases e with
    | execute s => cases s <;> first | rfl | cases hplain
    | _ => first | rfl | (cases hregisters; done) | cases hplain
  | await e => cases e <;> first | rfl | (cases hregisters; done) | cases hplain

/-- What `_run_claude` does is outside of detours. -/
theorem outside_of_run {argv : List Str} {dir : Str} {agent : AgentName} {turn : Turn} {e : Eff}
    (h : RunEff argv dir agent turn e) : registryDetours.outside e := by
  refine ⟨.of_turn (.of_busy (.of_run h)), ?_⟩
  unfold RunEff at h
  split at h <;> first | rfl | cases h

section

variable {α : Type} {P : Except Exn α → Except Exn α → Prop}

/-- A program of `Local` effects makes no detour. -/
theorem outside_local {p : Py α} (hp : PerformsE Local p) : PerformsE registryDetours.outside p :=
  hp.mono fun _ => outside_of_local

/-- A program that is still makes no detour. -/
theorem outside_still {p : Py α} (hp : PerformsE Still p) : PerformsE registryDetours.outside p :=
  outside_local (local_still hp)

/-- On a detour, a call that fails open. -/
theorem beside_failOpen {e : AwaitEff} {default : e.Val}
    {f : Except Exn e.Val → Coro Eff Eff.Ret α} {q : Coro Eff Eff.Ret α} {P : α → α → Prop}
    (he : (Eff.await e).callsRegistry = true)
    (h : ∀ v, registryDetours.Beside P .inside (f (.ok v)) q) :
    registryDetours.Beside P .inside ((Registry.failOpen default (network e)).run >>= f) q := by
  refine .quick (e := Eff.sync .registryEnabled) trivial fun enabled => ?_
  cases enabled with
  | false => exact h default
  | true =>
    refine .call (e := Eff.await e) he fun r hr => ?_
    have hr : r ≠ .error .cancelledError := hr
    cases r with
    | ok v => exact .land (h v)
    | error x =>
      cases x with
      | cancelledError => exact absurd rfl hr
      | _ => exact .land (h default)

/-- The registration of a session. -/
theorem beside_registerSession {session : SessionId} {agent : AgentName} {room : RoomId}
    {dir url : Str} : Beside Eq (registerSession session agent room dir url)
      (registerSession session agent room dir url) := by
  refine .ask fun enabled => ?_
  cases enabled with
  | false => exact .passed (.ret rfl)
  | true =>
    have h : registryDetours.Beside Eq .inside ((Registry.upsertSession session agent room dir
        (if url = [] then none else some url)).run >>= pure) (pure (.ok ())) :=
      beside_failOpen rfl fun _ => .passed (.ret rfl)
    rwa [bind_pure] at h

/-- What follows a turn: the approval that it waits for is recorded. -/
theorem beside_recordPendingIfGated {agent : AgentName} {room : RoomId} {session : SessionId}
    {root : EventId} {start : Time} :
    Beside (fun _ _ => True) (recordPendingIfGated agent room session root start)
      (recordPendingIfGated agent room session root start) := by
  refine .op (e := Eff.sync (.mark (.recording room session root))) ⟨trivial, rfl⟩ fun _ => ?_
  refine .ask fun enabled => ?_
  cases enabled with
  | false => exact .passed (.ret trivial)
  | true =>
    refine beside_failOpen (e := .fetchPending agent start) rfl fun found => ?_
    cases found with
    | none => exact .passed (.ret trivial)
    | some pending =>
      refine .quick (e := Eff.sync .time) trivial fun t => ?_
      refine .quick (e := Eff.sync (.execute _)) trivial fun r => ?_
      cases r with
      | error x => exact .passed (.ret trivial)
      | ok _ =>
        refine .quick (e := Eff.sync .commit) trivial fun r => ?_
        cases r with
        | error x => exact .passed (.ret trivial)
        | ok _ =>
          have h : registryDetours.Beside (fun _ _ => True) .inside
              ((Registry.linkSession pending.approvalId session).run >>= pure)
              (pure (Except.ok ()) : Coro Eff Eff.Ret (Except Exn Unit)) :=
            beside_failOpen rfl fun _ => .passed (.ret trivial)
          rw [bind_pure] at h
          exact h

end

/-! ## Handlers beside themselves -/

/-- The program with the registry beside itself without it, whatever the two return. -/
abbrev Stays {α : Type} (p : Py α) : Prop := Beside (fun _ _ => True) p p

section

variable {α β : Type} {p : Py α} {f : α → Py β}

/-- A program without detours goes on the same with and without the registry. -/
theorem stays_outside (hp : PerformsE registryDetours.outside p) : Stays p :=
  (Detours.Beside.refl (p := p.run) hp).mono fun _ _ _ => trivial

/-- A program of `Local` effects stays beside itself. -/
theorem stays_local (hp : PerformsE Local p) : Stays p := stays_outside (outside_local hp)

/-- A program without a detour, then one that stays beside itself. -/
theorem stays_bind (hp : PerformsE registryDetours.outside p) (h : ∀ a, Stays (f a)) :
    Stays (p >>= f) :=
  .bind_refl (fun _ => trivial) hp h

/-- `register_session` is a detour; what follows it goes on the same. -/
theorem stays_register {session : SessionId} {agent : AgentName} {room : RoomId} {dir url : Str}
    {f : Unit → Py β} (h : Stays (f ())) :
    Stays (registerSession session agent room dir url >>= f) :=
  .bindE (fun _ => trivial) beside_registerSession fun _ => h

/-- The room lock is no detour, so its body decides. -/
theorem stays_withRoomLock {room : RoomId} {body : Py Unit} (h : Stays body) :
    Stays (withRoomLock room body) := by
  refine stays_bind (performsE_bind (performsE_sync ⟨trivial, rfl⟩) fun got => ?_) fun _ =>
    Detours.Beside.finallyDo h ⟨⟨trivial, rfl⟩, fun _ => trivial⟩
  split
  · exact performsE_pure _
  · exact performsE_await ⟨trivial, rfl⟩

/-- `_run_claude` makes no detour. -/
theorem outside_runClaude {argv : List Str} {dir : Str} {agent : AgentName} {room : RoomId}
    {timeout : Nat} {turn : Turn} :
    PerformsE registryDetours.outside (runClaude argv dir agent room timeout turn) :=
  (run_runClaude timeout).mono fun _ => outside_of_run

/-- The post of a response makes no detour. -/
theorem outside_postResponse {room : RoomId} {output : Str} {rc : Int} {session : SessionId}
    {mention : UserId} {maxLen : Nat} {target root : EventId} {action : Str} :
    PerformsE registryDetours.outside
      (postResponse room output rc session mention maxLen target action root) :=
  outside_local (local_postResponse _ _ _ _ _ _ _ _ _)

/-- A resumed session goes on the same with and without the registry. -/
theorem stays_replyTurn {args : HandlerArgs} {message : Str} {row : SessionRow} {ack : EventId} :
    Stays (replyTurn args message row ack) := by
  refine stays_bind (performsE_sync ⟨trivial, rfl⟩) fun start => ?_
  refine stays_bind (performsE_attempt (performsE_bind (performsE_sync ⟨rfl, rfl⟩) fun _ =>
    outside_runClaude)) fun res => ?_
  split
  · exact stays_local (local_postAlias _ _ _ _)
  · exact .ret trivial
  · refine stays_bind (outside_still (still_touchSession _)) fun _ => ?_
    exact stays_bind outside_postResponse fun _ => beside_recordPendingIfGated

/-- So does a new session. -/
theorem stays_spawnTurn {args : HandlerArgs} {message : Str} : Stays (spawnTurn args message) := by
  refine stays_bind (performsE_sync ⟨rfl, rfl⟩) fun session => ?_
  refine stays_bind (outside_still (still_postMessage _ _ _)) fun ack => ?_
  refine stays_bind (outside_local (local_insertSession _ _ _ _)) fun _ => ?_
  refine stays_bind (outside_local (local_registerAlias _ _)) fun _ => ?_
  refine stays_register ?_
  refine stays_bind (performsE_sync ⟨trivial, rfl⟩) fun start => ?_
  refine stays_bind (performsE_attempt (performsE_bind (performsE_sync ⟨rfl, rfl⟩) fun _ =>
    outside_runClaude)) fun res => ?_
  split
  · exact stays_local (local_postAlias _ _ _ _)
  · exact .ret trivial
  · exact stays_bind outside_postResponse fun _ => beside_recordPendingIfGated

/-- So does a reply, its lock included. -/
theorem stays_handleReply {args : HandlerArgs} {message : Str} {row : SessionRow} :
    Stays (handleReply args message row) := by
  refine stays_bind (outside_still (still_postMessage _ _ _)) fun ack => ?_
  refine stays_bind (outside_local (local_registerAlias _ _)) fun _ => ?_
  exact stays_register (stays_withRoomLock stays_replyTurn)

/-- So does a message outside threads, its rate limit included. -/
theorem stays_rootTurn {args : HandlerArgs} {message : Str} : Stays (rootTurn args message) := by
  refine stays_bind (performsE_sync ⟨rfl, rfl⟩) fun now => ?_
  refine stays_bind (performsE_sync ⟨trivial, rfl⟩) fun last => ?_
  dsimp only
  split
  · exact stays_local (local_still (still_notice _ _ _))
  · exact stays_bind (performsE_sync ⟨trivial, rfl⟩) fun _ => stays_spawnTurn

/-- So does `!mirror`, which registers the session that it links. -/
theorem stays_handleMirrorCommand {room : RoomId} {event : RoomMessageText} {mention : UserId}
    {agent : AgentName} {dir url : Str} :
    Stays (handleMirrorCommand room event mention agent dir url) := by
  refine stays_bind (outside_local (local_findUnmirroredSessionId _ _)) fun found => ?_
  split
  · exact stays_local (local_still (still_notice _ _ _))
  · refine stays_bind (outside_local (local_insertSession _ _ _ _)) fun _ => ?_
    exact stays_register (stays_local (local_postAlias _ _ _ _))

/-- So does `!cancel`, which makes no detour. -/
theorem stays_handleCancelCommand {room : RoomId} {event : RoomMessageText} {mention : UserId} :
    Stays (handleCancelCommand room event mention) := by
  refine stays_outside ((cancel_handleCancelCommand room event mention).mono fun e he => ?_)
  unfold CancelEff at he
  split at he <;> first
    | exact ⟨trivial, rfl⟩
    | exact ⟨rfl, rfl⟩
    | exact outside_of_local (.of_still he)

/-- So does every command. -/
theorem stays_handleCommand {args : HandlerArgs} {message : Str} :
    Stays (handleCommand args message) := by
  rw [handleCommand]
  dsimp only
  split
  · exact stays_local (local_still (still_handleHelpCommand _ _ _))
  split
  · exact stays_local (local_handleSessionsCommand _ _ _ _ _)
  split
  · exact stays_local (local_still (still_handleRecapCommand _ _ _ _ _ _))
  split
  · exact stays_handleMirrorCommand
  split
  · exact stays_handleCancelCommand
  · exact stays_local (local_still (still_notice _ _ _))

/-- A handler does the same with the registry as without it, up to detours. -/
theorem stays_handleEvent (args : HandlerArgs) : Stays (handleEvent args) := by
  rw [handleEvent]
  split
  · exact .ret trivial
  refine stays_bind (performsE_fromExcept _) fun root => ?_
  rcases root with _ | root
  · dsimp only
    split
    · exact stays_handleCommand
    · exact stays_withRoomLock stays_rootTurn
  refine stays_bind (performsE_execute ⟨rfl, rfl⟩) fun row => ?_
  rcases row with _ | row
  · exact stays_local (local_still (still_handleOrphan _ _))
  · exact stays_handleReply

end

end MatrixDispatcher
