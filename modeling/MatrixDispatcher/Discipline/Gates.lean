import MatrixDispatcher.Discipline.Footprint
import MatrixDispatcher.Discipline.HandlerWalk
import MatrixDispatcher.Discipline.Rules
import MatrixDispatcher.Discipline.Supervise

/-!
# Looking for gates

A turn that ends with a result asks the registry for the approval that it waits for, and records
the one that it is told of, unless something fails on the way.

* `GateAct` — what an effect and its response mean for that; `fail` is an effect that failed.
* `GateStage.step` — the automaton: from the reading of `turn_start` to the record, the lock may
  not be released unless something failed.
* `Loud` — programs that raise only if something failed.
* `gateCoverage` — every task of the dispatcher follows the monitor.
-/

namespace MatrixDispatcher

open Py Coro

/-- What an effect and its response mean for the detection of gated approvals. -/
inductive GateAct where
  /-- `turn_start` is read. -/
  | clock (now : Time)
  | call (turn : Turn)
  /-- `_run_claude` is left with a result. -/
  | left
  | query (agentId : AgentName) (since : Time) (found : Option ApprovalId)
  | record (row : PendingRow)
  | release
  | create (args : HandlerArgs)
  /-- Something failed that a turn depends on. -/
  | fail
  | other

namespace GateAct

/-- What a synchronous effect means. -/
def ofSync : (e : SyncEff) → e.Ret → GateAct
  | .utcnow, now => .clock now
  | .mark (.runnerCall turn), _ => .call turn
  | .mark (.leftRun _ _ .result), _ => .left
  | .execute (.insertPendingApproval row), .ok _ => .record row
  | .execute _, .error _ | .commit, .error _ | .registryEnabled, false => .fail
  | .lockRelease _, _ => .release
  | .createTask (.handle args), _ => .create args
  | _, _ => .other

/-- What an awaited operation means. -/
def ofAwait : (e : AwaitEff) → Except Exn e.Val → GateAct
  | .fetchPending agent since, .ok found => .query agent since (found.map (·.approvalId))
  -- these two calls are fail-open, and nothing depends on their results
  | .upsertSession _ _ _ _ _, _ | .linkSession _ _, _ => .other
  | _, .error _ => .fail
  | _, .ok _ => .other

/-- What an effect means. -/
def of : (e : Eff) → e.Ret → GateAct
  | .sync e, r => ofSync e r
  | .await e, r => ofAwait e r

end GateAct

/-- Something failed. -/
def GateAct.isFail : GateAct → Bool
  | fail => true
  | _ => false

/-- The effect that an act of the detection stems from. -/
def GateAct.Origin : GateAct → Eff → Prop
  | clock _, e => e = .sync .utcnow
  | query agent since _, e => e = .await (.fetchPending agent since)
  | record row, e => e = .sync (.execute (.insertPendingApproval row))
  | _, _ => True

/-- A reading of the clock, a query and a record stem from the effects that their names say. -/
theorem GateAct.origin_of (e : Eff) (r : e.Ret) : (GateAct.of e r).Origin e := by
  cases e with
  | sync e =>
    cases e with
    | execute s => cases s <;> cases r <;> trivial
    | commit | registryEnabled => cases r <;> trivial
    | createTask request => cases request <;> trivial
    | mark m =>
      cases m with
      | leftRun room pid outcome => cases outcome <;> trivial
      | _ => trivial
    | utcnow => rfl
    | _ => trivial
  | await e =>
    cases e with
    | fetchPending agent since => cases r <;> trivial
    | _ => cases r <;> trivial

/-- How far a turn has come with the detection of a gated approval. -/
inductive GateStage where
  /-- Nothing is owed. -/
  | off
  | timed (start : Time)
  | called (start : Time) (turn : Turn)
  /-- The child has ended with a result. -/
  | due (start : Time) (turn : Turn)
  /-- The registry has named an approval. -/
  | found (start : Time) (turn : Turn) (approvalId : ApprovalId)

namespace GateStage

/-- The automaton of the detection; `maxLen` is `max_message_length`. -/
def step (maxLen : Nat) : GateStage → GateAct → Option GateStage
  | .off, .clock now => some (.timed now)
  | .off, .create args => if args.maxMessageLength = maxLen then some .off else none
  | .off, .call _ => none
  | .off, _ => some .off
  | .timed start, .call turn => some (.called start turn)
  | .called start turn, .left => some (.due start turn)
  | .due start turn, .query agent since result =>
    if agent = turn.agentName ∧ since = start then
      some (result.elim .off (.found start turn))
    else none
  | .found _ turn a, .record row =>
    if row.approvalId = a ∧ row.sessionId = turn.sessionId ∧
        row.threadRootId = turn.threadRootId ∧ row.roomId = turn.roomId then
      some .off
    else none
  | _, .fail => some .off
  | g, .other => some g
  | _, _ => none

/-- The reading of the clock that the turn goes by. -/
def start? : GateStage → Option Time
  | off => none
  | timed start | called start _ | due start _ | found start _ _ => some start

/-- What means nothing for the detection leaves the stage as it is. -/
@[simp] theorem step_other (maxLen : Nat) (g : GateStage) : g.step maxLen .other = some g := by
  cases g <;> rfl

/-- After a failure nothing is owed, whatever the stage was. -/
@[simp] theorem step_fail (maxLen : Nat) (g : GateStage) : g.step maxLen .fail = some .off := by
  cases g <;> rfl

end GateStage

/-- The transitions of `GateStage.step`. -/
inductive GateStep (maxLen : Nat) : GateStage → GateAct → GateStage → Prop
  | other (g) : GateStep maxLen g .other g
  | fail (g) : GateStep maxLen g .fail .off
  | idle (act) (hact : ∀ now, act ≠ .clock now) (hcall : ∀ turn, act ≠ .call turn)
      (hcreate : ∀ args, act = .create args → args.maxMessageLength = maxLen) :
    GateStep maxLen .off act .off
  | clock (now) : GateStep maxLen .off (.clock now) (.timed now)
  | call (start turn) : GateStep maxLen (.timed start) (.call turn) (.called start turn)
  | left (start turn) : GateStep maxLen (.called start turn) .left (.due start turn)
  | none (start turn) :
    GateStep maxLen (.due start turn) (.query turn.agentName start none) .off
  | some (start turn a) :
    GateStep maxLen (.due start turn) (.query turn.agentName start (some a)) (.found start turn a)
  | record (start) (turn : Turn) (row : PendingRow) (hsession : row.sessionId = turn.sessionId)
      (hthread : row.threadRootId = turn.threadRootId) (hroom : row.roomId = turn.roomId) :
    GateStep maxLen (.found start turn row.approvalId) (.record row) .off

/-- Every step of the automaton is one of the transitions of `GateStep`. -/
theorem GateStage.step_cases {maxLen : Nat} {g g' : GateStage} {act : GateAct}
    (h : g.step maxLen act = some g') : GateStep maxLen g act g' := by
  by_cases hother : act = .other
  · subst hother
    rw [step_other] at h
    cases h
    exact .other g
  by_cases hfail : act = .fail
  · subst hfail
    rw [step_fail] at h
    cases h
    exact .fail g
  cases g with
  | off =>
    cases act with
    | clock now =>
      cases h
      exact .clock now
    | call turn => contradiction
    | create args =>
      rw [step] at h
      split at h <;> cases h
      next heq =>
      exact .idle _ nofun nofun fun _ hargs => by cases hargs; exact heq
    | _ =>
      cases h
      exact .idle _ nofun nofun nofun
  | timed start =>
    cases act with
    | call turn =>
      cases h
      exact .call start turn
    | _ => contradiction
  | called start turn =>
    cases act with
    | left =>
      cases h
      exact .left start turn
    | _ => contradiction
  | due start turn =>
    cases act with
    | query agent since result =>
      rw [step] at h
      split at h <;> cases h
      next hmatch =>
      obtain ⟨rfl, rfl⟩ := hmatch
      cases result with
      | none => exact .none _ turn
      | some a => exact .some _ turn a
    | _ => contradiction
  | found start turn a =>
    cases act with
    | record row =>
      rw [step] at h
      split at h <;> cases h
      next hmatch =>
      obtain ⟨rfl, hsession, hthread, hroom⟩ := hmatch
      exact .record start turn row hsession hthread hroom
    | _ => contradiction

/-- The monitor of the detection. -/
def gateMonitor (maxLen : Nat) : Monitor Eff Eff.Ret GateStage where
  next g e r := g.step maxLen (GateAct.of e r)
  atomic _ := false
  final g := g = .off
  idle := .off
  atomic_idle := rfl

/-! ## Programs that raise only if something failed -/

/-- From stage `g`, the coroutine follows the monitor and ends as `Q` says. -/
abbrev FollowsGates {α : Type} (maxLen : Nat) (g : GateStage) (p : Py α)
    (Q : Except Exn α → GateStage → Prop) : Prop :=
  (gateMonitor maxLen).Follows Eff.awaits g p.run Q

/-- The coroutine returns a value in the stage in which it began, or something failed. -/
abbrev Loud {α : Type} (maxLen : Nat) (g : GateStage) (p : Py α) : Prop :=
  FollowsGates maxLen g p fun res g' => (∃ a, res = .ok a) ∧ g' = g ∨ g' = .off

/-- An effect that means nothing when nothing is owed. -/
def Unclocked (e : Eff) : Prop :=
  e ≠ .sync .utcnow ∧ (∀ args, e ≠ .sync (.createTask (.handle args))) ∧
    ∀ turn, e ≠ .sync (.mark (.runnerCall turn))

section

variable {α β : Type} {maxLen : Nat} {g : GateStage}

/-- When nothing is owed, an `Unclocked` effect changes nothing, whatever its response is. -/
theorem ignores_off {e : Eff} (he : Unclocked e) : (gateMonitor maxLen).Ignores .off e := by
  intro r
  cases e with
  | sync e =>
    cases e with
    | utcnow => exact absurd rfl he.1
    | createTask request =>
      cases request with
      | handle args => exact absurd rfl (he.2.1 args)
      | _ => rfl
    | execute s => cases s <;> cases r <;> rfl
    | commit => cases r <;> rfl
    | registryEnabled => cases r <;> rfl
    | mark m =>
      cases m with
      | leftRun room pid outcome => cases outcome <;> rfl
      | runnerCall turn => exact absurd rfl (he.2.2 turn)
      | _ => rfl
    | _ => rfl
  | await e => cases e <;> cases r <;> rfl

/-- `Plain` effects are `Unclocked`. -/
theorem unclocked_of_plain {e : Eff} (he : Plain e) : Unclocked e := by
  refine ⟨?_, fun args => ?_, fun turn => ?_⟩ <;> rintro rfl <;> cases he

/-- When nothing is owed, nothing comes to be owed. -/
theorem gates_off {p : Py α} (hp : PerformsE Unclocked p) :
    FollowsGates maxLen .off p fun _ g => g = .off :=
  Monitor.Follows.of_performs (hp.mono fun _ => ignores_off) rfl

/-- A program of `Plain` effects that begins with nothing owed ends so. -/
theorem gates_plain {p : Py α} (hp : PerformsE Plain p) :
    FollowsGates maxLen .off p fun _ g => g = .off :=
  gates_off (hp.mono fun _ => unclocked_of_plain)

/-- When nothing is owed, two programs one after the other. -/
theorem gates_bind {p : Py α} {f : α → Py β} (hp : FollowsGates maxLen .off p fun _ g => g = .off)
    (hf : ∀ a, FollowsGates maxLen .off (f a) fun _ g => g = .off) :
    FollowsGates maxLen .off (p >>= f) fun _ g => g = .off := by
  refine Monitor.Follows.bindE (hp.mono fun res g hg => ?_)
  subst hg
  cases res with
  | ok a => exact hf a
  | error x => exact rfl

/-- A program of `Plain` effects, then another one, with nothing owed in between. -/
theorem gates_plain_bind {p : Py α} {f : α → Py β} (hp : PerformsE Plain p)
    (hf : ∀ a, FollowsGates maxLen .off (f a) fun _ g => g = .off) :
    FollowsGates maxLen .off (p >>= f) fun _ g => g = .off :=
  gates_bind (gates_plain hp) hf

/-- A loud program, then one that settles what is owed. -/
theorem Loud.bind {p : Py α} {f : α → Py β} (hp : Loud maxLen g p)
    (hf : ∀ a, FollowsGates maxLen g (f a) fun _ g' => g' = .off)
    (hoff : ∀ a, PerformsE Unclocked (f a)) :
    FollowsGates maxLen g (p >>= f) fun _ g' => g' = .off := by
  refine Monitor.Follows.bindE (hp.mono fun res g' h => ?_)
  rcases h with ⟨⟨a, rfl⟩, rfl⟩ | rfl
  · exact hf a
  · cases res with
    | ok a => exact gates_off (hoff a)
    | error x => exact rfl

/-- A loud program, then another one. -/
theorem Loud.then {p : Py α} {f : α → Py β} (hp : Loud maxLen g p)
    (hf : ∀ a, Loud maxLen g (f a)) (hoff : ∀ a, PerformsE Unclocked (f a)) :
    Loud maxLen g (p >>= f) := by
  refine Monitor.Follows.bindE (hp.mono fun res g' h => ?_)
  rcases h with ⟨⟨a, rfl⟩, rfl⟩ | rfl
  · exact hf a
  · cases res with
    | ok a => exact (gates_off (hoff a)).mono fun _ _ h => .inr h
    | error x => exact .inr rfl

/-- A program that returns at once is `Loud`. -/
theorem loud_pure (a : α) : Loud maxLen g (pure a) := .inl ⟨⟨a, rfl⟩, rfl⟩

/-- A statement or a commit. -/
theorem loud_write {s : Stmt} (hok : ∀ v, GateAct.of (.sync (.execute s)) (.ok v) = .other)
    (herror : ∀ x, GateAct.of (.sync (.execute s)) (.error x) = .fail) :
    Loud maxLen g (do let _ ← execute s; commit) := by
  refine Loud.then (Follows.execute fun res => ?_) (fun _ => Follows.commit fun res => ?_)
    fun _ => performsE_commit ⟨nofun, nofun, nofun⟩
  · cases res with
    | ok v => exact ⟨g, (congrArg _ (hok v)).trans (GateStage.step_other _ g), .inl ⟨⟨v, rfl⟩, rfl⟩⟩
    | error x => exact ⟨.off, (congrArg _ (herror x)).trans (GateStage.step_fail _ g), .inr rfl⟩
  · cases res with
    | ok v => exact ⟨g, GateStage.step_other _ g, .inl ⟨⟨v, rfl⟩, rfl⟩⟩
    | error x => exact ⟨.off, GateStage.step_fail _ g, .inr rfl⟩

/-- An operation of another program. -/
theorem loud_network {e : AwaitEff} (hok : ∀ v, GateAct.of (.await e) (.ok v) = .other)
    (herror : ∀ x, GateAct.of (.await e) (.error x) = .fail) : Loud maxLen g (network e) := by
  refine Follows.network_landing rfl fun res => ?_
  cases res with
  | ok v =>
    refine ⟨g, (congrArg _ (hok v)).trans (GateStage.step_other _ g), rfl, nofun, fun l => ?_⟩
    cases l with
    | ok _ => exact ⟨g, GateStage.step_other _ g, .inl ⟨⟨v, rfl⟩, rfl⟩⟩
    | error x => exact ⟨.off, GateStage.step_fail _ g, .inr rfl⟩
  | error x =>
    refine ⟨.off, (congrArg _ (herror x)).trans (GateStage.step_fail _ g), rfl,
      fun _ => .inr rfl, fun l => ⟨.off, ?_, .inr rfl⟩⟩
    cases l <;> rfl

/-- A post raises only if the send failed. -/
theorem loud_postMessage (room : RoomId) (body : Str) (replyTo : Option EventId) :
    Loud maxLen g (postMessage room body replyTo) :=
  loud_network (fun _ => rfl) fun _ => rfl

/-- `register_alias` raises only if its statement or its commit failed. -/
theorem loud_registerAlias (e root : EventId) : Loud maxLen g (Store.registerAlias e root) := by
  rw [Store.registerAlias]
  split
  · exact loud_pure _
  · exact loud_write (fun _ => rfl) fun _ => rfl

/-- `touch_session` raises only if its statement or its commit failed. -/
theorem loud_touchSession (root : EventId) : Loud maxLen g (Store.touchSession root) :=
  Follows.sync_bind fun _ => ⟨g, GateStage.step_other _ g, loud_write (fun _ => rfl) fun _ => rfl⟩

/-- A post with its alias raises only if one of the two failed. -/
theorem loud_postAlias (room : RoomId) (body : Str) (replyTo : Option EventId) (root : EventId) :
    Loud maxLen g (do
      let evt ← postMessage room body replyTo
      Store.registerAlias evt root) :=
  (loud_postMessage room body replyTo).then (fun evt => loud_registerAlias evt root)
    fun evt => (plain_registerAlias evt root).mono fun _ => unclocked_of_plain

/-- Posting the chunks of an output raises only if a post or an alias failed; the induction is on
the chunks that are left. -/
theorem loud_postChunks (room : RoomId) (mention : UserId) (target root : EventId) (i : Nat)
    (chunks : List Str) : Loud maxLen g (postChunks room mention target root i chunks) := by
  have hoff : ∀ i chunks, PerformsE Unclocked (postChunks room mention target root i chunks) :=
    fun i chunks => (plain_local (local_postChunks room mention target root i chunks)).mono
      fun _ => unclocked_of_plain
  induction chunks generalizing i with
  | nil => exact loud_pure _
  | cons chunk chunks ih =>
    rw [postChunks]
    refine (loud_postMessage _ _ _).then (fun evt => ?_) fun evt =>
      performsE_bind ((plain_registerAlias evt root).mono fun _ => unclocked_of_plain)
        fun _ => hoff _ _
    exact (loud_registerAlias evt root).then (fun _ => ih _) fun _ => hoff _ _

/-- With room for a character, the output can be cut. -/
theorem loud_postResponse {room : RoomId} {output : Str} {rc : Int} {session : SessionId}
    {mention : UserId} {target root : EventId} {action : Str} (hmax : 0 < maxLen) :
    Loud maxLen g (postResponse room output rc session mention maxLen target action root) := by
  rw [postResponse]
  split
  · exact loud_postAlias _ _ _ _
  · obtain ⟨chunks, hchunks⟩ :=
      @splitOnParagraphs_ok (output.orElse (lit "(no output)")) _ hmax
    rw [hchunks]
    exact loud_postChunks _ _ _ _ _ _

end

/-! ## Turns -/

section

variable {maxLen : Nat} {start : Time} {turn : Turn}

/-- What `_run_claude` does is `Unclocked`. -/
theorem unclocked_of_run {argv : List Str} {dir : Str} {agent : AgentName} {turn : Turn} {e : Eff}
    (h : RunEff argv dir agent turn e) : Unclocked e := by
  refine ⟨?_, fun args => ?_, fun turn => ?_⟩ <;> rintro rfl <;> exact h

/-- What `record_pending_if_gated` does is `Unclocked`. -/
theorem unclocked_of_record {room : RoomId} {session : SessionId} {root : EventId} {e : Eff}
    (h : RecordEff room session root e) : Unclocked e := by
  refine ⟨?_, fun args => ?_, fun turn => ?_⟩ <;> rintro rfl <;> exact h

/-- `communicate` ends with the output of the child, or the call failed. -/
theorem gates_communicateOrKill {g : GateStage} {pid : Pid} {timeout : Nat} :
    Loud maxLen g (communicateOrKill pid timeout) := by
  -- After a timeout the turn has failed, and nothing is owed any more.
  have hkill : PerformsE Unclocked (do
      ExceptT.mk (Coro.perform (Eff.sync (.kill pid)))
      await (.wait pid)
      tryExcept (await (.drain pid)) fun _ => pure ()
      throw .timeoutError : Py (Str × Str)) :=
    performsE_bind (performsE_mk ⟨⟨nofun, nofun, nofun⟩, fun _ => trivial⟩) fun _ =>
      performsE_bind (performsE_await ⟨nofun, nofun, nofun⟩) fun _ =>
        performsE_bind (performsE_tryExcept (performsE_await ⟨nofun, nofun, nofun⟩) fun _ =>
          performsE_pure _) fun _ => performsE_throw _
  refine Monitor.Follows.tryCatch (Follows.await rfl fun res => ?_)
  cases res with
  | ok outputs => exact ⟨g, GateStage.step_other _ g, .inl ⟨⟨outputs, rfl⟩, rfl⟩⟩
  | error x =>
    refine ⟨.off, GateStage.step_fail _ g, ?_⟩
    dsimp only
    split
    · exact (gates_off hkill).mono fun _ _ h => .inr h
    · exact .inr rfl

/-- `_run_claude` ends with a result after its child, or something failed. -/
theorem gates_runClaude {argv : List Str} {dir : Str} {agent : AgentName} {room : RoomId}
    {timeout : Nat} :
    FollowsGates maxLen (.called start turn) (runClaude argv dir agent room timeout turn)
      fun res g => (∃ v, res = .ok v) ∧ g = .due start turn ∨ g = .off := by
  -- Leaving the run is no reading of the clock.
  have hleave : ∀ room pid outcome, Unclocked (.sync (.mark (.leftRun room pid outcome))) :=
    fun _ _ _ => by simp [Unclocked]
  -- Nor is anything that comes after it.
  have hafter : ∀ {pid} {res : Except Exn (Str × Str)}, PerformsE Unclocked (do
      sync (.mark (.leftRun room pid (outcomeOf res)))
      let outputs ← fromExcept res
      let rc := (← sync (.returncode pid)).getD (-1)
      pure (rc, if rc = 0 then outputs.1 else outputs.2.take 500) : Py (Int × Str)) :=
    performsE_bind (performsE_sync (hleave _ _ _)) fun _ =>
      performsE_bind (performsE_fromExcept _) fun _ =>
        performsE_bind (performsE_sync (by simp [Unclocked])) fun _ => performsE_pure _
  refine Monitor.Follows.bindE ((loud_network (fun _ => rfl) fun _ => rfl).mono fun res g h => ?_)
  rcases h with ⟨⟨pid, rfl⟩, rfl⟩ | rfl
  · refine Follows.sync_bind fun _ => ⟨.called start turn, rfl, ?_⟩
    refine Monitor.Follows.bindE (Monitor.Follows.attempt (Monitor.Follows.finallyDo
      (gates_communicateOrKill.mono fun res g h => ?_)))
    refine Follows.perform_sync fun _ => ⟨g, GateStage.step_other _ g, ?_⟩
    rcases h with ⟨⟨outputs, rfl⟩, rfl⟩ | rfl
    · refine Follows.sync_bind fun _ => ⟨.due start turn, rfl, ?_⟩
      exact Follows.sync_bind fun _ => ⟨.due start turn, rfl, .inl ⟨⟨_, rfl⟩, rfl⟩⟩
    · exact (gates_off hafter).mono fun _ _ h => .inr h
  · cases res with
    | ok pid =>
      have hcommunicate : PerformsE (RunEff argv dir agent turn) (communicateOrKill pid timeout) :=
        run_communicateOrKill pid timeout
      refine (gates_off ?_).mono fun _ _ h => .inr h
      refine performsE_bind (performsE_sync (by simp [Unclocked])) fun _ => ?_
      exact performsE_bind (performsE_attempt (performsE_finallyDo
        (hcommunicate.mono fun _ => unclocked_of_run) ⟨by simp [Unclocked], fun _ => trivial⟩))
        fun _ => hafter
    | error x => exact .inr rfl

/-- What the registry names is recorded for the turn. -/
theorem gates_recordPendingIfGated {turn : Turn} :
    FollowsGates maxLen (.due start turn)
      (recordPendingIfGated turn.agentName turn.roomId turn.sessionId turn.threadRootId start)
      fun _ g => g = .off := by
  refine Follows.sync_bind fun _ => ⟨.due start turn, rfl, ?_⟩
  refine Follows.sync_bind fun enabled => ?_
  cases enabled with
  | false => exact ⟨.off, rfl, rfl⟩
  | true =>
    refine ⟨.due start turn, rfl, ?_⟩
    have hfind : FollowsGates maxLen (.due start turn)
        (Registry.findPendingApproval turn.agentName start) fun res g =>
          (∃ pending, res = .ok (some pending) ∧ g = .found start turn pending.approvalId) ∨
            g = .off := by
      refine Follows.sync_bind fun enabled => ?_
      cases enabled with
      | false => exact ⟨.off, rfl, .inr rfl⟩
      | true =>
        refine ⟨.due start turn, rfl, Follows.tryExcept (Follows.network_landing rfl fun res => ?_)⟩
        rcases res with x | found
        · refine ⟨.off, rfl, rfl, fun _ => ⟨.inr rfl, .inr rfl⟩, fun l => ⟨.off, ?_, ?_⟩⟩
          · cases l <;> rfl
          · cases l <;> exact ⟨.inr rfl, .inr rfl⟩
        rcases found with _ | pending
        · refine ⟨.off, if_pos ⟨rfl, rfl⟩, rfl, by simp, fun l => ⟨.off, ?_, ?_⟩⟩
          · cases l <;> rfl
          · cases l with
            | ok _ => exact .inr rfl
            | error x => exact ⟨.inr rfl, .inr rfl⟩
        · refine ⟨.found start turn pending.approvalId, if_pos ⟨rfl, rfl⟩, rfl, by simp,
            fun l => ?_⟩
          cases l with
          | ok _ => exact ⟨_, rfl, .inl ⟨pending, rfl, rfl⟩⟩
          | error x => exact ⟨.off, rfl, .inr rfl, .inr rfl⟩
    refine Monitor.Follows.bindE (hfind.mono fun res g h => ?_)
    rcases h with ⟨pending, rfl, rfl⟩ | rfl
    · refine Monitor.Follows.bindE (Follows.sync_bind fun now =>
        ⟨.found start turn pending.approvalId, rfl, ?_⟩)
      -- whether the row was recorded or not, nothing is owed any more
      refine Monitor.Follows.bindE (Follows.execute fun res => ?_)
      cases res with
      | error x => exact ⟨.off, rfl, rfl⟩
      | ok _ =>
        refine ⟨.off, if_pos ⟨rfl, rfl, rfl, rfl⟩, ?_⟩
        refine (gates_off (performsE_commit (by simp [Unclocked]))).mono fun res g hg => ?_
        subst hg
        cases res with
        | ok _ => exact gates_plain (plain_linkSession _ _)
        | error x => exact rfl
    · cases res with
      | error x => exact rfl
      | ok found =>
        refine gates_off ?_
        cases found with
        | none => exact performsE_pure _
        | some pending =>
          refine performsE_bind ?_ fun _ => (plain_linkSession _ _).mono fun _ => unclocked_of_plain
          exact performsE_bind (plain_now.mono fun _ => unclocked_of_plain) fun _ =>
            performsE_bind (performsE_execute (by simp [Unclocked])) fun _ =>
              performsE_commit (by simp [Unclocked])

/-- Once the runner has returned, a call of `_record_pending_if_gated` is due. -/
theorem gates_callRunner {turn : Turn} {dir : Str} {timeout : Nat} :
    FollowsGates maxLen (.timed start) (callRunner turn dir timeout) fun res g =>
      (∃ v, res = .ok v) ∧ g = .due start turn ∨ g = .off :=
  Follows.sync_bind fun _ => ⟨.called start _, rfl, gates_runClaude⟩

/-- No effect of `record_pending_if_gated` makes anything owed. -/
theorem unclocked_recordPendingIfGated {agent : AgentName} {room : RoomId} {session : SessionId}
    {root : EventId} :
    PerformsE Unclocked (recordPendingIfGated agent room session root start) :=
  (record_recordPendingIfGated start).mono fun _ => unclocked_of_record

/-- The response of a turn is posted, and its approval recorded. -/
theorem gates_response {turn : Turn} {output : Str} {rc : Int} {mention : UserId}
    {target root : EventId} {action : Str} (hmax : 0 < maxLen) :
    FollowsGates maxLen (.due start turn) (do
      postResponse turn.roomId output rc turn.sessionId mention maxLen target action root
      recordPendingIfGated turn.agentName turn.roomId turn.sessionId turn.threadRootId start)
      fun _ g => g = .off :=
  (loud_postResponse hmax).bind (fun _ => gates_recordPendingIfGated)
    fun _ => unclocked_recordPendingIfGated

/-- Neither the post of a response nor the query after it makes anything owed. -/
theorem unclocked_response {agent : AgentName} {room : RoomId} {session : SessionId}
    {root : EventId} {output : Str} {rc : Int} {mention : UserId} {target : EventId}
    {action : Str} {maxLen : Nat} :
    PerformsE Unclocked (do
      postResponse room output rc session mention maxLen target action root
      recordPendingIfGated agent room session root start) :=
  performsE_bind ((plain_postResponse _ _ _ _ _ _ _ _ _).mono fun _ => unclocked_of_plain)
    fun _ => unclocked_recordPendingIfGated

/-- The turn of a thread reply. -/
theorem gates_replyTurn {args : HandlerArgs} {message : Str} {row : SessionRow} {ack : EventId}
    (hmax : 0 < args.maxMessageLength) :
    FollowsGates args.maxMessageLength .off (replyTurn args message row ack)
      fun _ g => g = .off := by
  have hoff : PerformsE Unclocked (Store.touchSession row.threadRootId) :=
    (plain_touchSession _).mono fun _ => unclocked_of_plain
  refine Follows.sync_bind fun start => ⟨.timed start, rfl, ?_⟩
  refine Monitor.Follows.bindE (Monitor.Follows.attempt (gates_callRunner.mono fun res g h => ?_))
  rcases h with ⟨⟨v, rfl⟩, rfl⟩ | rfl
  · exact (loud_touchSession _).bind (fun _ => gates_response hmax) fun _ => unclocked_response
  · dsimp only
    split
    · exact gates_plain (plain_postAlias _ _ _ _)
    · exact rfl
    · exact gates_off (performsE_bind hoff fun _ => unclocked_response)

/-- The turn of an approved approval. -/
theorem gates_resumeTurn {config : MatrixDispatcher.Config} {row : PendingRow} {dir : Str}
    {agent : AgentName} {timeout : Nat} (hmax : 0 < config.maxMessageLength.getD 4000) :
    FollowsGates (config.maxMessageLength.getD 4000) .off (resumeTurn config row dir agent timeout)
      fun _ g => g = .off := by
  have hoff : PerformsE Unclocked (Store.touchSession row.threadRootId) :=
    (plain_touchSession _).mono fun _ => unclocked_of_plain
  refine Follows.sync_bind fun start => ⟨.timed start, rfl, ?_⟩
  refine Monitor.Follows.bindE (Monitor.Follows.attempt (gates_callRunner.mono fun res g h => ?_))
  rcases h with ⟨⟨v, rfl⟩, rfl⟩ | rfl
  · exact (loud_touchSession _).bind (fun _ => gates_response hmax) fun _ => unclocked_response
  · dsimp only
    split
    · exact rfl
    · exact gates_plain (plain_postAlias _ _ _ _)
    · exact gates_plain (plain_postAlias _ _ _ _)
    · exact gates_off (performsE_bind hoff fun _ => unclocked_response)

/-- The turn of a new session. -/
theorem gates_spawnTurn {args : HandlerArgs} {message : Str} (hmax : 0 < args.maxMessageLength) :
    FollowsGates args.maxMessageLength .off (spawnTurn args message) fun _ g => g = .off := by
  refine Follows.sync_bind fun session => ⟨.off, rfl, ?_⟩
  refine gates_plain_bind (plain_postMessage _ _ _) fun ack => ?_
  refine gates_plain_bind (plain_insertSession _ _ _ _) fun _ => ?_
  refine gates_plain_bind (plain_registerAlias _ _) fun _ => ?_
  refine gates_plain_bind (plain_registerSession _ _ _ _ _) fun _ => ?_
  refine Follows.sync_bind fun start => ⟨.timed start, rfl, ?_⟩
  refine Monitor.Follows.bindE (Monitor.Follows.attempt (gates_callRunner.mono fun res g h => ?_))
  rcases h with ⟨⟨v, rfl⟩, rfl⟩ | rfl
  · exact gates_response hmax
  · dsimp only
    split
    · exact gates_plain (plain_postAlias _ _ _ _)
    · exact rfl
    · exact gates_off unclocked_response

end

/-! ## Tasks -/

section

variable {maxLen : Nat} {config : MatrixDispatcher.Config} {args : HandlerArgs}

/-- `async with _room_lock(room)` around a turn. -/
theorem gates_withRoomLock {room : RoomId} {body : Py Unit}
    (hbody : FollowsGates maxLen .off body fun _ g => g = .off) :
    FollowsGates maxLen .off (withRoomLock room body) fun _ g => g = .off := by
  refine gates_bind (gates_off (performsE_bind (performsE_sync ⟨nofun, nofun, nofun⟩)
    fun got => ?_))
    fun _ => Monitor.Follows.finallyDo (hbody.mono fun _ g hg => ?_)
  · split
    · exact performsE_pure _
    · exact performsE_await ⟨nofun, nofun, nofun⟩
  · subst hg
    exact Follows.perform_sync fun _ => ⟨.off, rfl, rfl⟩

/-- A command begins and ends with nothing owed. -/
theorem gates_handleCommand {message : Str} :
    FollowsGates maxLen .off (handleCommand args message) fun _ g => g = .off := by
  rw [handleCommand]
  dsimp only
  split
  · exact gates_plain (plain_handleHelpCommand _ _ _)
  split
  · exact gates_plain (plain_handleSessionsCommand _ _ _ _ _)
  split
  · exact gates_plain (plain_handleRecapCommand _ _ _ _ _ _)
  split
  · exact gates_plain (plain_handleMirrorCommand _ _ _ _ _ _)
  split
  · refine gates_off ((cancel_handleCancelCommand _ _ _).mono fun e he => ?_)
    refine ⟨?_, fun args => ?_, fun turn => ?_⟩ <;> rintro rfl <;> cases he.1
  · exact gates_plain (plain_notice _ _ _)

/-- Whatever event it handles, a handler ends with nothing owed, as long as a chunk has room for a
character. -/
theorem gates_handleEvent (hmax : 0 < args.maxMessageLength) :
    FollowsGates args.maxMessageLength .off (handleEvent args) fun _ g => g = .off := by
  rw [handleEvent]
  split
  · exact rfl
  refine gates_plain_bind (performsE_fromExcept _) fun root => ?_
  rcases root with _ | root
  · dsimp only
    split
    · exact gates_handleCommand
    refine gates_withRoomLock ?_
    refine Follows.sync_bind fun now => ⟨.off, rfl, Follows.sync_bind fun last => ⟨.off, rfl, ?_⟩⟩
    dsimp only
    split
    · exact gates_plain (plain_notice _ _ _)
    · exact Follows.sync_bind fun _ => ⟨.off, rfl, gates_spawnTurn hmax⟩
  refine gates_plain_bind (performsE_execute rfl) fun row => ?_
  rcases row with _ | row
  · exact gates_plain (plain_handleOrphan _ _)
  refine gates_plain_bind (plain_postMessage _ _ _) fun ack => ?_
  refine gates_plain_bind (plain_registerAlias _ _) fun _ => ?_
  refine gates_plain_bind (plain_registerSession _ _ _ _ _) fun _ => ?_
  exact gates_withRoomLock (gates_replyTurn hmax)

/-- The handling of a row ends with nothing owed, a resumed turn included. -/
theorem gates_reconcileRow (hmax : 0 < config.maxMessageLength.getD 4000)
    {states : List (ApprovalId × ApprovalState)} {row : PendingRow} :
    FollowsGates (config.maxMessageLength.getD 4000) .off (reconcileRow config states row)
      fun _ g => g = .off := by
  have hdelete : ∀ site, FollowsGates (config.maxMessageLength.getD 4000) .off
      (Store.deletePendingApproval row.approvalId site) fun _ g => g = .off := fun site =>
    gates_off (performsE_bind (performsE_execute ⟨nofun, nofun, nofun⟩) fun _ =>
      performsE_commit ⟨nofun, nofun, nofun⟩)
  rw [reconcileRow]
  split
  · rw [resumeOnApproval]
    split
    · exact hdelete _
    · split
      · exact rfl
      · exact gates_bind (hdelete _) fun _ => gates_withRoomLock (gates_resumeTurn hmax)
  · exact gates_bind (hdelete _) fun _ => gates_plain (plain_postAlias _ _ _ _)
  · exact rfl

/-- A pass ends with nothing owed. -/
theorem gates_reconcileOnce (hmax : 0 < config.maxMessageLength.getD 4000) :
    FollowsGates (config.maxMessageLength.getD 4000) .off (reconcileOnce config)
      fun _ g => g = .off := by
  have hrows : ∀ pending, FollowsGates (config.maxMessageLength.getD 4000) .off
      (reconcileRows config pending) fun _ g => g = .off := by
    intro pending
    refine gates_plain_bind plain_now fun now => ?_
    refine Follows.sync_bind fun _ => ⟨.off, rfl, ?_⟩
    refine gates_bind (gates_off (performsE_expireStale (by simp [Unclocked])
      (by simp [Unclocked]))) fun live => ?_
    refine Follows.sync_bind fun _ => ⟨.off, rfl, ?_⟩
    split
    · exact rfl
    refine gates_bind (gates_off (performsE_getApprovalStates (by simp [Unclocked])
      (by simp [Unclocked]) (by simp [Unclocked]))) fun states => ?_
    refine Monitor.Follows.forEach _ (J := fun _ g => g = .off) rfl (fun _ h => h) ?_
    rintro row rest _ rfl
    refine (gates_reconcileRow hmax).mono fun res g hg => ?_
    cases res <;> exact hg
  refine Monitor.Follows.finallyDo ?_
  have hpass : FollowsGates (config.maxMessageLength.getD 4000) .off (do
      if ← sync .registryEnabled then
        let pending ← Store.getPendingApprovals
        if pending = [] then pure () else reconcileRows config pending
      else pure ()) fun _ g => g = .off := by
    refine gates_bind (gates_off (performsE_sync ⟨nofun, nofun, nofun⟩)) fun enabled => ?_
    split
    · refine gates_bind (gates_off (performsE_execute ⟨nofun, nofun, nofun⟩)) fun pending => ?_
      split
      · exact rfl
      · exact hrows _
    · exact rfl
  refine hpass.mono fun _ g hg => ?_
  subst hg
  exact Follows.perform_sync fun _ => ⟨.off, rfl, rfl⟩

/-! ## Fibers -/

/-- A round of a task, and what comes after it. -/
theorem gates_round {σ : Type} {p : Py σ} {onEnd : Coro Eff Eff.Ret Unit}
    (hp : FollowsGates maxLen .off p fun _ g => g = .off) (hend : onEnd.Performs Unclocked) :
    (gateMonitor maxLen).Follows Eff.awaits .off (do nextRound onEnd (← p.run))
      ((gateMonitor maxLen).RoundEnd fun _ g => g = .off) := by
  refine Monitor.Follows.bind hp fun res g hg => ?_
  subst hg
  cases res with
  | ok s => exact ⟨rfl, rfl⟩
  | error x =>
    refine Monitor.Follows.bind (Monitor.Follows.of_performs (hend.mono fun _ => ignores_off) rfl)
      fun _ g hg => ?_
    subst hg
    exact ⟨rfl, rfl⟩

/-- A task nothing of which means anything when nothing is owed. -/
theorem gates_apart {P : Eff → Prop} {fiber : Fiber Eff Eff.Ret} (h : FiberPerforms P fiber)
    (hignores : ∀ e, P e → (gateMonitor maxLen).Ignores .off e) :
    (gateMonitor maxLen).Conforms Eff.awaits .off fiber :=
  .of_performs rfl rfl (h.prog.mono hignores) fun s => (h.next s).mono hignores

/-- The end of a task is `Unclocked`. -/
theorem unclocked_endTask : endTask.Performs Unclocked := performs_endTask ⟨nofun, nofun, nofun⟩

/-- The fiber of a handler follows the monitor. -/
theorem gates_handler (hmax : 0 < args.maxMessageLength) :
    (gateMonitor args.maxMessageLength).Conforms Eff.awaits .off (handlerFiber args) := by
  refine Monitor.Conforms.once ?_
  have hrun : FollowsGates args.maxMessageLength .off
      (do await .start; handleEvent args : Py Unit) fun _ g => g = .off :=
    gates_bind (gates_off (performsE_await ⟨nofun, nofun, nofun⟩)) fun _ => gates_handleEvent hmax
  refine Monitor.Follows.bind hrun fun _ g hg => ?_
  subst hg
  exact Follows.perform_sync fun _ => ⟨.off, rfl, rfl, rfl⟩

/-- The fiber of the reconcile loop follows the monitor, over all of its passes. -/
theorem gates_reconcile (hmax : 0 < config.maxMessageLength.getD 4000) :
    (gateMonitor (config.maxMessageLength.getD 4000)).Conforms Eff.awaits .off
      (reconcileFiber config) := by
  have hround : FollowsGates (config.maxMessageLength.getD 4000) .off (reconcileRound config)
      fun _ g => g = .off := by
    refine gates_bind (Follows.tryExcept ((gates_reconcileOnce hmax).mono fun res g hg => ?_))
      fun _ => gates_off (performsE_await ⟨nofun, nofun, nofun⟩)
    subst hg
    cases res with
    | ok _ => exact rfl
    | error _ => exact ⟨rfl, rfl⟩
  refine ⟨fun _ g => g = .off, ?_, ?_⟩
  · refine Monitor.Follows.bind (gates_off (performsE_started ⟨nofun, nofun, nofun⟩
      (performsE_sync ⟨nofun, nofun, nofun⟩))) fun res g hg => ?_
    subst hg
    split
    · exact gates_round hround unclocked_endTask
    · exact ⟨nofun, fun _ => ⟨.off, rfl, rfl, rfl⟩⟩
  · rintro _ _ rfl
    exact gates_round hround unclocked_endTask

/-! ## `main` -/

/-- Handlers are created with the configured maximum. -/
def Sized (config : MatrixDispatcher.Config) (e : Eff) : Prop :=
  e ≠ .sync .utcnow ∧ (∀ args, e = .sync (.createTask (.handle args)) →
    args.maxMessageLength = config.maxMessageLength.getD 4000) ∧
    ∀ turn, e ≠ .sync (.mark (.runnerCall turn))

/-- An `Unclocked` effect creates no handler, hence none with a wrong `max_message_length`. -/
theorem sized_of_unclocked {e : Eff} (h : Unclocked e) : Sized config e :=
  ⟨h.1, fun args heq => absurd heq (h.2.1 args), h.2.2⟩

/-- When nothing is owed, main's effects change nothing: its handlers have the `max_message_length`
of the configuration. -/
theorem ignores_sized {e : Eff} (h : Sized config e) :
    (gateMonitor (config.maxMessageLength.getD 4000)).Ignores .off e := by
  by_cases hcreate : ∃ args, e = .sync (.createTask (.handle args))
  · obtain ⟨args, rfl⟩ := hcreate
    exact fun _ => if_pos (h.2.1 args rfl)
  · exact ignores_off ⟨h.1, fun args heq => hcreate ⟨args, heq⟩, h.2.2⟩

/-- The handlers of a room are created with the configured `max_message_length`. -/
theorem sized_dispatchRoom {room : RoomId × List TimelineEvent} :
    PerformsE (Sized config) (dispatchRoom config room) := by
  rw [dispatchRoom]
  split
  · exact performsE_pure _
  · split
    · exact performsE_throw _
    · refine performsE_forEach fun event => ?_
      cases event with
      | other => exact performsE_pure _
      | text event =>
        refine performsE_sync ⟨by simp, ?_, by simp⟩
        rintro args ⟨⟩
        rfl

/-- Storing the token creates no handler. -/
theorem sized_setSince {token : Token} : PerformsE (Sized config) (Store.setSince token) :=
  performsE_bind (performsE_bind (performsE_sync ⟨nofun, nofun, nofun⟩) fun _ => performsE_pure _)
    fun _ => performsE_bind (performsE_execute ⟨nofun, nofun, nofun⟩) fun _ =>
      performsE_commit ⟨nofun, nofun, nofun⟩

/-- A poll creates handlers of the configured `max_message_length` only. -/
theorem sized_pollRound {since : Option Token} :
    PerformsE (Sized config) (pollRound config since) := by
  have hsleep : PerformsE (Sized config) (await .sleep) := performsE_await ⟨nofun, nofun, nofun⟩
  refine performsE_bind (performsE_attempt (performsE_await ⟨nofun, nofun, nofun⟩)) fun resp => ?_
  split
  · exact performsE_throw _
  · exact performsE_bind hsleep fun _ => performsE_pure _
  · exact performsE_bind hsleep fun _ => performsE_pure _
  · refine performsE_bind (performsE_attempt ?_) fun done => ?_
    · exact performsE_bind sized_setSince fun _ => performsE_forEach fun _ => sized_dispatchRoom
    · split
      · exact performsE_throw _
      · exact performsE_bind hsleep fun _ => performsE_pure _

/-- The priming sync creates no handler. -/
theorem sized_pollStart : PerformsE (Sized config) pollStart := by
  refine performsE_bind (performsE_execute ⟨nofun, nofun, nofun⟩) fun since => ?_
  split
  · exact performsE_pure _
  · refine performsE_bind (performsE_await ⟨nofun, nofun, nofun⟩) fun seed => ?_
    split
    · exact performsE_bind sized_setSince fun _ => performsE_pure _
    · exact performsE_pure _

/-- The startup creates no handler. -/
theorem sized_startup : PerformsE (Sized config) (startup config) := by
  refine performsE_bind ?_ fun _ => ?_
  · rw [notifyStartup]
    split
    · exact performsE_pure _
    · exact performsE_tryExcept ((plain_notice _ _ _).mono fun _ he =>
        sized_of_unclocked (unclocked_of_plain he)) fun _ => performsE_pure _
  refine performsE_bind (performsE_await (by simp [Sized])) fun _ => ?_
  exact performsE_bind (performsE_sync (by simp [Sized])) fun _ => performsE_sync (by simp [Sized])

/-- Whatever main does, its handlers have the configured `max_message_length`. -/
theorem sized_main : FiberPerforms (Sized config) (mainFiber config) := by
  have hend : endMain.Performs (Sized config) := by
    obtain ⟨rest, heq, hrest⟩ := endMain_eq
    rw [heq]
    refine ⟨⟨nofun, nofun, nofun⟩, fun u => (hrest u).mono fun e he =>
      ⟨?_, fun args => ?_, fun turn => ?_⟩⟩ <;> rintro rfl <;> exact he.elim
  refine ⟨Performs.bind (performsE_started ⟨nofun, nofun, nofun⟩ sized_startup) fun res => ?_,
    fun since => Performs.bind sized_pollRound fun _ => performs_nextRound hend⟩
  split
  · exact ⟨⟨nofun, nofun, nofun⟩, fun _ => trivial⟩
  · exact Performs.bind sized_pollStart fun _ => performs_nextRound hend

end

/-- Every task of the dispatcher looks for gates. -/
def gateCoverage (config : MatrixDispatcher.Config) (hmax : 0 < config.maxMessageLength.getD 4000) :
    Coverage config (gateMonitor (config.maxMessageLength.getD 4000)) where
  enter _ := .off
  ok
    | .handle args => args.maxMessageLength = config.maxMessageLength.getD 4000
    | _ => True
  ok_main := trivial
  create := by
    intro g request r g' hnext
    cases request with
    | handle args =>
      cases GateStage.step_cases hnext with
      | idle _ _ _ hcreate => exact hcreate args rfl
    | _ => trivial
  atomic _ := rfl
  conforms := by
    intro request hok
    cases request with
    | main => exact gates_apart sized_main fun _ => ignores_sized
    | cleanup =>
      refine gates_apart cleanup_performs fun e he =>
        ignores_off ⟨?_, fun args => ?_, fun turn => ?_⟩ <;> rintro rfl <;> cases he.1
    | reconcile => exact gates_reconcile hmax
    | handle args =>
      have hargs : args.maxMessageLength = config.maxMessageLength.getD 4000 := hok
      rw [← hargs] at hmax ⊢
      exact gates_handler hmax

end MatrixDispatcher
