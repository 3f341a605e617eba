import MatrixDispatcher.Discipline.Footprint
import MatrixDispatcher.Discipline.Rules
import MatrixDispatcher.Discipline.Supervise

/-!
# The discipline of speech

When a task posts, relative to its turn: not while the runner works, and not after it has recorded
an approval; and once its turn is over, the handler of a message is silent.

* `Phase` — how far the turn of a task has come, as the room can tell.
* `SpeechStage.step` — the automaton; `speechMonitor` is made of it.
* `speechCoverage` — every task of the dispatcher follows it.
-/

namespace MatrixDispatcher

open Py Coro

/-- How far a turn has come. -/
inductive Phase where
  /-- The runner is called. -/
  | running
  /-- The call has failed before there was a child to attend to. -/
  | unstarted
  /-- The child is left. -/
  | left (outcome : Outcome)
  /-- An approval is recorded for the turn. -/
  | noted
  deriving DecidableEq

/-- The task of the turn may post. -/
def Phase.speaks : Phase → Bool
  | unstarted | left _ => true
  | running | noted => false

/-- What an effect and its response mean for the speech of a task. -/
inductive SpeechAct where
  /-- The task posts, and the post may arrive in a room. -/
  | say (posted : Option RoomId)
  | call (turn : Turn)
  | leave (roomId : RoomId) (outcome : Outcome)
  /-- A child could not be started, or the task is cancelled before it attends to it. -/
  | miss
  | note (row : PendingRow)
  | release
  | other

/-- What an effect means. -/
def SpeechAct.of : (e : Eff) → e.Ret → SpeechAct
  | .await (.roomSend room _ _), .ok _ => .say (some room)
  | .await (.roomSend _ _ _), .error _ => .say none
  | .await (.exec _ _ _ _), .error _ => .miss
  | .await .pause, .error _ => .miss
  | .sync (.mark (.runnerCall turn)), _ => .call turn
  | .sync (.mark (.leftRun room _ outcome)), _ => .leave room outcome
  | .sync (.execute (.insertPendingApproval row)), .ok _ => .note row
  | .sync (.lockRelease _), _ => .release
  | _, _ => .other

/-- Where a task is. A task that comes again, the reconcile loop, may take one turn after the
other. -/
inductive SpeechStage where
  /-- The task does not run. -/
  | absent
  /-- The task takes no turns. -/
  | apart
  /-- The task has no turn, and has not had one or comes again. -/
  | free (again : Bool)
  | turn (again : Bool) (turn : Turn) (phase : Phase)
  /-- The task has had its turn. -/
  | silent

/-- The row is that of an approval which the turn waits for. -/
def RowFits (row : PendingRow) (turn : Turn) : Prop :=
  row.sessionId = turn.sessionId ∧ row.threadRootId = turn.threadRootId ∧ row.roomId = turn.roomId

instance (row : PendingRow) (turn : Turn) : Decidable (RowFits row turn) :=
  inferInstanceAs (Decidable (_ ∧ _))

namespace SpeechStage

/-- The stage of a task that has released a lock. -/
def released (again : Bool) : SpeechStage := if again then free true else silent

/-- The turn of the task, and how far it has come. -/
def turn? : SpeechStage → Option (Turn × Phase)
  | turn _ t phase => some (t, phase)
  | _ => none

/-- The task may post. -/
def speaks : SpeechStage → Bool
  | apart | free _ => true
  | turn _ _ phase => phase.speaks
  | absent | silent => false

/-- The automaton of speech. -/
def step : SpeechStage → SpeechAct → Option SpeechStage
  | g, .other => some g
  | turn b t .running, .miss => some (turn b t .unstarted)
  | g, .miss => some g
  | g, .say _ => if g.speaks then some g else none
  | free b, .call t => some (turn b t .running)
  | turn b t .running, .leave room outcome =>
    if room = t.roomId then some (turn b t (.left outcome)) else none
  | turn b t (.left .result), .note row => if RowFits row t then some (turn b t .noted) else none
  | turn _ _ .running, .release => none
  | turn b _ _, .release => some (released b)
  | free b, .release => some (released b)
  | _, _ => none

end SpeechStage

/-- The transitions of `SpeechStage.step`. -/
inductive SpeechStep : SpeechStage → SpeechAct → SpeechStage → Prop
  | other (g) : SpeechStep g .other g
  | unstarted (b t) : SpeechStep (.turn b t .running) .miss (.turn b t .unstarted)
  | miss (g) : SpeechStep g .miss g
  | say (g : SpeechStage) (posted) (h : g.speaks = true) : SpeechStep g (.say posted) g
  | call (b t) : SpeechStep (.free b) (.call t) (.turn b t .running)
  | leave (b) (t : Turn) (outcome) :
    SpeechStep (.turn b t .running) (.leave t.roomId outcome) (.turn b t (.left outcome))
  | note (b t row) (h : RowFits row t) :
    SpeechStep (.turn b t (.left .result)) (.note row) (.turn b t .noted)
  | finish (b t phase) (h : phase ≠ .running) :
    SpeechStep (.turn b t phase) .release (.released b)
  | release (b) : SpeechStep (.free b) .release (.released b)

/-- Every transition of the automaton is one of those. -/
theorem SpeechStage.step_cases {g g' : SpeechStage} {act : SpeechAct} (h : g.step act = some g') :
    SpeechStep g act g' := by
  rw [step.eq_def] at h
  split at h
  · cases h
    exact .other _
  · cases h
    exact .unstarted _ _
  · cases h
    exact .miss _
  · split at h
    · next hspeaks =>
      cases h
      exact .say _ _ hspeaks
    · cases h
  · cases h
    exact .call _ _
  · split at h
    · next hroom =>
      cases h
      subst hroom
      exact .leave _ _ _
    · cases h
  · split at h
    · next hrow =>
      cases h
      exact .note _ _ _ hrow
    · cases h
  · cases h
  · next hne =>
    cases h
    exact .finish _ _ _ fun hrunning => hne (hrunning ▸ rfl)
  · cases h
    exact .release _
  · cases h

/-- The monitor of speech. -/
def speechMonitor : Monitor Eff Eff.Ret SpeechStage where
  next g e r := g.step (SpeechAct.of e r)
  atomic _ := false
  final g := g.turn? = none
  idle := .absent
  atomic_idle := rfl

/-- From stage `g`, the coroutine keeps the discipline of speech and ends as `Q` says. -/
abbrev FollowsSpeech {α : Type} (g : SpeechStage) (p : Py α)
    (Q : Except Exn α → SpeechStage → Prop) : Prop :=
  speechMonitor.Follows Eff.awaits g p.run Q

section

variable {α β : Type} {g : SpeechStage} {b : Bool} {turn : Turn}

/-! ## Effects that do not matter -/

namespace SpeechStage

/-- What does not concern speech leaves the stage as it is. -/
theorem step_other (g : SpeechStage) : g.step .other = some g := by
  cases g <;> rfl

/-- A task that may post does so without a change of its stage. -/
theorem step_say (h : g.speaks = true) (posted : Option RoomId) :
    g.step (.say posted) = some g := by
  cases g with
  | turn b t phase => cases phase <;> first | rfl | cases h
  | _ => first | rfl | cases h

/-- A miss matters to a running turn only. -/
theorem step_miss (h : g.speaks = true) : g.step .miss = some g := by
  cases g with
  | turn b t phase => cases phase <;> first | rfl | cases h
  | _ => rfl

/-- A turn that the runner has left, or never began, ends with the release of the lock. -/
theorem step_release {phase : Phase} (h : phase ≠ .running) :
    (SpeechStage.turn b turn phase).step .release = some (released b) := by
  cases phase <;> first | rfl | exact absurd rfl h

end SpeechStage

open SpeechStage

/-- A turn that may post is not running. -/
theorem Phase.ne_running {phase : Phase} (h : phase.speaks = true) : phase ≠ .running := by
  rintro rfl
  cases h

/-- The effect begins or ends the work of a turn, or records an approval. -/
def Eff.heard : Eff → Bool
  | .sync (.mark (.runnerCall _)) | .sync (.mark (.leftRun _ _ _)) | .sync (.lockRelease _)
  | .sync (.execute (.insertPendingApproval _)) => true
  | _ => false

/-- A task that may post may do anything that does not concern its turn. -/
theorem speechMonitor_ignores {e : Eff} (hg : g.speaks = true) (he : e.heard = false) :
    speechMonitor.Ignores g e := by
  intro r
  suffices h : SpeechAct.of e r = .other ∨ (∃ posted, SpeechAct.of e r = .say posted) ∨
      SpeechAct.of e r = .miss by
    change g.step (SpeechAct.of e r) = some g
    rcases h with h | ⟨posted, h⟩ | h
    · rw [h, step_other]
    · rw [h, step_say hg]
    · rw [h, step_miss hg]
  cases e with
  | sync e =>
    refine .inl ?_
    cases e with
    | execute s => cases s <;> first | rfl | cases he
    | mark m => cases m <;> first | rfl | cases he
    | _ => first | rfl | cases he
  | await e =>
    cases e with
    | roomSend _ _ _ => cases r <;> exact .inr (.inl ⟨_, rfl⟩)
    | exec _ _ _ _ | pause => cases r <;> first | exact .inl rfl | exact .inr (.inr rfl)
    | _ => exact .inl rfl

/-- `Plain` effects do not concern turns. -/
theorem heard_of_plain {e : Eff} (h : Plain e) : e.heard = false := by
  cases e with
  | sync e =>
    cases e with
    | execute s => cases s <;> first | rfl | cases h
    | _ => first | rfl | cases h
  | await e => rfl

/-- What `cancel_room` does does not concern turns. -/
theorem heard_of_cancel {e : Eff} (h : CancelEff e) : e.heard = false := by
  unfold CancelEff at h
  split at h <;> first | rfl | exact heard_of_plain (.of_aside h.1)

/-- The effects of a program do not concern turns. -/
abbrev Unheard (p : Py α) : Prop := PerformsE (fun e => e.heard = false) p

/-- A program of `Plain` effects is `Unheard`. -/
theorem unheard_plain {p : Py α} (hp : PerformsE Plain p) : Unheard p :=
  hp.mono fun _ => heard_of_plain

/-- A program that does not concern turns. -/
theorem speech_unheard {p : Py α} {Q : Except Exn α → SpeechStage → Prop} (hp : Unheard p)
    (hg : g.speaks = true) (hQ : ∀ res, Q res g) : FollowsSpeech g p Q :=
  Follows.ignored (hp.mono fun _ => speechMonitor_ignores hg) rfl hQ

/-- A program that does not concern turns, then `f`. -/
theorem speech_unheard_bind {p : Py α} {f : α → Py β} {Q : Except Exn β → SpeechStage → Prop}
    (hp : Unheard p) (hg : g.speaks = true) (hok : ∀ a, FollowsSpeech g (f a) Q)
    (herror : ∀ x, Q (.error x) g) : FollowsSpeech g (p >>= f) Q :=
  Follows.ignored_bind (hp.mono fun _ => speechMonitor_ignores hg) rfl hok herror

/-- One effect that does not concern turns, then `f`. -/
theorem speech_sync_bind {e : SyncEff} {f : e.Ret → Py β} {Q : Except Exn β → SpeechStage → Prop}
    (he : (Eff.sync e).heard = false) (hg : g.speaks = true)
    (hok : ∀ a, FollowsSpeech g (f a) Q) : FollowsSpeech g (sync e >>= f) Q :=
  Follows.sync_bind fun r => ⟨g, speechMonitor_ignores hg he r, hok r⟩

/-! ## Turns -/

/-- The turn has been worked at. -/
def SpeechStage.Over (b : Bool) (turn : Turn) (g : SpeechStage) : Prop :=
  ∃ phase, g = .turn b turn phase ∧ phase ≠ .running

/-- The task of the turn may post. -/
def SpeechStage.Answers (b : Bool) (turn : Turn) (g : SpeechStage) : Prop :=
  ∃ phase, g = .turn b turn phase ∧ phase.speaks = true

/-- A turn whose task may post has been worked at. -/
theorem SpeechStage.Answers.worked (h : g.Answers b turn) : g.Over b turn := by
  obtain ⟨phase, hg, hspeaks⟩ := h
  exact ⟨phase, hg, Phase.ne_running hspeaks⟩

/-- In these stages the task may post. -/
theorem SpeechStage.Answers.speaks (h : g.Answers b turn) : g.speaks = true := by
  obtain ⟨phase, rfl, hspeaks⟩ := h
  exact hspeaks

/-- While the runner works, its task waits for the child. -/
theorem unheard_communicateOrKill {pid : Pid} {timeout : Nat} :
    PerformsE (speechMonitor.Ignores (.turn b turn .running)) (communicateOrKill pid timeout) := by
  refine performsE_tryCatch (performsE_await fun _ => rfl) fun x => ?_
  split
  · refine performsE_bind (performsE_mk ⟨fun _ => rfl, fun _ => trivial⟩) fun _ => ?_
    refine performsE_bind (performsE_await fun _ => rfl) fun _ => ?_
    refine performsE_bind ?_ fun _ => performsE_throw _
    exact performsE_tryExcept (performsE_await fun _ => rfl) fun _ => performsE_pure _
  · exact performsE_throw _

/-- Nothing is posted until the runner returns. -/
theorem speech_runClaude {args : List Str} {dir : Str} {agent : AgentName} {timeout : Nat} :
    FollowsSpeech (.turn b turn .running) (runClaude args dir agent turn.roomId timeout turn)
      fun res g => g.Answers b turn ∧ ∀ v, res = .ok v → g = .turn b turn (.left .result) := by
  have hunstarted : (SpeechStage.turn b turn .unstarted).Answers b turn := ⟨_, rfl, rfl⟩
  refine Monitor.Follows.bindE (Follows.network_landing rfl fun launched => ?_)
  rcases launched with x | pid
  · refine ⟨.turn b turn .unstarted, rfl, rfl, fun _ => ⟨hunstarted, by simp⟩, fun landed => ?_⟩
    refine ⟨.turn b turn .unstarted, speechMonitor_ignores rfl rfl _, ?_⟩
    rcases landed with y | _ <;> exact ⟨hunstarted, by simp⟩
  refine ⟨.turn b turn .running, rfl, rfl, by simp, fun landed => ?_⟩
  rcases landed with y | _
  · exact ⟨.turn b turn .unstarted, rfl, hunstarted, by simp⟩
  refine ⟨.turn b turn .running, rfl, ?_⟩
  refine Follows.sync_bind fun _ => ⟨.turn b turn .running, rfl, ?_⟩
  refine Monitor.Follows.bindE (Monitor.Follows.attempt (Follows.ignored (performsE_finallyDo
    unheard_communicateOrKill ⟨fun _ => rfl, fun _ => trivial⟩) rfl fun res => ?_))
  refine Follows.sync_bind fun _ => ⟨.turn b turn (.left (outcomeOf res)), if_pos rfl, ?_⟩
  rcases res with x | ⟨out, err⟩
  · exact ⟨⟨_, rfl, rfl⟩, by simp⟩
  · exact Follows.sync_bind fun _ => ⟨_, rfl, ⟨_, rfl, rfl⟩, fun _ _ => rfl⟩

/-- The turn begins with the call. -/
theorem speech_callRunner {turn : Turn} {dir : Str} {timeout : Nat} :
    FollowsSpeech (.free b) (callRunner turn dir timeout) fun res g =>
      g.Answers b turn ∧ ∀ v, res = .ok v → g = .turn b turn (.left .result) :=
  Follows.sync_bind fun _ => ⟨_, rfl, speech_runClaude⟩

/-- What is recorded after a turn, and nothing is posted then. -/
theorem speech_recordPendingIfGated {start : Time} :
    FollowsSpeech (.turn b turn (.left .result))
      (recordPendingIfGated turn.agentName turn.roomId turn.sessionId turn.threadRootId start)
      fun _ g => g.Over b turn := by
  have hleft : (SpeechStage.turn b turn (.left .result)).Over b turn := ⟨_, rfl, by decide⟩
  have hnoted : (SpeechStage.turn b turn .noted).Over b turn := ⟨_, rfl, by decide⟩
  refine speech_sync_bind rfl rfl fun _ => ?_
  refine speech_sync_bind rfl rfl fun enabled => ?_
  cases enabled with
  | false => exact hleft
  | true =>
    have hfind : Unheard (Registry.findPendingApproval turn.agentName start) := by
      refine performsE_bind (performsE_sync rfl) fun enabled => ?_
      split
      · exact performsE_tryExcept (performsE_network rfl rfl) fun _ => performsE_pure _
      · exact performsE_pure _
    refine speech_unheard_bind hfind rfl (fun found => ?_) fun _ => hleft
    rcases found with _ | p
    · exact hleft
    refine Monitor.Follows.bindE ?_
    refine speech_unheard_bind (unheard_plain plain_now) rfl (fun now => ?_) fun _ => hleft
    refine Monitor.Follows.bindE (Follows.execute fun res => ?_)
    rcases res with x | _
    · exact ⟨_, rfl, hleft⟩
    refine ⟨.turn b turn .noted, if_pos ⟨rfl, rfl, rfl⟩, ?_⟩
    refine Follows.commit fun res => ⟨.turn b turn .noted, rfl, ?_⟩
    rcases res with x | _
    · exact hnoted
    -- the approval is linked to the session, whatever the registry answers
    have hlink : PerformsE (speechMonitor.Ignores (.turn b turn .noted))
        (Registry.linkSession p.approvalId turn.sessionId) := by
      have hmiss : speechMonitor.Ignores (.turn b turn .noted) (.await .pause) := by
        intro r
        cases r <;> rfl
      refine performsE_bind (performsE_sync fun _ => rfl) fun enabled => ?_
      split
      · exact performsE_tryExcept (performsE_network (fun _ => rfl) hmiss) fun _ => performsE_pure _
      · exact performsE_pure _
    exact Follows.ignored hlink rfl fun _ => hnoted

/-- The part of a turn that runs under the lock ends before the runner is called or after it has
returned. -/
def SpeechStage.Done (b : Bool) (g : SpeechStage) : Prop :=
  g = .free b ∨ ∃ turn, g.Over b turn

/-- What is done with under the lock may release it. -/
theorem SpeechStage.Done.release (h : g.Done b) : g.step .release = some (released b) := by
  rcases h with rfl | ⟨turn, phase, rfl, hphase⟩
  · rfl
  · exact step_release hphase

/-- A turn whose task may post is done with under the lock. -/
theorem SpeechStage.Answers.done (h : g.Answers b turn) : g.Done b := .inr ⟨turn, h.worked⟩

/-- The turn of an approved approval. -/
theorem speech_resumeTurn {config : MatrixDispatcher.Config} {row : PendingRow} {dir : Str}
    {agent : AgentName} {timeout : Nat} :
    FollowsSpeech (.free b) (resumeTurn config row dir agent timeout) fun _ g => g.Done b := by
  refine speech_sync_bind rfl rfl fun start => ?_
  refine Monitor.Follows.bindE (Monitor.Follows.attempt (speech_callRunner.mono ?_))
  rintro res g ⟨hanswers, hok⟩
  dsimp only
  split
  · exact hanswers.done
  · exact speech_unheard (unheard_plain (plain_postAlias _ _ _ _)) hanswers.speaks
      fun _ => hanswers.done
  · exact speech_unheard (unheard_plain (plain_postAlias _ _ _ _)) hanswers.speaks
      fun _ => hanswers.done
  · obtain rfl := hok _ rfl
    refine speech_unheard_bind (unheard_plain (plain_touchSession _)) rfl (fun _ => ?_)
      fun _ => hanswers.done
    refine speech_unheard_bind (unheard_plain (plain_postResponse _ _ _ _ _ _ _ _ _)) rfl
      (fun _ => ?_) fun _ => hanswers.done
    exact speech_recordPendingIfGated.mono fun _ _ hover => .inr ⟨_, hover⟩

/-- The turn of a thread reply. -/
theorem speech_replyTurn {args : HandlerArgs} {message : Str} {row : SessionRow} {ack : EventId} :
    FollowsSpeech (.free b) (replyTurn args message row ack) fun _ g => g.Done b := by
  refine speech_sync_bind rfl rfl fun start => ?_
  refine Monitor.Follows.bindE (Monitor.Follows.attempt (speech_callRunner.mono ?_))
  rintro res g ⟨hanswers, hok⟩
  dsimp only
  split
  · exact speech_unheard (unheard_plain (plain_postAlias _ _ _ _)) hanswers.speaks
      fun _ => hanswers.done
  · exact hanswers.done
  · obtain rfl := hok _ rfl
    refine speech_unheard_bind (unheard_plain (plain_touchSession _)) rfl (fun _ => ?_)
      fun _ => hanswers.done
    refine speech_unheard_bind (unheard_plain (plain_postResponse _ _ _ _ _ _ _ _ _)) rfl
      (fun _ => ?_) fun _ => hanswers.done
    exact speech_recordPendingIfGated.mono fun _ _ hover => .inr ⟨_, hover⟩

/-- The turn of a new session. -/
theorem speech_spawnTurn {args : HandlerArgs} {message : Str} :
    FollowsSpeech (.free b) (spawnTurn args message) fun _ g => g.Done b := by
  have hfree : (SpeechStage.free b).Done b := .inl rfl
  refine speech_sync_bind rfl rfl fun session => ?_
  refine speech_unheard_bind (unheard_plain (plain_postMessage _ _ _)) rfl (fun ack => ?_)
    fun _ => hfree
  refine speech_unheard_bind (unheard_plain (plain_insertSession _ _ _ _)) rfl (fun _ => ?_)
    fun _ => hfree
  refine speech_unheard_bind (unheard_plain (plain_registerAlias _ _)) rfl (fun _ => ?_)
    fun _ => hfree
  refine speech_unheard_bind (unheard_plain (plain_registerSession _ _ _ _ _)) rfl (fun _ => ?_)
    fun _ => hfree
  refine speech_sync_bind rfl rfl fun start => ?_
  refine Monitor.Follows.bindE (Monitor.Follows.attempt (speech_callRunner.mono ?_))
  rintro res g ⟨hanswers, hok⟩
  dsimp only
  split
  · exact speech_unheard (unheard_plain (plain_postAlias _ _ _ _)) hanswers.speaks
      fun _ => hanswers.done
  · exact hanswers.done
  · obtain rfl := hok _ rfl
    refine speech_unheard_bind (unheard_plain (plain_postResponse _ _ _ _ _ _ _ _ _)) rfl
      (fun _ => ?_) fun _ => hanswers.done
    exact speech_recordPendingIfGated.mono fun _ _ hover => .inr ⟨_, hover⟩

/-- The turn of a message outside threads, its rate limit included. -/
theorem speech_rootTurn {args : HandlerArgs} {message : Str} :
    FollowsSpeech (.free b) (rootTurn args message) fun _ g => g.Done b := by
  refine speech_sync_bind rfl rfl fun now => ?_
  refine speech_sync_bind rfl rfl fun last => ?_
  dsimp only
  split
  · exact speech_unheard (unheard_plain (plain_notice _ _ _)) rfl fun _ => .inl rfl
  · exact speech_sync_bind rfl rfl fun _ => speech_spawnTurn

/-- What runs under a lock, and is not heard of any more when the lock is released. -/
theorem speech_withRoomLock {room : RoomId} {body : Py Unit}
    (hbody : FollowsSpeech (.free b) body fun _ g => g.Done b) :
    FollowsSpeech (.free b) (withRoomLock room body) fun _ g => g = .free b ∨ g = released b := by
  have hacquire : Unheard (acquireRoomLock room) := by
    refine performsE_bind (performsE_sync rfl) fun got => ?_
    split
    · exact performsE_pure _
    · exact performsE_await rfl
  refine speech_unheard_bind hacquire rfl (fun _ => ?_) fun _ => .inl rfl
  exact Monitor.Follows.finallyDo <| hbody.mono fun _ _ hdone =>
    Follows.perform_sync fun _ => ⟨released b, hdone.release, .inr rfl⟩

/-! ## Messages -/

/-- Commands do not concern turns. -/
theorem unheard_handleCommand {args : HandlerArgs} {message : Str} :
    Unheard (handleCommand args message) := by
  rw [handleCommand]
  dsimp only
  split
  · exact unheard_plain (plain_handleHelpCommand _ _ _)
  split
  · exact unheard_plain (plain_handleSessionsCommand _ _ _ _ _)
  split
  · exact unheard_plain (plain_handleRecapCommand _ _ _ _ _ _)
  split
  · exact unheard_plain (plain_handleMirrorCommand _ _ _ _ _ _)
  split
  · exact (cancel_handleCancelCommand _ _ _).mono fun _ => heard_of_cancel
  · exact unheard_plain (plain_notice _ _ _)

/-- The handler of a message posts before its turn, or in it. -/
theorem speech_handleEvent {args : HandlerArgs} :
    FollowsSpeech (.free b) (handleEvent args) fun _ g => g = .free b ∨ g = released b := by
  rw [handleEvent]
  split
  · exact .inl rfl
  refine speech_unheard_bind (performsE_fromExcept _) rfl (fun root => ?_) fun _ => .inl rfl
  rcases root with _ | root
  · dsimp only
    split
    · exact speech_unheard unheard_handleCommand rfl fun _ => .inl rfl
    · exact speech_withRoomLock speech_rootTurn
  refine speech_unheard_bind (performsE_execute rfl) rfl (fun row => ?_) fun _ => .inl rfl
  rcases row with _ | row
  · exact speech_unheard (unheard_plain (plain_handleOrphan _ _)) rfl fun _ => .inl rfl
  refine speech_unheard_bind (unheard_plain (plain_postMessage _ _ _)) rfl (fun ack => ?_)
    fun _ => .inl rfl
  refine speech_unheard_bind (unheard_plain (plain_registerAlias _ _)) rfl (fun _ => ?_)
    fun _ => .inl rfl
  refine speech_unheard_bind (unheard_plain (plain_registerSession _ _ _ _ _)) rfl (fun _ => ?_)
    fun _ => .inl rfl
  exact speech_withRoomLock speech_replyTurn

/-! ## Reconcile passes -/

section

variable {config : MatrixDispatcher.Config}

/-- Deleting a row does not concern turns. -/
theorem unheard_deletePendingApproval {a : ApprovalId} {site : DeleteSite} :
    Unheard (Store.deletePendingApproval a site) :=
  performsE_bind (performsE_execute rfl) fun _ => performsE_commit rfl

/-- The resume of an approved row leaves the loop free for the next one. -/
theorem speech_resumeOnApproval {row : PendingRow} :
    FollowsSpeech (.free true) (resumeOnApproval config row) fun _ g => g = .free true := by
  rw [resumeOnApproval]
  split
  · exact speech_unheard unheard_deletePendingApproval rfl fun _ => rfl
  split
  · exact rfl
  refine speech_unheard_bind unheard_deletePendingApproval rfl (fun _ => ?_) fun _ => rfl
  exact (speech_withRoomLock speech_resumeTurn).mono fun _ _ h => h.elim id id

/-- So does the handling of any row. -/
theorem speech_reconcileRow {states : List (ApprovalId × ApprovalState)} {row : PendingRow} :
    FollowsSpeech (.free true) (reconcileRow config states row) fun _ g => g = .free true := by
  rw [reconcileRow]
  split
  · exact speech_resumeOnApproval
  · refine speech_unheard_bind unheard_deletePendingApproval rfl (fun _ => ?_) fun _ => rfl
    exact speech_unheard (unheard_plain (plain_postAlias _ _ _ _)) rfl fun _ => rfl
  · exact rfl

/-- And so do all rows of a pass, one after the other. -/
theorem speech_reconcileRows {pending : List PendingRow} :
    FollowsSpeech (.free true) (reconcileRows config pending) fun _ g => g = .free true := by
  refine speech_unheard_bind (unheard_plain plain_now) rfl (fun now => ?_) fun _ => rfl
  refine speech_sync_bind rfl rfl fun _ => ?_
  refine speech_unheard_bind (performsE_expireStale (fun _ _ _ => rfl) rfl) rfl (fun live => ?_)
    fun _ => rfl
  refine speech_sync_bind rfl rfl fun _ => ?_
  split
  · exact rfl
  refine speech_unheard_bind (performsE_getApprovalStates rfl rfl rfl) rfl (fun states => ?_)
    fun _ => rfl
  refine Monitor.Follows.forEach _ (J := fun _ g => g = .free true) rfl (fun _ h => h) ?_
  rintro row rest _ rfl
  refine speech_reconcileRow.mono fun res g hg => ?_
  cases res <;> exact hg

/-- A round of the reconcile loop takes one turn after the other. -/
theorem speech_reconcileRound :
    FollowsSpeech (.free true) (reconcileRound config) fun _ g => g = .free true := by
  have hpass : FollowsSpeech (.free true) (reconcileOnce config) fun _ g => g = .free true := by
    refine Monitor.Follows.finallyDo ?_
    refine Monitor.Follows.mono (Q := fun _ g => g = .free true) (fun _ g hg => ?_) ?_
    · subst hg
      exact Follows.perform_sync fun _ => ⟨_, rfl, rfl⟩
    refine speech_sync_bind rfl rfl fun enabled => ?_
    split
    · refine speech_unheard_bind (performsE_execute rfl) rfl (fun pending => ?_) fun _ => rfl
      split
      · exact rfl
      · exact speech_reconcileRows
    · exact rfl
  refine Monitor.Follows.bindE (Follows.tryExcept (hpass.mono fun res g hg => ?_))
  subst hg
  have hsleep : FollowsSpeech (.free true) (await .sleep) fun _ g => g = .free true :=
    speech_unheard (performsE_await rfl) rfl fun _ => rfl
  cases res with
  | ok _ => exact hsleep
  | error _ => exact ⟨rfl, hsleep⟩

/-! ## Fibers -/

/-- A round of the reconcile loop ends so that the next one can begin. -/
theorem speech_round {p : Py Unit} (hp : FollowsSpeech (.free true) p fun _ g => g = .free true) :
    speechMonitor.Follows Eff.awaits (.free true) (do nextRound endTask (← p.run))
      (speechMonitor.RoundEnd fun _ g => g = .free true) := by
  refine Monitor.Follows.bind hp fun res g hg => ?_
  subst hg
  cases res with
  | ok _ => exact ⟨rfl, rfl⟩
  | error _ => exact ⟨fun _ => rfl, fun _ => ⟨.free true, rfl, rfl, rfl⟩⟩

/-- The fiber of the reconcile loop keeps the discipline over all of its passes. -/
theorem reconcile_speaks :
    speechMonitor.Conforms Eff.awaits (.free true) (reconcileFiber config) := by
  refine ⟨fun _ g => g = .free true, ?_, ?_⟩
  · have hstarted : FollowsSpeech (.free true)
        (do Py.await .start; sync .registryEnabled : Py Bool) fun _ g => g = .free true :=
      speech_unheard (performsE_bind (performsE_await rfl) fun _ => performsE_sync rfl) rfl
        fun _ => rfl
    refine Monitor.Follows.bind hstarted fun res g hg => ?_
    subst hg
    split
    · exact speech_round speech_reconcileRound
    · exact ⟨fun _ => rfl, fun _ => ⟨.free true, rfl, rfl, rfl⟩⟩
  · rintro _ _ rfl
    exact speech_round speech_reconcileRound

/-- The task of a message keeps the discipline. -/
theorem handler_speaks {args : HandlerArgs} :
    speechMonitor.Conforms Eff.awaits (.free false) (handlerFiber args) := by
  refine Monitor.Conforms.once (Monitor.Follows.bind (Q := fun _ g =>
    g = .free false ∨ g = .silent) ?_ fun _ g hg => ?_)
  · refine speech_unheard_bind (performsE_await rfl) rfl (fun _ => ?_) fun _ => .inl rfl
    exact speech_handleEvent
  · rcases hg with rfl | rfl <;> exact Follows.perform_sync fun _ => ⟨_, rfl, rfl, rfl⟩

/-- Main does nothing that concerns turns. -/
theorem heard_of_main {e : Eff} (h : MainEff config e) : e.heard = false := by
  rw [← Bool.not_eq_true]
  intro hheard
  rw [Eff.heard.eq_def] at hheard
  -- `main` has none of the four effects
  split at hheard
  case h_5 => cases hheard
  all_goals
    rcases h with h | h | h
    · cases h.1
    · cases h
    · cases h

/-- The cleanup does nothing that concerns turns. -/
theorem heard_of_cleanup {e : Eff} (h : CleanupEff e) : e.heard = false := by
  unfold CleanupEff at h
  split at h
  · rfl
  · rfl
  · exact heard_of_plain (.of_aside h.1)

/-- Every task of the dispatcher keeps the discipline of speech. -/
def speechCoverage (config : MatrixDispatcher.Config) : Coverage config speechMonitor where
  enter
    | .main | .cleanup => .apart
    | .reconcile => .free true
    | .handle _ => .free false
  ok _ := True
  ok_main := trivial
  create _ := trivial
  atomic _ := rfl
  conforms := by
    intro request _
    cases request with
    | main =>
      exact .of_performs rfl rfl
        (main_performs.prog.mono fun _ h => speechMonitor_ignores rfl (heard_of_main h))
        fun s => (main_performs.next s).mono fun _ h => speechMonitor_ignores rfl (heard_of_main h)
    | cleanup =>
      exact .of_performs rfl rfl
        (cleanup_performs.prog.mono fun _ h => speechMonitor_ignores rfl (heard_of_cleanup h))
        fun s => (cleanup_performs.next s).mono fun _ h =>
          speechMonitor_ignores rfl (heard_of_cleanup h)
    | reconcile => exact reconcile_speaks
    | handle args => exact handler_speaks

end

end

end MatrixDispatcher
