import MatrixDispatcher.Discipline.Sessions
import MatrixDispatcher.Discipline.Supervise
import MatrixDispatcher.Discipline.Turns

/-!
# The discipline of replies

A reply that finds a session takes the lock of its room, and calls `resume_claude` with its text
before it gives up the processor, let alone the lock.

* `ReplyAct` — what an effect and its response mean for a reply.
* `ReplyStage.step` — the automaton; a stage holds the message and the session that was found.
* `replyMonitor`, `replyCoverage` — every task keeps this discipline. Tasks that are not handlers
  of replies are `apart`.
-/

namespace MatrixDispatcher

open Py Coro

variable {config : MatrixDispatcher.Config} {α β : Type}

/-- The message replies to an event that it names. -/
def HandlerArgs.Replies (args : HandlerArgs) : Prop :=
  ∃ e, extractThreadRoot args.event = .ok (some e)

instance (args : HandlerArgs) : Decidable args.Replies :=
  match h : extractThreadRoot args.event with
  | .ok (some e) => .isTrue ⟨e, h⟩
  | .ok none => .isFalse fun ⟨_, he⟩ => by rw [h] at he; cases he
  | .error _ => .isFalse fun ⟨_, he⟩ => by rw [h] at he; cases he

/-- What an effect and its response mean for a reply. -/
inductive ReplyAct where
  | lookup (found : Option SessionRow)
  | turn (act : TurnAct)

/-- What an effect means. -/
def ReplyAct.of : (e : Eff) → e.Ret → ReplyAct
  | .sync (.execute (.getSessionByEvent _)), .ok found => .lookup found
  | e, r => .turn (TurnAct.of e r)

/-- The act concerns the room locks, or it is the call of the runner. -/
def TurnAct.queues : TurnAct → Bool
  | tryLock _ _ | waitLock _ _ | release _ | call _ => true
  | _ => false

/-- How far a reply has come. -/
inductive ReplyStage where
  /-- The task does not run. -/
  | absent
  /-- The task is not the handler of a reply. -/
  | apart
  /-- The session is not looked up. -/
  | fresh (args : HandlerArgs)
  | found (args : HandlerArgs) (row : SessionRow)
  /-- The handler waits for the lock. -/
  | queued (args : HandlerArgs) (row : SessionRow)
  /-- It has the lock, and has not called the runner yet. -/
  | held (args : HandlerArgs) (row : SessionRow)
  /-- It has the lock, and has called the runner. -/
  | served (args : HandlerArgs) (row : SessionRow)
  /-- It neither has nor wants the lock. -/
  | left (args : HandlerArgs)

namespace ReplyStage

/-- The message of the handler. -/
def args? : ReplyStage → Option HandlerArgs
  | fresh args | found args _ | queued args _ | held args _ | served args _ | left args => some args
  | _ => none

/-- The handler has the lock and must call the runner at once. -/
def isHeld : ReplyStage → Bool
  | held _ _ => true
  | _ => false

/-- The session is still to be looked up. -/
def isFresh : ReplyStage → Bool
  | fresh _ => true
  | _ => false

/-- The automaton of replies. -/
def step : ReplyStage → ReplyAct → Option ReplyStage
  | apart, _ => some apart
  | fresh args, .lookup (some row) => some (found args row)
  | fresh args, .lookup none => some (left args)
  | g, .lookup _ => some g
  | found args row, .turn (.tryLock room got) =>
    if room = args.roomId then some (if got then held args row else queued args row) else none
  | queued args row, .turn (.waitLock room got) =>
    if room = args.roomId then some (if got then held args row else left args) else none
  | held args row, .turn (.call turn) =>
    if turn = replyOf args args.event.body.strip row then some (served args row) else none
  | served args _, .turn (.release room) =>
    if room = args.roomId then some (left args) else none
  | g, .turn act => if act.queues then none else some g

end ReplyStage

/-- The transitions of `ReplyStage.step`. -/
inductive ReplyStep : ReplyStage → ReplyAct → ReplyStage → Prop
  | apart (act) : ReplyStep .apart act .apart
  | find (args row) : ReplyStep (.fresh args) (.lookup (some row)) (.found args row)
  | miss (args) : ReplyStep (.fresh args) (.lookup none) (.left args)
  | again (g found) : ReplyStep g (.lookup found) g
  | take (args row) :
    ReplyStep (.found args row) (.turn (.tryLock args.roomId true)) (.held args row)
  | queue (args row) :
    ReplyStep (.found args row) (.turn (.tryLock args.roomId false)) (.queued args row)
  | wake (args row) :
    ReplyStep (.queued args row) (.turn (.waitLock args.roomId true)) (.held args row)
  | giveUp (args row) :
    ReplyStep (.queued args row) (.turn (.waitLock args.roomId false)) (.left args)
  | call (args row) : ReplyStep (.held args row)
      (.turn (.call (replyOf args args.event.body.strip row))) (.served args row)
  | release (args row) :
    ReplyStep (.served args row) (.turn (.release args.roomId)) (.left args)
  | quiet (g) (act : TurnAct) (h : act.queues = false) : ReplyStep g (.turn act) g

namespace ReplyStage

/-- Every transition of the automaton is one of those. -/
theorem step_cases {g g' : ReplyStage} {act : ReplyAct} (h : g.step act = some g') :
    ReplyStep g act g' := by
  rw [step.eq_def] at h
  split at h
  · cases h
    exact .apart _
  · cases h
    exact .find _ _
  · cases h
    exact .miss _
  · cases h
    exact .again _ _
  -- The lock is asked for, or waited for, with either result.
  · next got =>
    split at h
    · next hroom =>
      subst hroom
      cases got <;> cases h
      · exact .queue _ _
      · exact .take _ _
    · cases h
  · next got =>
    split at h
    · next hroom =>
      subst hroom
      cases got <;> cases h
      · exact .giveUp _ _
      · exact .wake _ _
    · cases h
  · split at h
    · next hturn =>
      subst hturn
      cases h
      exact .call _ _
    · cases h
  · split at h
    · next hroom =>
      subst hroom
      cases h
      exact .release _ _
    · cases h
  · split at h
    · cases h
    · next hquiet =>
      cases h
      exact .quiet _ _ (Bool.eq_false_iff.mpr hquiet)

end ReplyStage

/-- The monitor of replies. -/
def replyMonitor : Monitor Eff Eff.Ret ReplyStage where
  next g e r := g.step (ReplyAct.of e r)
  atomic := ReplyStage.isHeld
  final g := match g with
    | .queued _ _ | .held _ _ | .served _ _ => False
    | _ => True
  idle := .absent
  atomic_idle := rfl

/-! ## Every task follows the discipline -/

/-- From stage `g`, the coroutine keeps the discipline and ends as `Q` says. -/
abbrev FollowsReply (g : ReplyStage) (p : Py α) (Q : Except Exn α → ReplyStage → Prop) : Prop :=
  replyMonitor.Follows Eff.awaits g p.run Q

/-- Another act than those of the discipline leaves the stage. -/
theorem reply_quiet {g : ReplyStage} {e : Eff} {r : e.Ret} {act : TurnAct}
    (h : ReplyAct.of e r = .turn act) (hact : act.queues = false) :
    replyMonitor.next g e r = some g := by
  change g.step (ReplyAct.of e r) = some g
  rw [h]
  cases g <;> cases act <;> first | rfl | cases hact

theorem reply_again {g : ReplyStage} {e : Eff} {r : e.Ret} {found : Option SessionRow}
    (h : ReplyAct.of e r = .lookup found) (hg : g.isFresh = false) :
    replyMonitor.next g e r = some g := by
  change g.step (ReplyAct.of e r) = some g
  rw [h]
  cases g <;> first | rfl | cases hg

/-- Once the session is looked up, what a turn does besides its call does not concern the
discipline. -/
theorem replyMonitor_ignores {g : ReplyStage} {e : Eff} (hg : g.isFresh = false) (he : Busy e) :
    replyMonitor.Ignores g e := by
  intro r
  cases e with
  | sync e =>
    cases e with
    | execute s =>
      cases s <;> cases r <;> first | exact reply_quiet rfl rfl | exact reply_again rfl hg
    | kill _ => cases r <;> exact reply_quiet rfl rfl
    | mark m => cases m <;> first | exact reply_quiet rfl rfl | cases he
    | createTask request => cases he
    | _ => first | exact reply_quiet rfl rfl | cases he
  | await e =>
    cases e with
    | communicate _ _ | wait _ =>
      rcases r with x | _
      · cases x <;> exact reply_quiet rfl rfl
      · exact reply_quiet rfl rfl
    | pause | exec _ _ _ _ | fetchPending _ _ => cases r <;> exact reply_quiet rfl rfl
    | _ => first | exact reply_quiet rfl rfl | cases he

/-- A busy program, then `f`. -/
theorem reply_busy_bind {g : ReplyStage} {p : Py α} {f : α → Py β}
    {Q : Except Exn β → ReplyStage → Prop} (hp : PerformsE Busy p) (hg : g.isFresh = false)
    (hheld : g.isHeld = false) (hok : ∀ a, FollowsReply g (f a) Q) (herror : ∀ x, Q (.error x) g) :
    FollowsReply g (p >>= f) Q :=
  Follows.ignored_bind (hp.mono fun _ => replyMonitor_ignores hg) hheld hok herror

/-- A busy program. -/
theorem reply_busy {g : ReplyStage} {p : Py α} {Q : Except Exn α → ReplyStage → Prop}
    (hp : PerformsE Busy p) (hg : g.isFresh = false) (hheld : g.isHeld = false)
    (hQ : ∀ res, Q res g) : FollowsReply g p Q :=
  Follows.ignored (hp.mono fun _ => replyMonitor_ignores hg) hheld hQ

theorem busy_plain {p : Py α} (hp : PerformsE Plain p) : PerformsE Busy p :=
  hp.mono fun _ => Busy.of_plain

section

variable {args : HandlerArgs} {row : SessionRow}

/-- Under the lock, the runner is called at once. -/
theorem reply_replyTurn {ack : EventId} :
    FollowsReply (.held args row) (replyTurn args args.event.body.strip row ack)
      fun _ g => g = .served args row := by
  refine Follows.sync_bind fun now => ⟨.held args row, reply_quiet rfl rfl, ?_⟩
  have hresume : FollowsReply (.held args row)
      (resumeClaude row.sessionId args.event.body.strip args.projectDir args.agentName args.roomId
        args.subprocessTimeoutSeconds row.threadRootId none) fun _ g => g = .served args row :=
    Follows.sync_bind fun _ => ⟨.served args row, if_pos rfl,
      reply_busy ((run_runClaude _).mono fun _ => Busy.of_run) rfl rfl fun _ => rfl⟩
  refine Monitor.Follows.bindE (Monitor.Follows.attempt (hresume.mono fun res g hg => ?_))
  subst hg
  dsimp only
  split
  · exact reply_busy (busy_plain (plain_postAlias _ _ _ _)) rfl rfl fun _ => rfl
  · exact rfl
  · refine reply_busy ?_ rfl rfl fun _ => rfl
    refine performsE_bind (busy_plain (plain_touchSession _)) fun _ => ?_
    refine performsE_bind (busy_plain (plain_postResponse _ _ _ _ _ _ _ _ _)) fun _ => ?_
    exact (record_recordPendingIfGated _).mono fun _ => Busy.of_record

/-- `async with _room_lock(room)` around the turn of a reply. -/
theorem reply_withRoomLock {body : Py α}
    (hbody : FollowsReply (.held args row) body fun _ g => g = .served args row) :
    FollowsReply (.found args row) (withRoomLock args.roomId body) fun _ g => g = .left args := by
  have hheld : FollowsReply (.held args row)
      (Coro.finallyDo body (Coro.perform (Eff.sync (.lockRelease args.roomId))))
      fun _ g => g = .left args :=
    Monitor.Follows.finallyDo <| hbody.mono fun _ g hg => by
      subst hg
      exact Follows.perform_sync fun _ => ⟨.left args, if_pos rfl, rfl⟩
  refine Monitor.Follows.bindE (Follows.sync_bind fun got => ?_)
  cases got with
  | true => exact ⟨.held args row, if_pos rfl, hheld⟩
  | false =>
    refine ⟨.queued args row, if_pos rfl, Follows.await rfl fun res => ?_⟩
    cases res with
    | ok _ => exact ⟨.held args row, if_pos rfl, hheld⟩
    | error _ => exact ⟨.left args, if_pos rfl, rfl⟩

/-- The stages in which the handler of a reply may end. -/
def ReplyStage.Over (args : HandlerArgs) (g : ReplyStage) : Prop :=
  g = .fresh args ∨ (∃ row, g = .found args row) ∨ g = .left args

theorem reply_handleEvent (hreplies : args.Replies) :
    FollowsReply (.fresh args) (handleEvent args) fun _ g => g.Over args := by
  obtain ⟨e, he⟩ := hreplies
  rw [handleEvent]
  split
  · exact .inl rfl
  rw [he]
  refine Monitor.Follows.bindE (Follows.execute fun res => ?_)
  rcases res with x | _ | row
  · exact ⟨.fresh args, reply_quiet rfl rfl, .inl rfl⟩
  · refine ⟨.left args, rfl, ?_⟩
    exact reply_busy (busy_plain (plain_handleOrphan _ _)) rfl rfl fun _ => .inr (.inr rfl)
  · refine ⟨.found args row, rfl, ?_⟩
    have hfound : ∀ x : Exn, ReplyStage.Over args (.found args row) := fun _ =>
      .inr (.inl ⟨row, rfl⟩)
    refine reply_busy_bind (busy_plain (plain_postMessage _ _ _)) rfl rfl (fun ack => ?_) hfound
    refine reply_busy_bind (busy_plain (plain_registerAlias _ _)) rfl rfl (fun _ => ?_) hfound
    refine reply_busy_bind (busy_plain (plain_registerSession _ _ _ _ _)) rfl rfl (fun _ => ?_)
      hfound
    exact (reply_withRoomLock reply_replyTurn).mono fun _ g hg => .inr (.inr hg)

end

/-! ## Fibers -/

theorem reply_handler {args : HandlerArgs} (hreplies : args.Replies) :
    replyMonitor.Conforms Eff.awaits (.fresh args) (handlerFiber args) := by
  refine Monitor.Conforms.once (Monitor.Follows.bind (Q := fun _ g => g.Over args) ?_ ?_)
  · refine Monitor.Follows.bindE (Follows.await rfl fun res => ?_)
    refine ⟨.fresh args, reply_quiet rfl rfl, ?_⟩
    cases res with
    | error _ => exact .inl rfl
    | ok _ => exact reply_handleEvent hreplies
  · rintro _ g (rfl | ⟨row, rfl⟩ | rfl) <;>
      exact Follows.perform_sync fun _ => ⟨_, reply_quiet rfl rfl, rfl, trivial⟩

/-- The other tasks stay apart. -/
theorem reply_apart (fiber : Fiber Eff Eff.Ret) :
    replyMonitor.Conforms Eff.awaits .apart fiber :=
  .of_performs rfl trivial (.of_forall (fun _ _ => rfl) _) fun _ => .of_forall (fun _ _ => rfl) _

/-- Every task of the dispatcher keeps the discipline of replies. -/
def replyCoverage (config : MatrixDispatcher.Config) :
    Coverage config replyMonitor where
  enter
    | .handle args => if args.Replies then .fresh args else .apart
    | _ => .apart
  ok _ := True
  ok_main := trivial
  create _ := trivial
  atomic request := by
    cases request with
    | handle args =>
      dsimp only
      split <;> rfl
    | _ => rfl
  conforms := by
    intro request _
    cases request with
    | handle args =>
      dsimp only
      split
      · next hreplies => exact reply_handler hreplies
      · exact reply_apart _
    | _ => exact reply_apart _

end MatrixDispatcher
