import MatrixDispatcher.Discipline.Polls
import MatrixDispatcher.Discipline.Supervise

/-!
# Every task follows the discipline of the poll loop

The walk through `main`. The other tasks neither sync nor write the token.
-/

namespace MatrixDispatcher

open Py Coro

variable {config : MatrixDispatcher.Config} {α β : Type}

/-- From stage `g`, the coroutine keeps the discipline of the poll loop and ends as `Q` says. -/
abbrev FollowsPoll (config : MatrixDispatcher.Config) (g : PollStage) (p : Py α)
    (Q : Except Exn α → PollStage → Prop) : Prop :=
  (pollMonitor config).Follows Eff.awaits g p.run Q

namespace PollStage

theorem step_other (g : PollStage) : g.step config .other = some g := by
  cases g <;> rfl

theorem step_commit {g : PollStage} (h : g.dirty = false) (done : Bool) :
    g.step config (.commit done) = some g := by
  cases g <;> cases done <;> first | rfl | cases h

theorem head?_stored {since : Option Token} {next : Token} {todo : List HandlerArgs}
    (h : todo = [] ∨ ¬config.WellFormed) :
    (stored since next todo).head? config = some (some next) := if_pos h

/-- A sync of the loop. -/
theorem step_synced {g : PollStage} {since : Option Token} (h : g.head? config = some since)
    (result : SyncResult) :
    g.step config (.synced since result) = some (fetched config since result) := by
  cases g with
  | ready _ | stored _ _ _ | lost _ _ _ => cases since <;> cases result <;> exact if_pos h
  | _ => cases h

/-- The shutdown can begin in every stage of `main`. -/
theorem step_closing {g : PollStage} (h : g.polls = true) :
    g.step config .closing = some .closed := by
  cases g <;> first | rfl | cases h

end PollStage

open PollStage

/-- An effect that means nothing for the poll loop leaves the stage. -/
theorem poll_other {g : PollStage} {e : Eff} {r : e.Ret} (h : PollAct.of e r = .other) :
    (pollMonitor config).next g e r = some g := by
  change g.step config (PollAct.of e r) = some g
  rw [h, step_other]

/-- Neither the loop's own statements nor the end of the database nor the creation of a task. -/
def Unpolled : Eff → Prop
  | .sync (.execute .getSince) | .sync (.execute (.setSince _ _)) | .sync (.createTask _)
  | .sync .closeDb | .sync (.mark .closing) | .await (.sync _) => False
  | _ => True

/-- Such effects do not concern the poll loop. -/
theorem pollMonitor_ignores {g : PollStage} (hg : g.dirty = false) {e : Eff} (he : Unpolled e) :
    (pollMonitor config).Ignores g e := by
  intro r
  cases e with
  | sync e =>
    cases e with
    | execute s => cases s <;> first | exact poll_other rfl | cases he
    | commit => cases r <;> exact step_commit hg _
    | createTask request => cases he
    | mark m => cases m <;> first | exact poll_other rfl | cases he
    | _ => first | exact poll_other rfl | cases he
  | await e => cases e <;> first | exact poll_other rfl | cases he

/-- The effects of messages are such effects. -/
theorem unpolled_of_handler {e : Eff} (h : HandlerEff e) : Unpolled e := by
  unfold Unpolled
  split <;> trivial

/-- So are those of passes. -/
theorem unpolled_of_reconcile {e : Eff} (h : ReconcileEff e) : Unpolled e := by
  unfold Unpolled
  split <;> trivial

/-! ## The start of the loop -/

/-- `main` up to the poll loop does not concern it. -/
theorem poll_startup : PerformsE ((pollMonitor config).Ignores .boot)
    (do Py.await .start; startup config : Py Unit) := by
  have hplain : ∀ e, Plain e → (pollMonitor config).Ignores .boot e := fun e he =>
    pollMonitor_ignores rfl (unpolled_of_handler (.of_turn (.of_plain he)))
  -- The notification is a post at most, and its failure is only logged.
  have hnotify : PerformsE Plain (notifyStartup config) := by
    rw [notifyStartup]
    split
    · exact performsE_pure _
    · exact performsE_tryExcept (plain_notice _ _ _) fun _ => performsE_pure _
  refine performsE_bind (performsE_await fun _ => poll_other rfl) fun _ => ?_
  refine performsE_bind (hnotify.mono hplain) fun _ => ?_
  refine performsE_bind (performsE_await fun r => ?_) fun _ => ?_
  · cases r <;> exact poll_other rfl
  refine performsE_bind (performsE_sync fun _ => poll_other rfl) fun _ => ?_
  exact performsE_sync fun _ => poll_other rfl

/-- A token is stored. -/
theorem poll_setSince {g refused lost : PollStage} (written stored : PollStage) {next : Token}
    {Q : Except Exn Unit → PollStage → Prop}
    (hwrite : g.step config (.write next) = some written)
    (hrefused : g.step config .refused = some refused)
    (hstore : written.step config (.commit true) = some stored)
    (hlose : written.step config (.commit false) = some lost) (hok : Q (.ok ()) stored)
    (herror : ∀ x, Q (.error x) refused ∧ Q (.error x) lost) :
    FollowsPoll config g (Store.setSince next) Q := by
  -- The reading of the clock, the statement and the commit; the statement and the commit may fail.
  refine Follows.sync_bind fun time => ⟨g, poll_other rfl, ?_⟩
  refine Monitor.Follows.bindE (Follows.execute fun res => ?_)
  cases res with
  | error x => exact ⟨refused, hrefused, (herror x).1⟩
  | ok _ =>
    refine ⟨written, hwrite, Follows.commit fun res => ?_⟩
    cases res with
    | error x => exact ⟨lost, hlose, (herror x).2⟩
    | ok _ => exact ⟨stored, hstore, hok⟩

/-- A round ends before a sync with the token that it returns, or with an exception. -/
def AtHead (config : MatrixDispatcher.Config) (res : Except Exn (Option Token))
    (g : PollStage) : Prop :=
  match res with
  | .ok since => g.head? config = some since
  | .error _ => g.polls = true

theorem poll_pollStart : FollowsPoll config .boot pollStart (AtHead config) := by
  refine Monitor.Follows.bindE (Follows.execute fun res => ?_)
  cases res with
  | error _ => exact ⟨.boot, poll_other rfl, rfl⟩
  | ok found =>
    cases found with
    -- A token is stored: the loop starts there.
    | some since => exact ⟨.ready (some since), rfl, rfl⟩
    -- There is none: a sync without a token primes the loop, if it is answered.
    | none =>
      refine ⟨.seeding, rfl, Monitor.Follows.bindE (Follows.await rfl fun res => ?_)⟩
      cases res with
      | error _ => exact ⟨.seeding, poll_other rfl, rfl⟩
      | ok result =>
        cases result with
        | error => exact ⟨.ready none, rfl, rfl⟩
        | response next rooms =>
          refine ⟨.seeded next, rfl, Monitor.Follows.bindE (poll_setSince
            (.seedWritten next) (.ready (some next)) (if_pos rfl) rfl rfl rfl rfl
            fun _ => ⟨rfl, rfl⟩)⟩

/-! ## Rounds -/

/-- The handlers of a room are dispatched, and those of the other rooms are still to come. -/
theorem poll_dispatchRoom {since : Option Token} {next : Token}
    {room : RoomId × List TimelineEvent} {rest : List HandlerArgs} :
    FollowsPoll config (.stored since next (expectedRoom config room ++ rest))
      (dispatchRoom config room) fun res g =>
        match res with
        | .ok _ => g = .stored since next rest
        | .error _ => ¬config.WellFormed ∧ ∃ todo, g = .stored since next todo := by
  rw [dispatchRoom, expectedRoom]
  rcases hagent : config.roomToAgent room.1 with _ | ⟨agent, cfg⟩
  · exact rfl
  dsimp only
  rcases hdir : cfg.projectDir with _ | dir
  · refine ⟨fun hwell => ?_, _, rfl⟩
    have hsome := hwell _ (List.mem_reverse.mp (List.mem_of_find?_eq_some hagent))
    simp [hdir] at hsome
  · refine Monitor.Follows.forEach room.2 (J := fun events g =>
      g = .stored since next (events.filterMap (expectedEvent config room.1 agent cfg dir) ++ rest))
      rfl (fun g hg => hg) fun event events g hg => ?_
    subst hg
    cases event with
    | other => exact rfl
    | text event => exact Follows.sync fun _ => ⟨.stored since next _, if_pos rfl, rfl⟩

/-- After a batch, the loop is where it syncs with the token of the batch. -/
theorem poll_processResponse {since : Option Token} {next : Token} {rooms : Rooms} :
    FollowsPoll config (.got since next (expected config rooms))
      (processResponse config next rooms) fun _ g => g.head? config = some (some next) := by
  refine Monitor.Follows.bindE (poll_setSince (.written since next _)
    (.stored since next _) (if_pos rfl) rfl rfl rfl ?_ fun x => ⟨rfl, rfl⟩)
  -- The rooms that are left are expected.
  refine Monitor.Follows.forEach rooms (J := fun rooms g =>
    g = .stored since next (expected config rooms)) rfl ?_ fun room rooms g hg => ?_
  · rintro g rfl
    exact head?_stored (.inl rfl)
  · subst hg
    refine poll_dispatchRoom.mono fun res g hg => ?_
    cases res with
    | ok _ => exact hg
    | error _ =>
      obtain ⟨hwell, todo, rfl⟩ := hg
      exact head?_stored (.inr hwell)

/-- A stage in which the loop may sync is one of `main`. -/
theorem polls_of_head? {g : PollStage} {since : Option Token}
    (h : g.head? config = some since) : g.polls = true := by
  cases g <;> first | rfl | cases h

theorem poll_pollRound {g : PollStage} {since : Option Token}
    (hg : g.head? config = some since) : FollowsPoll config g (pollRound config since)
      (AtHead config) := by
  -- After the batch or a failure the loop sleeps, where only the cancellation ends it.
  have hsleep : ∀ {g : PollStage} {since : Option Token}, g.head? config = some since →
      FollowsPoll config g (do Py.await .sleep; pure since : Py (Option Token))
        (AtHead config) := by
    intro g since hg
    refine Monitor.Follows.bindE (Follows.await rfl fun res => ⟨g, poll_other rfl, ?_⟩)
    cases res with
    | ok _ => exact hg
    | error _ => exact polls_of_head? hg
  -- The sync raises, or is answered by an error or by a batch.
  refine Monitor.Follows.bindE (Monitor.Follows.attempt (Follows.await rfl fun resp => ?_))
  cases resp with
  | error x =>
    refine ⟨g, poll_other rfl, ?_⟩
    dsimp only
    split
    · exact polls_of_head? hg
    · exact hsleep hg
    · next heq => cases heq
    · next heq => cases heq
  | ok result =>
    refine ⟨_, step_synced hg result, ?_⟩
    cases result with
    | error => exact hsleep rfl
    | response next rooms =>
      refine Monitor.Follows.bindE (Monitor.Follows.attempt (poll_processResponse.mono
        fun done g hg => ?_))
      dsimp only
      split
      · exact polls_of_head? hg
      · exact hsleep hg

/-! ## Fibers -/

/-- A round of the poll loop, or its end. -/
theorem poll_round {p : Py (Option Token)} {g : PollStage}
    (hp : FollowsPoll config g p (AtHead config)) :
    (pollMonitor config).Follows Eff.awaits g (do nextRound endMain (← p.run))
      ((pollMonitor config).RoundEnd fun since g' => g'.head? config = some since) := by
  refine Monitor.Follows.bind hp fun res g hg => ?_
  cases res with
  | ok _ => exact ⟨rfl, hg⟩
  | error _ =>
    obtain ⟨rest, heq, hrest⟩ := endMain_eq
    have hend : (pollMonitor config).Follows Eff.awaits g endMain fun _ g => g = .closed := by
      rw [heq]
      refine Monitor.Follows.bind (Q := fun _ g => g = .closed)
        (Follows.perform_sync fun _ =>
          ⟨.closed, (step_closing hg : g.step config .closing = _), rfl⟩)
        fun u g hg => ?_
      subst hg
      refine .of_performs ((hrest u).mono fun e he r => ?_) rfl
      cases e with
      | sync e => cases e <;> first | rfl | cases he
      | await e => cases e <;> first | rfl | cases he
    refine Monitor.Follows.bind hend fun _ g hg => ?_
    subst hg
    exact ⟨rfl, .inr (.inr rfl)⟩

theorem poll_main : (pollMonitor config).Conforms Eff.awaits .boot (mainFiber config) := by
  refine ⟨fun since g => g.head? config = some since, ?_, fun _ g hg =>
    poll_round (poll_pollRound hg)⟩
  refine Monitor.Follows.bind (Monitor.Follows.of_performs poll_startup rfl) fun res g hg => ?_
  subst hg
  split
  · exact ⟨fun _ => rfl, fun _ => ⟨.boot, poll_other rfl, rfl, .inr (.inl rfl)⟩⟩
  · exact poll_round poll_pollStart

/-- The other tasks stay apart. -/
theorem poll_apart {P : Eff → Prop} {fiber : Fiber Eff Eff.Ret}
    (h : FiberPerforms P fiber) (hignores : ∀ e, P e → (pollMonitor config).Ignores .apart e) :
    (pollMonitor config).Conforms Eff.awaits .apart fiber :=
  .of_performs rfl (.inl rfl) (h.prog.mono hignores) fun s => (h.next s).mono hignores

/-- Every task of the dispatcher keeps the discipline of the poll loop. -/
noncomputable def pollCoverage (config : MatrixDispatcher.Config) :
    Coverage config (pollMonitor config) where
  enter
    | .main => .boot
    | _ => .apart
  ok _ := True
  ok_main := trivial
  create _ := trivial
  atomic _ := rfl
  conforms := by
    intro request _
    cases request with
    | main => exact poll_main
    | cleanup =>
      exact poll_apart cleanup_performs fun _ he =>
        pollMonitor_ignores rfl (unpolled_of_handler (.of_cleanup he))
    | reconcile =>
      exact poll_apart reconcile_performs fun _ he =>
        pollMonitor_ignores rfl (unpolled_of_reconcile he)
    | handle args =>
      exact poll_apart (handler_performs args) fun _ he =>
        pollMonitor_ignores rfl (unpolled_of_handler he)

end MatrixDispatcher
