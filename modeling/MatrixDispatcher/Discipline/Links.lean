import MatrixDispatcher.Discipline.Footprint
import MatrixDispatcher.Discipline.Rules
import MatrixDispatcher.Discipline.Supervise

/-!
# Sessions that a task may link

A task records and links approvals for two kinds of sessions: those that it has registered itself,
and those of rows that it has read. A task that found the registry disabled does neither, as long
as the registry stays disabled.

* `LinkStage.step` — the automaton; `LinkStage.void` is where a task goes that finds the registry
  enabled after it was disabled.
* `Admitted` — the task may link this session, or it links none.
* `linkCoverage` — every task of the dispatcher follows the monitor.
-/

namespace MatrixDispatcher

open Py Coro

/-- What an effect and its response mean for the links of approvals. -/
inductive LinkAct where
  /-- The registry is set up. -/
  | open
  | create (request : Request)
  | upsert (session : SessionId)
  /-- Rows with these sessions are read. -/
  | read (sessions : List SessionId)
  | enabled (b : Bool)
  /-- An approval is recorded or linked for this session. -/
  | use (session : SessionId)
  | other

namespace LinkAct

/-- What an effect means. -/
def of : (e : Eff) → e.Ret → LinkAct
  | .await .openRegistry, _ => .open
  | .sync (.createTask request), _ => .create request
  | .await (.upsertSession session _ _ _ _), _ => .upsert session
  | .sync (.execute .getPendingApprovals), .ok rows => .read (rows.map (·.sessionId))
  | .sync .registryEnabled, b => .enabled b
  | .sync (.execute (.insertPendingApproval row)), _ => .use row.sessionId
  | .await (.linkSession _ session), _ => .use session
  | _, _ => .other

end LinkAct

/-- What a task knows of the registry. -/
inductive LinkStage where
  /-- No task runs. -/
  | idle
  /-- The registry is not set up yet. -/
  | starting
  /-- These sessions were registered, or read in rows. -/
  | known (sessions : List SessionId)
  /-- The registry is disabled. -/
  | shut
  /-- The registry was disabled and is enabled. -/
  | void

namespace LinkStage

/-- The automaton of the links. -/
def step : LinkStage → LinkAct → Option LinkStage
  | idle, _ => none
  | starting, .open => some (known [])
  | starting, .other => some starting
  | starting, _ => none
  | void, .open | void, .create .main | shut, .open | shut, .create .main | known _, .open
  | known _, .create .main => none
  | void, _ => some void
  | shut, .enabled true => some void
  | shut, .use _ => none
  | shut, _ => some shut
  | known ids, .upsert session => some (known (session :: ids))
  | known ids, .read sessions => some (known (sessions ++ ids))
  | known _, .enabled false => some shut
  | known ids, .use session => if session ∈ ids then some (known ids) else none
  | known ids, _ => some (known ids)

end LinkStage

/-- The task may link this session, and has found the registry enabled. -/
def Live (session : SessionId) : LinkStage → Prop
  | .known ids => session ∈ ids
  | .void => True
  | _ => False

/-- The task may link this session, or it links none. -/
def Admitted (session : SessionId) (g : LinkStage) : Prop := Live session g ∨ g = .shut

/-- The registry is set up. -/
def LinkStage.Opened : LinkStage → Prop
  | known _ | shut | void => True
  | _ => False

/-- Only where the registry is set up may a session be linked. -/
theorem Admitted.opened {session : SessionId} {g : LinkStage} (h : Admitted session g) :
    g.Opened := by
  rcases h with h | rfl
  · cases g <;> trivial
  · trivial

/-- A task that may link a session may still do so after its next effect. -/
theorem Admitted.step {session : SessionId} {g g' : LinkStage} {act : LinkAct}
    (h : Admitted session g) (hstep : g.step act = some g') : Admitted session g' := by
  rcases h with h | rfl
  · cases g with
    -- Known sessions stay known, unless the registry is found disabled.
    | known ids =>
      cases act with
      | upsert other =>
        cases hstep
        exact .inl (List.mem_cons_of_mem _ h)
      | read sessions =>
        cases hstep
        exact .inl (List.mem_append_right _ h)
      | enabled b =>
        cases b <;> cases hstep
        · exact .inr rfl
        · exact .inl h
      | use other =>
        rw [LinkStage.step] at hstep
        split at hstep <;> cases hstep
        exact .inl h
      | create request => cases request <;> cases hstep <;> exact .inl h
      | _ =>
        cases hstep
        try exact .inl h
    -- Where everything may be linked, it stays so.
    | void =>
      cases act with
      | create request => cases request <;> cases hstep <;> exact .inl h
      | _ =>
        cases hstep
        try exact .inl h
    | _ => exact h.elim
  · cases act with
    | enabled b =>
      cases b <;> cases hstep
      · exact .inr rfl
      · exact .inl trivial
    | create request => cases request <;> cases hstep <;> exact .inr rfl
    | _ =>
      cases hstep
      try exact .inr rfl

/-- The registry stays set up, whatever the task does next. -/
theorem LinkStage.Opened.step {g g' : LinkStage} {act : LinkAct} (h : g.Opened)
    (hstep : g.step act = some g') : g'.Opened := by
  cases g with
  | idle => exact h.elim
  | starting => exact h.elim
  | known ids =>
    cases act with
    | enabled b => cases b <;> cases hstep <;> trivial
    | use other =>
      rw [LinkStage.step] at hstep
      split at hstep <;> cases hstep
      trivial
    | create request => cases request <;> cases hstep <;> trivial
    | _ =>
      cases hstep
      try trivial
  | _ =>
    cases act with
    | enabled b => cases b <;> cases hstep <;> trivial
    | create request => cases request <;> cases hstep <;> trivial
    | _ =>
      cases hstep
      try trivial

/-- The monitor of the links. -/
def linkMonitor : Monitor Eff Eff.Ret LinkStage where
  next g e r := g.step (LinkAct.of e r)
  atomic _ := false
  final _ := True
  idle := .idle
  atomic_idle := rfl

/-! ## Rules -/

section

variable {α β : Type} {p : Py α} {g : LinkStage} {session : SessionId} {e : Eff}

/-- From stage `g`, the coroutine follows the monitor and ends as `Q` says. -/
abbrev FollowsLinks (g : LinkStage) (p : Py α) (Q : Except Exn α → LinkStage → Prop) : Prop :=
  linkMonitor.Follows Eff.awaits g p.run Q

/-- From stage `g`, the coroutine follows the monitor. -/
abbrev Links (g : LinkStage) (p : Py α) : Prop := FollowsLinks g p fun _ _ => True

/-- Once the registry is set up, this may be done at any time. -/
def Unlinked (e : Eff) : Prop :=
  e ≠ .await .openRegistry ∧ (∀ request, e = .sync (.createTask request) → request ≠ .main) ∧
    (∀ row, e ≠ .sync (.execute (.insertPendingApproval row))) ∧
    ∀ approval session, e ≠ .await (.linkSession approval session)

/-- Once the registry is set up, the automaton accepts every `Unlinked` effect. -/
theorem link_accepts (he : Unlinked e) (hg : g.Opened) (r : e.Ret) :
    ∃ g', linkMonitor.next g e r = some g' := by
  change ∃ g', g.step (LinkAct.of e r) = some g'
  -- Only setting up, creating `main` and uses may be refused, and these are not `Unlinked`.
  rcases hact : LinkAct.of e r with _ | request | _ | _ | b | _ | _
  · rw [LinkAct.of.eq_def] at hact
    split at hact <;> cases hact
    exact absurd rfl he.1
  · have hrequest : request ≠ .main := by
      rw [LinkAct.of.eq_def] at hact
      split at hact <;> cases hact
      exact he.2.1 _ rfl
    cases g <;> first | exact hg.elim | skip
    all_goals
      cases request <;> first | exact absurd rfl hrequest | exact ⟨_, rfl⟩
  · cases g <;> first | exact hg.elim | exact ⟨_, rfl⟩
  · cases g <;> first | exact hg.elim | exact ⟨_, rfl⟩
  · cases g <;> first | exact hg.elim | (cases b <;> exact ⟨_, rfl⟩)
  · rw [LinkAct.of.eq_def] at hact
    split at hact <;> cases hact
    · exact absurd rfl (he.2.2.1 _)
    · exact absurd rfl (he.2.2.2 _ _)
  · cases g <;> first | exact hg.elim | exact ⟨_, rfl⟩

/-- Once the registry is set up, it stays so. -/
theorem link_keeps (he : Unlinked e) : linkMonitor.Keeps LinkStage.Opened e := fun _ r hg =>
  (link_accepts he hg r).imp fun _ hnext => ⟨hnext, hg.step hnext⟩

/-- What an effect leaves as it is: what may be linked, and that the registry is set up. -/
def Later (g g' : LinkStage) : Prop :=
  (g.Opened → g'.Opened) ∧ ∀ session, Admitted session g → Admitted session g'

/-- `Later` is reflexive. -/
theorem Later.refl : Later g g := ⟨id, fun _ => id⟩

/-- A stage and the one after an effect are `Later`. -/
theorem Later.of_next {g' : LinkStage} {r : e.Ret} (h : linkMonitor.next g e r = some g') :
    Later g g' :=
  ⟨fun hg => hg.step h, fun _ hg => hg.step h⟩

/-- `Later` is transitive. -/
theorem Later.trans {g' g'' : LinkStage} (h : Later g g') (h' : Later g' g'') : Later g g'' :=
  ⟨fun hg => h'.1 (h.1 hg), fun s hg => h'.2 s (h.2 s hg)⟩

/-- What is known at the beginning of a program is known at its end. -/
theorem links_later {p : Coro Eff Eff.Ret α} {Q : α → LinkStage → Prop}
    (h : linkMonitor.Follows Eff.awaits g p Q) :
    linkMonitor.Follows Eff.awaits g p fun a g' => Q a g' ∧ Later g g' := by
  induction p generalizing g with
  | ret a => exact ⟨h, .refl⟩
  | op e k ih =>
    refine ⟨h.1, fun r => ?_⟩
    obtain ⟨g', hnext, hk⟩ := h.2 r
    exact ⟨g', hnext, (ih r hk).mono fun _ _ hg => ⟨hg.1, (Later.of_next hnext).trans hg.2⟩⟩

/-- Programs that neither record nor link. -/
theorem links_unlinked (hp : PerformsE Unlinked p) (hg : g.Opened) : Links g p :=
  (Monitor.Follows.of_keeps (hp.mono fun _ => link_keeps) (fun _ _ => rfl) hg).mono
    fun _ _ _ => trivial

/-- Two programs one after the other. -/
theorem links_bind {f : α → Py β} (hp : Links g p)
    (hf : ∀ a g', Later g g' → Links g' (f a)) : Links g (p >>= f) := by
  refine Monitor.Follows.bindE ((links_later hp).mono fun res g' h => ?_)
  cases res with
  | ok a => exact hf a g' h.2
  | error x => trivial

/-- A program that neither records nor links, then another one. -/
theorem links_then {f : α → Py β} (hg : g.Opened) (hp : PerformsE Unlinked p)
    (hf : ∀ a g', g'.Opened → Links g' (f a)) : Links g (p >>= f) :=
  links_bind (links_unlinked hp hg) fun a g' h => hf a g' (h.1 hg)

/-- An effect of a kind that none of those is of. -/
theorem Unlinked.of_kind {P : Eff → Prop} (hopen : ¬ P (.await .openRegistry))
    (hmain : ¬ P (.sync (.createTask .main)))
    (hinsert : ∀ row, ¬ P (.sync (.execute (.insertPendingApproval row))))
    (hlink : ∀ approval session, ¬ P (.await (.linkSession approval session))) (h : P e) :
    Unlinked e := by
  refine ⟨?_, ?_, ?_, ?_⟩
  · rintro rfl
    exact hopen h
  · rintro _ rfl rfl
    exact hmain h
  · rintro row rfl
    exact hinsert row h
  · rintro _ _ rfl
    exact hlink _ _ h

/-- `Local` effects are `Unlinked`. -/
theorem unlinked_of_local (h : Local e) : Unlinked e :=
  .of_kind (P := Local) (nomatch ·.1) (nomatch ·.1) (fun _ h => nomatch h.1)
    (fun _ _ h => nomatch h.2) h

/-- A program of `Local` effects follows the monitor. -/
theorem links_local (hp : PerformsE Local p) (hg : g.Opened) : Links g p :=
  links_unlinked (hp.mono fun _ => unlinked_of_local) hg

/-- A program of `Local` effects, then another one. -/
theorem links_local_bind {f : α → Py β} (hg : g.Opened) (hp : PerformsE Local p)
    (hf : ∀ a g', g'.Opened → Links g' (f a)) : Links g (p >>= f) :=
  links_then hg (hp.mono fun _ => unlinked_of_local) hf

/-- What `_run_claude` does is `Unlinked`. -/
theorem unlinked_of_run {argv : List Str} {dir : Str} {agent : AgentName} {turn : Turn}
    (h : RunEff argv dir agent turn e) : Unlinked e :=
  .of_kind (P := RunEff argv dir agent turn) id id (fun _ => id) (fun _ _ => id) h

/-- What `cancel_room` does is `Unlinked`. -/
theorem unlinked_of_cancel (h : CancelEff e) : Unlinked e :=
  .of_kind (P := CancelEff) (nomatch ·.1) (nomatch ·.1) (fun _ h => nomatch h.1)
    (fun _ _ h => nomatch h.2) h

/-- `async with _room_lock(room)` around a program. -/
theorem links_withRoomLock {room : RoomId} {body : Py α} (hg : g.Opened)
    (hbody : ∀ g', Later g g' → Links g' body) : Links g (withRoomLock room body) := by
  refine links_bind (links_unlinked (performsE_bind (performsE_sync ⟨nofun, nofun, nofun, nofun⟩)
    fun got => ?_) hg) fun _ g' hg' => ?_
  · split
    · exact performsE_pure _
    · exact performsE_await ⟨nofun, nofun, nofun, nofun⟩
  refine Monitor.Follows.finallyDo ((links_later (hbody g' hg')).mono fun _ g'' h => ?_)
  refine Follows.perform_sync fun r => ?_
  obtain ⟨g₁, hnext⟩ := link_accepts (e := .sync (.lockRelease room)) ⟨nofun, nofun, nofun, nofun⟩
    (h.2.1 (hg'.1 hg)) r
  exact ⟨g₁, hnext, trivial⟩

/-! ## Registering and linking -/

/-- Whether the registry is enabled, when the session may be linked. -/
theorem admitted_of_enabled {b : Bool} {g' : LinkStage} (h : Admitted session g)
    (hnext : g.step (.enabled b) = some g') : b = true → Live session g' := by
  rintro rfl
  rcases h with h | rfl
  · cases g with
    | known ids =>
      cases hnext
      exact h
    | void =>
      cases hnext
      trivial
    | _ => exact h.elim
  · cases hnext
    trivial

/-- After `_register_session` the session may be linked, or none is. -/
theorem links_registerSession {agent : AgentName} {room : RoomId} {dir url : Str} (hg : g.Opened) :
    FollowsLinks g (registerSession session agent room dir url) fun res g' =>
      res = .ok () → Admitted session g' := by
  -- a registry that is disabled leads to `shut`
  have hshut : ∀ {g g' : LinkStage}, g.Opened → g.step (.enabled false) = some g' →
      Admitted session g' := by
    intro g g' hg hnext
    cases g <;> first | exact hg.elim | cases hnext
    · exact .inr rfl
    · exact .inr rfl
    · exact .inl trivial
  have henabled : ∀ {g : LinkStage} (b : Bool), g.Opened →
      ∃ g', linkMonitor.next g (.sync .registryEnabled) b = some g' ∧ g'.Opened :=
    fun b hg => link_keeps (e := .sync .registryEnabled) ⟨nofun, nofun, nofun, nofun⟩ _ b hg
  refine Follows.sync_bind fun b => ?_
  obtain ⟨g₁, hnext, hg₁⟩ := henabled b hg
  refine ⟨g₁, hnext, ?_⟩
  cases b with
  | false => exact fun _ => hshut hg hnext
  | true =>
    refine Follows.sync_bind fun b => ?_
    obtain ⟨g₂, hnext, hg₂⟩ := henabled b hg₁
    refine ⟨g₂, hnext, ?_⟩
    cases b with
    | false => exact fun _ => hshut hg₁ hnext
    | true =>
      refine Follows.tryExcept (Follows.network rfl fun r => ?_)
      have hadmitted : ∃ g', linkMonitor.next g₂ (.await (.upsertSession session agent room dir
          (if url = [] then none else some url))) r = some g' ∧ Admitted session g' := by
        cases g₂ with
        | known ids => exact ⟨_, rfl, .inl List.mem_cons_self⟩
        | shut => exact ⟨_, rfl, .inr rfl⟩
        | void => exact ⟨_, rfl, .inl trivial⟩
        | _ => exact hg₂.elim
      obtain ⟨g₃, hnext, hg₃⟩ := hadmitted
      have hpause : linkMonitor.Ignores g₃ (.await .pause) := by
        rcases hg₃ with h | rfl
        · cases g₃ <;> first | exact h.elim | exact fun _ => rfl
        · exact fun _ => rfl
      refine ⟨g₃, hnext, rfl, hpause, ?_, fun x => ⟨nofun, fun _ => hg₃⟩⟩
      cases r with
      | ok v => exact fun _ => hg₃
      | error x => exact ⟨nofun, fun _ => hg₃⟩

/-- A session that may be linked is recorded and linked. -/
theorem links_recordPendingIfGated {agent : AgentName} {room : RoomId} {root : EventId}
    {start : Time} (hg : Admitted session g) :
    Links g (recordPendingIfGated agent room session root start) := by
  have henabled : ∀ {g : LinkStage} (b : Bool), Admitted session g →
      ∃ g', linkMonitor.next g (.sync .registryEnabled) b = some g' ∧ Admitted session g' ∧
        (b = true → Live session g') := by
    intro g b hg
    obtain ⟨g', hnext⟩ := link_accepts (e := .sync .registryEnabled) ⟨nofun, nofun, nofun, nofun⟩
      hg.opened b
    exact ⟨g', hnext, hg.step hnext, admitted_of_enabled hg hnext⟩
  have huse : ∀ {g : LinkStage}, Live session g → g.step (.use session) = some g := by
    intro g hg
    cases g with
    | known ids => exact if_pos hg
    | void => rfl
    | _ => exact hg.elim
  have hother : ∀ {g : LinkStage}, Live session g → g.step .other = some g := by
    intro g hg
    cases g <;> first | exact hg.elim | rfl
  refine Follows.sync_bind fun _ => ?_
  obtain ⟨g₁, hnext⟩ := link_accepts (e := .sync (.mark (.recording room session root)))
    ⟨nofun, nofun, nofun, nofun⟩ hg.opened ()
  have hg₁ := hg.step hnext
  refine ⟨g₁, hnext, Follows.sync_bind fun b => ?_⟩
  obtain ⟨g₂, hnext, hg₂, -⟩ := henabled b hg₁
  refine ⟨g₂, hnext, ?_⟩
  cases b with
  | false => trivial
  | true =>
    -- an approval is only found where the registry was enabled
    have hfind : FollowsLinks g₂ (Registry.findPendingApproval agent start) fun res g =>
        ∀ found, res = .ok (some found) → Live session g := by
      refine Follows.sync_bind fun b => ?_
      obtain ⟨g₃, hnext, -, hlive⟩ := henabled b hg₂
      refine ⟨g₃, hnext, ?_⟩
      cases b with
      | false => exact nofun
      | true =>
        have hg₃ := hlive rfl
        refine Follows.tryExcept (Follows.network rfl fun r =>
          ⟨g₃, ?_, rfl, fun _ => hother hg₃, ?_, fun x => ⟨nofun, nofun⟩⟩)
        · exact hother hg₃
        · cases r with
          | ok v => exact fun _ _ => hg₃
          | error x => exact ⟨nofun, nofun⟩
    refine Monitor.Follows.bindE (hfind.mono fun res g₃ hres => ?_)
    rcases res with x | _ | found
    · trivial
    · trivial
    have hg₃ := hres found rfl
    refine Monitor.Follows.bindE (Follows.sync_bind fun now => ⟨g₃, hother hg₃, ?_⟩)
    refine Monitor.Follows.bindE (Follows.execute fun r => ⟨g₃, huse hg₃, ?_⟩)
    cases r with
    | error x => trivial
    | ok v =>
      refine Follows.commit fun r => ⟨g₃, hother hg₃, ?_⟩
      cases r with
      | error x => trivial
      | ok v =>
        refine Follows.sync_bind fun b => ?_
        obtain ⟨g₄, hnext, -, hlive⟩ := henabled b (.inl hg₃)
        refine ⟨g₄, hnext, ?_⟩
        cases b with
        | false => trivial
        | true =>
          have hg₄ := hlive rfl
          refine Follows.tryExcept (Follows.network rfl fun r =>
            ⟨g₄, huse hg₄, rfl, fun _ => hother hg₄, ?_, fun x => ⟨trivial, trivial⟩⟩)
          cases r with
          | ok v => trivial
          | error x => exact ⟨trivial, trivial⟩

/-! ## Turns -/

/-- What follows the call of the runner in a turn. -/
theorem links_response {output : Str} {rc : Int} {mention : UserId} {maxLen : Nat}
    {target root : EventId} {action : Str} {agent : AgentName} {room : RoomId} {start : Time}
    (hg : Admitted session g) :
    Links g (do
      postResponse room output rc session mention maxLen target action root
      recordPendingIfGated agent room session root start) :=
  links_bind (links_local (local_postResponse _ _ _ _ _ _ _ _ _) hg.opened) fun _ _ h =>
    links_recordPendingIfGated (h.2 _ hg)

/-- The end of a turn links approvals of the turn's own session only. -/
theorem links_touched {output : Str} {rc : Int} {mention : UserId} {maxLen : Nat}
    {target root : EventId} {action : Str} {agent : AgentName} {room : RoomId} {start : Time}
    (hg : Admitted session g) :
    Links g (do
      Store.touchSession root
      postResponse room output rc session mention maxLen target action root
      recordPendingIfGated agent room session root start) :=
  links_bind (links_local (local_still (still_touchSession _)) hg.opened) fun _ _ h =>
    links_response (h.2 _ hg)

/-- A turn reads the clock and calls the runner. -/
theorem links_turn {β : Type} {turn : Turn} {argv : List Str} {dir : Str} {agent : AgentName}
    {room : RoomId} {timeout : Nat} {f : Time → Except Exn (Int × Str) → Py β} (hg : g.Opened)
    (hf : ∀ start res g', Later g g' → Links g' (f start res)) :
    Links g (do
      let start ← sync .utcnow
      let res ← Coro.attempt (do
        sync (.mark (.runnerCall turn))
        runClaude argv dir agent room timeout turn)
      f start res) := by
  refine links_bind (links_unlinked (performsE_sync ⟨nofun, nofun, nofun, nofun⟩) hg)
    fun start g₁ h₁ => ?_
  refine links_bind (links_unlinked (performsE_attempt (performsE_bind
    (performsE_sync ⟨nofun, nofun, nofun, nofun⟩) fun _ => ?_)) (h₁.1 hg)) fun res g₂ h₂ =>
      hf start res g₂ (h₁.trans h₂)
  exact (run_runClaude timeout).mono fun _ => unlinked_of_run

/-- A reply links approvals of the session of its row. -/
theorem links_replyTurn {args : HandlerArgs} {message : Str} {row : SessionRow} {ack : EventId}
    (hg : Admitted row.sessionId g) : Links g (replyTurn args message row ack) := by
  refine links_turn hg.opened fun start res g' h => ?_
  have hg' := h.2 _ hg
  split
  · exact links_local (local_postAlias _ _ _ _) hg'.opened
  · exact trivial
  · exact links_touched hg'

/-- An approval resume links approvals of the session of its row. -/
theorem links_resumeTurn {config : MatrixDispatcher.Config} {row : PendingRow} {dir : Str}
    {agent : AgentName} {timeout : Nat} (hg : Admitted row.sessionId g) :
    Links g (resumeTurn config row dir agent timeout) := by
  refine links_turn hg.opened fun start res g' h => ?_
  have hg' := h.2 _ hg
  split
  · exact trivial
  · exact links_local (local_postAlias _ _ _ _) hg'.opened
  · exact links_local (local_postAlias _ _ _ _) hg'.opened
  · exact links_touched hg'

/-- `_register_session`, then a program that may link the session. -/
theorem links_registered {agent : AgentName} {room : RoomId} {dir url : Str} {f : Unit → Py β}
    (hg : g.Opened) (hf : ∀ g', Admitted session g' → Links g' (f ())) :
    Links g (registerSession session agent room dir url >>= f) := by
  refine Monitor.Follows.bindE ((links_registerSession hg).mono fun res g' h => ?_)
  cases res with
  | ok a => exact hf g' (h rfl)
  | error x => trivial

/-- A new session is registered before its approvals are linked, or the registry was found disabled.
-/
theorem links_spawnTurn {args : HandlerArgs} {message : Str} (hg : g.Opened) :
    Links g (spawnTurn args message) := by
  refine links_local_bind hg (performsE_sync ⟨rfl, rfl⟩) fun session _ hg => ?_
  refine links_local_bind hg (local_still (still_postMessage _ _ _)) fun ack _ hg => ?_
  refine links_local_bind hg (local_insertSession _ _ _ _) fun _ _ hg => ?_
  refine links_local_bind hg (local_registerAlias _ _) fun _ _ hg => ?_
  refine links_registered hg fun g' hg' => ?_
  refine links_turn hg'.opened fun start res g'' h => ?_
  have hg'' := h.2 _ hg'
  split
  · exact links_local (local_postAlias _ _ _ _) hg''.opened
  · exact trivial
  · exact links_response hg''

/-! ## Messages -/

/-- `!mirror` links no approval. -/
theorem links_handleMirrorCommand {room : RoomId} {event : RoomMessageText} {mention : UserId}
    {agent : AgentName} {dir url : Str} (hg : g.Opened) :
    Links g (handleMirrorCommand room event mention agent dir url) := by
  refine links_local_bind hg (local_findUnmirroredSessionId _ _) fun found _ hg => ?_
  split
  · exact links_local (local_still (still_notice _ _ _)) hg
  · refine links_local_bind hg (local_insertSession _ _ _ _) fun _ _ hg => ?_
    exact links_registered hg fun _ hg' => links_local (local_postAlias _ _ _ _) hg'.opened

/-- A command links no approval. -/
theorem links_handleCommand {args : HandlerArgs} {message : Str} (hg : g.Opened) :
    Links g (handleCommand args message) := by
  rw [handleCommand]
  dsimp only
  split
  · exact links_local (local_still (still_handleHelpCommand _ _ _)) hg
  split
  · exact links_local (local_handleSessionsCommand _ _ _ _ _) hg
  split
  · exact links_local (local_still (still_handleRecapCommand _ _ _ _ _ _)) hg
  split
  · exact links_handleMirrorCommand hg
  split
  · exact links_unlinked ((cancel_handleCancelCommand _ _ _).mono fun _ => unlinked_of_cancel) hg
  · exact links_local (local_still (still_notice _ _ _)) hg

/-- A handler links approvals of sessions that it has registered or read. -/
theorem links_handleEvent (args : HandlerArgs) (hg : g.Opened) : Links g (handleEvent args) := by
  rw [handleEvent]
  split
  · trivial
  refine links_local_bind hg (performsE_fromExcept _) fun root _ hg => ?_
  rcases root with _ | root
  · dsimp only
    split
    · exact links_handleCommand hg
    refine links_withRoomLock hg fun _ h => ?_
    refine links_local_bind (h.1 hg) (performsE_sync ⟨rfl, rfl⟩) fun now _ hg => ?_
    refine links_then hg (performsE_sync (by simp [Unlinked])) fun last _ hg => ?_
    dsimp only
    split
    · exact links_local (local_still (still_notice _ _ _)) hg
    · exact links_then hg (performsE_sync (by simp [Unlinked])) fun _ _ hg =>
        links_spawnTurn hg
  refine links_local_bind hg (performsE_execute ⟨rfl, rfl⟩) fun row _ hg => ?_
  rcases row with _ | row
  · exact links_local (local_still (still_handleOrphan _ _)) hg
  refine links_local_bind hg (local_still (still_postMessage _ _ _)) fun ack _ hg => ?_
  refine links_local_bind hg (local_registerAlias _ _) fun _ _ hg => ?_
  -- The session of the reply is registered, so its approvals may be linked.
  refine links_registered hg fun _ hg' => ?_
  exact links_withRoomLock hg'.opened fun _ h => links_replyTurn (h.2 _ hg')

/-! ## Reconcile passes -/

section

variable {config : MatrixDispatcher.Config}

/-- Deleting a row is `Unlinked`. -/
theorem unlinked_deletePendingApproval {a : ApprovalId} {site : DeleteSite} :
    PerformsE Unlinked (Store.deletePendingApproval a site) :=
  performsE_bind (performsE_execute ⟨nofun, nofun, nofun, nofun⟩) fun _ =>
    performsE_commit ⟨nofun, nofun, nofun, nofun⟩

/-- The handling of a row links approvals of the session of this row. -/
theorem links_reconcileRow {states : List (ApprovalId × ApprovalState)} {row : PendingRow}
    (hg : Admitted row.sessionId g) : Links g (reconcileRow config states row) := by
  rw [reconcileRow]
  split
  · rw [resumeOnApproval]
    split
    · exact links_unlinked unlinked_deletePendingApproval hg.opened
    · split
      · trivial
      · refine links_bind (links_unlinked unlinked_deletePendingApproval hg.opened) fun _ _ h => ?_
        exact links_withRoomLock (h.1 hg.opened) fun _ h' => links_resumeTurn (h'.2 _ (h.2 _ hg))
  · exact links_then hg.opened unlinked_deletePendingApproval fun _ _ hg =>
      links_local (local_postAlias _ _ _ _) hg
  · trivial

/-- The rows that are live are some of those that were read. -/
theorem links_expireStale {now : Int} {rows : List PendingRow} (hg : g.Opened) :
    FollowsLinks g (expireStale now rows) fun res _ => ∀ live, res = .ok live → live ⊆ rows := by
  -- By induction on the rows; the live ones are collected behind each other.
  induction rows generalizing g with
  | nil =>
    rintro live ⟨⟩
    exact List.Subset.refl _
  | cons row rows ih =>
    rw [expireStale]
    split
    · refine Monitor.Follows.bindE ((links_later (links_unlinked unlinked_deletePendingApproval
        hg)).mono fun res g' h => ?_)
      cases res with
      | ok _ => exact (ih (h.2.1 hg)).mono fun _ _ hlive live heq =>
          List.subset_cons_of_subset _ (hlive live heq)
      | error x => exact fun live heq => by cases heq
    · refine Monitor.Follows.bindE ((ih hg).mono fun res g' hlive => ?_)
      cases res with
      | ok live =>
        rintro _ ⟨⟩
        exact List.cons_subset_cons _ (hlive live rfl)
      | error x => exact fun live heq => by cases heq

/-- A pass over rows whose sessions are `Admitted` links approvals of those sessions. -/
theorem links_reconcileRows {rows : List PendingRow} (hg : g.Opened)
    (hrows : ∀ row ∈ rows, Admitted row.sessionId g) : Links g (reconcileRows config rows) := by
  refine links_bind (links_local (local_still still_now) hg) fun now _ h => ?_
  refine links_bind (links_unlinked (performsE_sync ⟨nofun, nofun, nofun, nofun⟩) (h.1 hg))
    fun _ _ h' => ?_
  have hall := h.trans h'
  refine Monitor.Follows.bindE ((links_later (links_expireStale (hall.1 hg))).mono
    fun res g₁ hres => ?_)
  rcases res with x | live
  · trivial
  have hall := hall.trans hres.2
  -- The rows that are left were read, so their sessions are still admitted.
  have hlive : ∀ row ∈ live, Admitted row.sessionId g₁ := fun row hrow =>
    hall.2 _ (hrows row (hres.1 live rfl hrow))
  refine links_bind (links_unlinked (performsE_sync ⟨nofun, nofun, nofun, nofun⟩) (hall.1 hg))
    fun _ g₂ h₂ => ?_
  split
  · trivial
  have hstates : PerformsE Unlinked (Registry.getApprovalStates (live.map (·.approvalId))) :=
    performsE_getApprovalStates (by simp [Unlinked]) (by simp [Unlinked]) (by simp [Unlinked])
  refine links_bind (links_unlinked hstates (h₂.1 (hall.1 hg))) fun states g₃ h₃ => ?_
  refine Monitor.Follows.forEach _ (J := fun rest g => ∀ row ∈ rest, Admitted row.sessionId g)
    (fun row hrow => h₃.2 _ (h₂.2 _ (hlive row hrow))) (fun _ _ => trivial) ?_
  intro row rest g' hrest
  refine (links_later (links_reconcileRow (hrest row List.mem_cons_self))).mono fun res g'' h => ?_
  cases res with
  | ok _ => exact fun row hrow => h.2.2 _ (hrest row (List.mem_cons_of_mem _ hrow))
  | error x => trivial

/-- A pass links approvals of the sessions of the rows that it has read. -/
theorem links_reconcileOnce (hg : g.Opened) : Links g (reconcileOnce config) := by
  have hpass : Links g (do
      if ← sync .registryEnabled then
        let pending ← Store.getPendingApprovals
        if pending = [] then pure () else reconcileRows config pending
      else pure ()) := by
    refine links_then hg (performsE_sync ⟨nofun, nofun, nofun, nofun⟩) fun enabled g' hg => ?_
    split
    · refine Monitor.Follows.bindE (Follows.execute fun res => ?_)
      obtain ⟨g'', hnext⟩ := link_accepts (e := .sync (.execute .getPendingApprovals))
        ⟨nofun, nofun, nofun, nofun⟩ hg res
      refine ⟨g'', hnext, ?_⟩
      cases res with
      | error x => trivial
      | ok rows =>
        -- Reading the rows admits their sessions.
        have hadmitted : ∀ row ∈ rows, Admitted row.sessionId g'' := by
          intro row hrow
          cases g' with
          | known ids =>
            cases hnext
            exact .inl (List.mem_append_left _ (List.mem_map_of_mem hrow))
          | shut =>
            cases hnext
            exact .inr rfl
          | void =>
            cases hnext
            exact .inl trivial
          | _ => exact hg.elim
        dsimp only
        split
        · trivial
        · exact links_reconcileRows (hg.step hnext) hadmitted
    · trivial
  refine Monitor.Follows.finallyDo ((links_later hpass).mono fun _ g' h => ?_)
  refine Follows.perform_sync fun r => ?_
  obtain ⟨g'', hnext⟩ := link_accepts (e := .sync (.mark .passOver)) ⟨nofun, nofun, nofun, nofun⟩
    (h.2.1 hg) r
  exact ⟨g'', hnext, trivial⟩

end

/-! ## Tasks -/

section

variable {config : MatrixDispatcher.Config}

/-- The end of a task, once the registry is set up. -/
theorem links_end {onEnd : Coro Eff Eff.Ret Unit} (hend : onEnd.Performs Unlinked) (hg : g.Opened) :
    linkMonitor.Follows Eff.awaits g onEnd fun _ g' => g'.Opened :=
  .of_keeps (hend.mono fun _ => link_keeps) (fun _ _ => rfl) hg

/-- A round of a task, and what comes after it. -/
theorem links_round {σ : Type} {p : Py σ} {onEnd : Coro Eff Eff.Ret Unit} (hg : g.Opened)
    (hp : Links g p) (hend : onEnd.Performs Unlinked) :
    linkMonitor.Follows Eff.awaits g (do nextRound onEnd (← p.run))
      (linkMonitor.RoundEnd fun _ => LinkStage.Opened) := by
  refine Monitor.Follows.bind (links_later hp) fun res g' h => ?_
  cases res with
  | ok s => exact ⟨rfl, h.2.1 hg⟩
  | error x =>
    exact Monitor.Follows.bind (links_end hend (h.2.1 hg)) fun _ _ _ => ⟨rfl, trivial⟩

/-- The end of a task is `Unlinked`. -/
theorem unlinked_endTask : endTask.Performs Unlinked :=
  performs_endTask ⟨nofun, nofun, nofun, nofun⟩

/-- What the cleanup does is `Unlinked`. -/
theorem unlinked_cleanup (h : CleanupEff e) : Unlinked e :=
  .of_kind (P := CleanupEff) (nomatch ·.1) (nomatch ·.1) (fun _ h => nomatch h.1)
    (fun _ _ h => nomatch h.2) h

/-- What a poll does is `Unlinked`. -/
theorem unlinked_poll (h : PollEff config e) : Unlinked e :=
  .of_kind (P := PollEff config) (nomatch ·.1) (nomatch ·.1) (fun _ h => nomatch h.1)
    (fun _ _ h => nomatch h.2) h

/-- What the shutdown does is `Unlinked`. -/
theorem unlinked_shutdown (h : ShutdownEff e) : Unlinked e :=
  .of_kind (P := ShutdownEff) id id (fun _ => id) (fun _ _ => id) h

/-- The end of main is `Unlinked`. -/
theorem unlinked_endMain : endMain.Performs Unlinked := by
  obtain ⟨rest, heq, hrest⟩ := endMain_eq
  rw [heq]
  exact ⟨⟨nofun, nofun, nofun, nofun⟩, fun u => (hrest u).mono fun _ => unlinked_shutdown⟩

/-- The fiber of a handler follows the monitor from `known []`. -/
theorem links_handler (args : HandlerArgs) :
    linkMonitor.Conforms Eff.awaits (.known []) (handlerFiber args) := by
  have hrun : Links (.known []) (do await .start; handleEvent args : Py Unit) :=
    links_then trivial (performsE_await ⟨nofun, nofun, nofun, nofun⟩) fun _ _ hg =>
      links_handleEvent args hg
  exact Monitor.Conforms.once <| Monitor.Follows.bind (links_later hrun) fun _ _ h =>
    (links_end unlinked_endTask (h.2.1 trivial)).mono fun _ _ _ => ⟨rfl, trivial⟩

/-- The fiber of the reconcile loop follows the monitor from `known []`. -/
theorem links_reconcile : linkMonitor.Conforms Eff.awaits (.known []) (reconcileFiber config) := by
  have hround : ∀ {g : LinkStage}, g.Opened → linkMonitor.Follows Eff.awaits g
      (do nextRound endTask (← (reconcileRound config).run))
      (linkMonitor.RoundEnd fun _ => LinkStage.Opened) := fun hg => by
    refine links_round hg (links_bind (Follows.tryExcept ((links_reconcileOnce hg).mono
      fun res g _ => ?_)) fun _ _ h => links_unlinked (performsE_await
        ⟨nofun, nofun, nofun, nofun⟩) (h.1 hg)) unlinked_endTask
    cases res with
    | ok _ => trivial
    | error _ => exact ⟨trivial, trivial⟩
  refine ⟨fun _ => LinkStage.Opened, ?_, fun _ _ => hround⟩
  have hstart : PerformsE Unlinked (do await .start; sync .registryEnabled : Py Bool) :=
    performsE_started ⟨nofun, nofun, nofun, nofun⟩ (performsE_sync ⟨nofun, nofun, nofun, nofun⟩)
  refine Monitor.Follows.bind (links_later (links_unlinked hstart trivial)) fun res g h => ?_
  split
  · exact hround (h.2.1 trivial)
  · exact Monitor.Follows.bind (links_end unlinked_endTask (h.2.1 trivial)) fun _ _ _ =>
      ⟨rfl, trivial⟩

/-- `main` sets up the registry before it creates the loops. -/
theorem links_startup : FollowsLinks .starting (do await .start; startup config : Py Unit)
    fun res g => (g = .starting ∨ g.Opened) ∧ (res = .ok () → g.Opened) := by
  -- Before the registry is set up, `main` only notifies.
  have hstill : ∀ e, Still e → linkMonitor.Ignores .starting e := by
    intro e he r
    change LinkStage.step .starting (LinkAct.of e r) = _
    rw [LinkAct.of.eq_def]
    obtain ⟨haside, hregisters⟩ := he
    split <;> first | rfl | (cases haside; done) | cases hregisters
  refine Follows.ignored_bind (performsE_await fun _ => rfl) rfl (fun _ => ?_)
    fun _ => ⟨.inl rfl, by simp⟩
  refine Follows.ignored_bind ?_ rfl (fun _ => ?_) fun _ => ⟨.inl rfl, by simp⟩
  · rw [notifyStartup]
    split
    · exact performsE_pure _
    · exact performsE_tryExcept ((still_notice _ _ _).mono hstill) fun _ => performsE_pure _
  refine Monitor.Follows.bindE (Follows.await rfl fun r => ⟨.known [], rfl, ?_⟩)
  cases r with
  | error x => exact ⟨.inr trivial, by simp⟩
  | ok v =>
    -- Then it creates the loops, with the registry open.
    have hloops : PerformsE Unlinked (do
        sync (.createTask .cleanup)
        sync (.createTask .reconcile)) :=
      performsE_bind (performsE_sync (by simp [Unlinked])) fun _ =>
        performsE_sync (by simp [Unlinked])
    exact (links_later (links_unlinked (g := .known []) hloops trivial)).mono fun _ _ h =>
      ⟨.inr (h.2.1 trivial), fun _ => h.2.1 trivial⟩

/-- Main follows the monitor from `starting`: it opens the registry before it creates a task. -/
theorem links_main : linkMonitor.Conforms Eff.awaits .starting (mainFiber config) := by
  refine ⟨fun _ => LinkStage.Opened, Monitor.Follows.bind links_startup fun res g hg => ?_,
    fun _ g hg => links_round hg (links_unlinked (polls_pollRound.mono fun _ => unlinked_poll) hg)
      unlinked_endMain⟩
  split
  · refine Follows.perform_sync fun r => ?_
    rcases hg.1 with rfl | hg
    · exact ⟨.starting, rfl, rfl, trivial⟩
    · obtain ⟨g', hnext⟩ := link_accepts (e := .sync .taskDone) ⟨nofun, nofun, nofun, nofun⟩ hg r
      exact ⟨g', hnext, rfl, trivial⟩
  · exact links_round (hg.2 rfl)
      (links_unlinked ((@polls_pollStart config).mono fun _ => unlinked_poll)
        (hg.2 rfl)) unlinked_endMain

/-- Every task of the dispatcher follows the monitor of the links. -/
def linkCoverage (config : MatrixDispatcher.Config) : Coverage config linkMonitor where
  enter
    | .main => .starting
    | _ => .known []
  ok _ := True
  ok_main := trivial
  create _ := trivial
  atomic _ := rfl
  conforms := by
    intro request _
    cases request with
    | main => exact links_main
    | cleanup =>
      exact .of_keeps (fun _ _ => rfl) (fun _ _ => trivial)
        (cleanup_performs.prog.mono fun _ he => link_keeps (unlinked_cleanup he))
        (fun s => (cleanup_performs.next s).mono fun _ he => link_keeps (unlinked_cleanup he))
        trivial
    | reconcile => exact links_reconcile
    | handle args => exact links_handler args

end

end

end MatrixDispatcher
