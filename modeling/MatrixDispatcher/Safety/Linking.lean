import MatrixDispatcher.Discipline.Ledger
import MatrixDispatcher.Discipline.Links

/-!
# Sessions are registered before approvals are linked to them

A turn links only the session that it has registered; a reconcile pass registers none, and relies
on the row it was given. That the session of a row was registered goes through the table, and
through the file that survives restarts: a row is inserted by a turn that may link its session.

* `Unlisted` — as long as a session is not registered, no row names it and no task may link it.
* `link_after_upsert` — a session that is linked has been registered earlier in the run.
-/

namespace MatrixDispatcher

open Py Coro

variable {config : MatrixDispatcher.Config} {session : SessionId} {w w' : World} {t : Tid}
  {a : Answer} {e : Eff} {r : e.Ret} {G : Tid → LinkStage} {g : LinkStage}

/-! ## The automaton -/

theorem LinkAct.of_upsert (h : LinkAct.of e r = .upsert session) :
    ∃ agent room dir url, e = .await (.upsertSession session agent room dir url) := by
  rw [LinkAct.of.eq_def] at h
  split at h <;> cases h
  exact ⟨_, _, _, _, rfl⟩

/-- The sessions that were read are those of the rows of the table. -/
theorem LinkAct.of_read {sessions : List SessionId} (h : LinkAct.of e r = .read sessions)
    (hexec : exec t a e w = some (r, w')) :
    sessions = w.db.pendingApprovals.rows.map (·.sessionId) := by
  cases e with
  | sync e =>
    cases e with
    | execute s =>
      cases s with
      | getPendingApprovals =>
        cases r with
        | ok rows =>
          cases h
          obtain ⟨db, hrows⟩ := Ledger.exec_of_execute hexec
          cases hrows
          rfl
        | error x => cases h
      | _ => cases h
    | _ => cases h
  | await e => cases e <;> cases h

theorem LinkAct.of_enabled {b : Bool} (h : LinkAct.of e r = .enabled b)
    (hexec : exec t a e w = some (r, w')) : w.pool = b ∧ w'.pool = b := by
  rw [LinkAct.of.eq_def] at h
  split at h <;> cases h
  cases hexec
  exact ⟨rfl, rfl⟩

/-- Only a task that may link the session uses it. -/
theorem live_of_use {g' : LinkStage} (h : g.step (.use session) = some g') : Live session g := by
  cases g with
  | known ids =>
    rw [LinkStage.step] at h
    split at h
    · assumption
    · cases h
  | void => trivial
  | _ => cases h

/-- How a task comes to link the session. -/
theorem live_of_step {act : LinkAct} {g' : LinkStage} (h : g.step act = some g')
    (hlive : Live session g') :
    Live session g ∨ act = .upsert session ∨ (∃ sessions, act = .read sessions ∧
      session ∈ sessions) ∨ (g = .shut ∧ act = .enabled true) := by
  cases g with
  | idle => cases h
  | starting => cases act <;> cases h <;> cases hlive
  -- The known sessions grow by what is registered and read, and are lost when the registry is
  -- disabled.
  | known ids =>
    cases act with
    | upsert other =>
      cases h
      rcases List.mem_cons.mp hlive with rfl | hmem
      · exact .inr (.inl rfl)
      · exact .inl hmem
    | read sessions =>
      cases h
      rcases List.mem_append.mp hlive with hmem | hmem
      · exact .inr (.inr (.inl ⟨sessions, rfl, hmem⟩))
      · exact .inl hmem
    | enabled b =>
      cases b <;> cases h
      · exact hlive.elim
      · exact .inl hlive
    | use other =>
      rw [LinkStage.step] at h
      split at h <;> cases h
      exact .inl hlive
    | create request => cases request <;> cases h <;> exact .inl hlive
    | «open» => cases h
    | other =>
      cases h
      exact .inl hlive
  | shut =>
    cases act with
    | enabled b =>
      cases b <;> cases h
      · exact hlive.elim
      · exact .inr (.inr (.inr ⟨rfl, rfl⟩))
    | create request => cases request <;> cases h <;> exact hlive.elim
    | _ =>
      cases h
      try exact hlive.elim
  | void => exact .inl trivial

/-- A task comes to know that the registry is disabled by asking. -/
theorem shut_of_step {act : LinkAct} (h : g.step act = some .shut) :
    g = .shut ∨ act = .enabled false := by
  cases g with
  | shut => exact .inl rfl
  | known ids =>
    cases act with
    | enabled b =>
      cases b
      · exact .inr rfl
      · cases h
    | use other =>
      rw [LinkStage.step] at h
      split at h <;> cases h
    | create request => cases request <;> cases h
    | _ => cases h
  | _ =>
    cases act with
    | create request => cases request <;> cases h
    | _ => cases h

/-- Nothing leads back to the beginning. -/
theorem starting_of_step {act : LinkAct} (h : g.step act = some .starting) :
    g = .starting ∧ act = .other := by
  cases g with
  | starting => cases act <;> first | exact ⟨rfl, rfl⟩ | cases h
  | known ids =>
    cases act with
    | enabled b => cases b <;> cases h
    | use other =>
      rw [LinkStage.step] at h
      split at h <;> cases h
    | create request => cases request <;> cases h
    | _ => cases h
  | _ =>
    cases act with
    | create request => cases request <;> cases h
    | enabled b => cases b <;> cases h
    | _ => cases h

/-- Only `main` sets up the registry, at its beginning. -/
theorem starting_of_open {g' : LinkStage} (h : g.step .open = some g') : g = .starting := by
  cases g <;> first | rfl | cases h

/-- A registry without a pool gets none, unless it is set up. -/
theorem pool_of_exec (h : exec t a e w = some (r, w')) (hopen : e ≠ .await .openRegistry)
    (hpool : w.pool = false) : w'.pool = false := by
  by_cases hclear : e = .sync .poolClear
  · subst hclear
    cases h
    rfl
  · refine (frame h (c := .pool) fun hmem => ?_).trans hpool
    cases e with
    | sync e => cases e <;> first | exact hclear rfl | simp [Eff.writes] at hmem
    | await e => cases e <;> first | exact hopen rfl | simp [Eff.writes, AwaitEff.writes] at hmem

/-! ## Before the session is registered -/

/-- The session is not registered. -/
def avoids (session : SessionId) (_ : World) : Step → Prop
  | .effect _ (.await (.upsertSession session' _ _ _ _)) _ => session' ≠ session
  | _ => True

/-- A session that was never registered. -/
structure Unlisted (session : SessionId) (G : Tid → LinkStage) (w : World) : Prop where
  rows : ∀ row ∈ w.db.pendingApprovals, row.sessionId ≠ session
  disk : ∀ row ∈ w.disk.pendingApprovals, row.sessionId ≠ session
  apart : ∀ t, ¬ Live session (G t)
  /-- A task that has found the registry disabled is right about it. -/
  shut : ∀ t, G t = .shut → w.pool = false
  /-- While the registry is set up, nobody else runs. -/
  starting : ∀ t, G t = .starting → (∀ u, u ≠ t → G u = .idle) ∧ w.inbox = []
  main : (.main, .main) ∈ w.inbox → w.inbox = [(.main, .main)] ∧ ∀ t, G t = .idle

namespace Unlisted

/-- The rows of the table after an effect. -/
theorem rows_of_exec (h : Unlisted session G w) (hexec : exec t a e w = some (r, w'))
    (hnext : (G t).step (LinkAct.of e r) = some g) :
    (∀ row ∈ w'.db.pendingApprovals, row.sessionId ≠ session) ∧
      ∀ row ∈ w'.disk.pendingApprovals, row.sessionId ≠ session := by
  obtain ⟨hdb, hdisk⟩ := Ledger.tables_of_exec hexec
  refine ⟨?_, ?_⟩
  · rcases hdb with hdb | hdb | ⟨s, v, rfl, hs, -⟩
    · exact hdb ▸ h.rows
    · exact hdb ▸ h.disk
    -- The statements on the pending approvals insert or delete a row.
    · rcases (exec_tables hs).2 with hsame | ⟨row, rfl⟩ | ⟨approval, site, rfl⟩
      · exact hsame ▸ h.rows
      · -- a row is inserted by a task that may link its session
        have hdb : w.db.insertPendingApproval row = w'.db :=
          congrArg Prod.snd (Except.ok.inj hs)
        intro row' hmem
        rw [← hdb] at hmem
        rcases Table.mem_insertOrReplace.mp hmem with ⟨hold, -⟩ | rfl
        · exact h.rows _ hold
        · rintro rfl
          exact h.apart t (live_of_use hnext)
      · have hdb : w.db.deletePendingApproval approval = w'.db :=
          congrArg Prod.snd (Except.ok.inj hs)
        intro row hmem
        rw [← hdb] at hmem
        exact h.rows row (Table.mem_deleteWhere.mp hmem).1
  · rcases hdisk with hdisk | hdisk
    · exact hdisk ▸ h.disk
    · exact hdisk ▸ h.rows

/-- What a task does keeps the session apart, unless it registers it. -/
theorem effect (h : Unlisted session G w) (hallow : avoids session w (.effect t e a))
    (hexec : exec t a e w = some (r, w')) (hnext : (G t).step (LinkAct.of e r) = some g) :
    Unlisted session (Function.update G t g) w' := by
  -- a task that makes a step is not idle, and has been taken out of the inbox
  have hidle : G t ≠ .idle := by
    intro hidle
    rw [hidle] at hnext
    cases hnext
  obtain ⟨hrows, hdisk⟩ := h.rows_of_exec hexec hnext
  refine ⟨hrows, hdisk, fun u => ?_, fun u hu => ?_, fun u hu => ?_, fun hmain => ?_⟩
  · by_cases hut : u = t
    · subst hut
      rw [Function.update_self]
      intro hlive
      rcases live_of_step hnext hlive with hlive | hact | ⟨sessions, hact, hmem⟩ | ⟨hshut, hact⟩
      · exact h.apart u hlive
      · obtain ⟨agent, room, dir, url, rfl⟩ := LinkAct.of_upsert hact
        exact hallow rfl
      · rw [LinkAct.of_read hact hexec] at hmem
        obtain ⟨row, hrow, heq⟩ := List.mem_map.mp hmem
        exact h.rows row hrow heq
      · have hpool := h.shut u hshut
        rw [(LinkAct.of_enabled hact hexec).1] at hpool
        cases hpool
    · rw [Function.update_of_ne hut]
      exact h.apart u
  · have hopen : e = .await .openRegistry → G t = .starting := by
      rintro rfl
      exact starting_of_open hnext
    by_cases hut : u = t
    · subst hut
      rw [Function.update_self] at hu
      subst hu
      rcases shut_of_step hnext with hshut | hact
      · refine pool_of_exec hexec (fun heq => ?_) (h.shut u hshut)
        rw [hopen heq] at hshut
        cases hshut
      · exact (LinkAct.of_enabled hact hexec).2
    · rw [Function.update_of_ne hut] at hu
      refine pool_of_exec hexec (fun heq => ?_) (h.shut u hu)
      rw [(h.starting t (hopen heq)).1 u hut] at hu
      cases hu
  · by_cases hut : u = t
    · subst hut
      rw [Function.update_self] at hu
      subst hu
      obtain ⟨hstarting, hact⟩ := starting_of_step hnext
      obtain ⟨hothers, hinbox⟩ := h.starting u hstarting
      refine ⟨fun v hv => by rw [Function.update_of_ne hv, hothers v hv], ?_⟩
      rcases exec_inbox hexec with hsame | ⟨request, _, rfl, -⟩
      · rw [hsame, hinbox]
      · cases hact
    · rw [Function.update_of_ne hut] at hu
      exact absurd ((h.starting u hu).1 t (Ne.symm hut)) hidle
  · rcases exec_inbox hexec with hsame | ⟨request, u, rfl, hruns, heq⟩
    · exact absurd ((h.main (hsame ▸ hmain)).2 t) hidle
    · rw [heq, List.mem_append, List.mem_singleton] at hmain
      rcases hmain with hold | hnew
      · exact absurd ((h.main hold).2 t) hidle
      · -- nobody creates `main`
        cases hnew
        have hcreate : (G t).step (.create .main) = some g := hnext
        rcases hG : G t <;> rw [hG] at hcreate <;> cases hcreate

/-- A task begins or ends, and nothing but the inbox changes. -/
theorem enter {inbox : List (Tid × Request)} (h : Unlisted session G w)
    (hlive : ¬ Live session g) (hshut : g ≠ .shut)
    (hstarting : g = .starting → (∀ u, u ≠ t → G u = .idle) ∧ inbox = [])
    (hothers : ∀ u, u ≠ t → G u = .starting → g = .idle ∧ inbox = [])
    (hmain : (.main, .main) ∈ inbox → inbox = [(.main, .main)] ∧ g = .idle ∧ ∀ u, G u = .idle) :
    Unlisted session (Function.update G t g) { w with inbox := inbox } := by
  refine ⟨h.rows, h.disk, fun u => ?_, fun u hu => ?_, fun u hu => ?_, fun hmem => ?_⟩
  · by_cases hut : u = t
    · rwa [hut, Function.update_self]
    · rw [Function.update_of_ne hut]
      exact h.apart u
  · by_cases hut : u = t
    · rw [hut, Function.update_self] at hu
      exact absurd hu hshut
    · rw [Function.update_of_ne hut] at hu
      exact h.shut u hu
  · by_cases hut : u = t
    · subst hut
      rw [Function.update_self] at hu
      obtain ⟨hidle, hempty⟩ := hstarting hu
      exact ⟨fun v hv => by rw [Function.update_of_ne hv, hidle v hv], hempty⟩
    · rw [Function.update_of_ne hut] at hu
      -- While `main` starts, nobody else runs or is requested.
      obtain ⟨rfl, hempty⟩ := hothers u hut hu
      refine ⟨fun v hv => ?_, hempty⟩
      by_cases hvt : v = t
      · rw [hvt, Function.update_self]
      · rw [Function.update_of_ne hvt, (h.starting u hu).1 v hv]
  · obtain ⟨hinbox, rfl, hidle⟩ := hmain hmem
    refine ⟨hinbox, fun u => ?_⟩
    by_cases hut : u = t
    · rw [hut, Function.update_self]
    · rw [Function.update_of_ne hut, hidle u]

end Unlisted

/-- A session that is not registered stays apart, in every run. -/
def unlisted (config : MatrixDispatcher.Config) (session : SessionId) :
    Invariant (linkCoverage config).supervision (avoids session) where
  inv := Unlisted session
  effect _ hinv _ hallow hexec hnext := hinv.effect hallow hexec hnext
  finish _ h _ := h.enter id nofun nofun (fun u _ hu => ⟨rfl, (h.starting u hu).2⟩)
    fun hmem => ⟨(h.main hmem).1, rfl, (h.main hmem).2⟩
  env := by
    intro G w w' a _ h _ henv
    obtain ⟨m, -, hmoved⟩ := env_eq henv
    have hsame := (moved_same hmoved).2
    have hdb : w'.db = w.db := hsame .db nofun nofun nofun nofun
    have hdisk : w'.disk = w.disk := hsame .disk nofun nofun nofun nofun
    have hpool : w'.pool = w.pool := hsame .pool nofun nofun nofun nofun
    have hinbox : w'.inbox = w.inbox := hsame .inbox nofun nofun nofun nofun
    exact ⟨hdb ▸ h.rows, hdisk ▸ h.disk, h.apart, hpool ▸ h.shut, hinbox ▸ h.starting,
      hinbox ▸ h.main⟩
  start := by
    intro G w w' t fiber a hgood h _ hstart hidle
    obtain ⟨n, request, rfl, hitem, -, rfl⟩ := start_eq hstart
    have hmem := List.mem_of_getElem? hitem
    have henter : (linkCoverage config).supervision.enter (.pick n) w =
        (linkCoverage config).enter request := (linkCoverage config).entered_eq hitem
    rw [henter]
    have hruns := (hgood _ hmem).2
    -- nobody is starting while a task waits to be started
    have hothers : ∀ u, u ≠ t → G u = .starting → False := fun u _ hu => by
      rw [(h.starting u hu).2] at hmem
      cases hmem
    cases request with
    | main =>
      obtain rfl : t = .main := by cases t <;> first | rfl | cases hruns
      obtain ⟨hinbox, hall⟩ := h.main hmem
      have hempty : w.inbox.eraseIdx n = [] := by
        rw [hinbox] at hitem ⊢
        cases n with
        | zero => rfl
        | succ n => cases hitem
      refine h.enter id nofun (fun _ => ⟨fun u _ => hall u, hempty⟩)
        (fun u hut hu => (hothers u hut hu).elim) fun hmem => ?_
      rw [hempty] at hmem
      cases hmem
    | _ =>
      refine h.enter (by exact List.not_mem_nil) nofun nofun
        (fun u hut hu => (hothers u hut hu).elim) fun hmain => ?_
      rw [(h.main (List.eraseIdx_subset hmain)).1] at hmem
      cases List.mem_singleton.mp hmem
  crash := by
    intro G w w' a _ h _ hcrash
    obtain ⟨-, rfl⟩ := crash_eq hcrash
    exact ⟨h.disk, h.disk, fun _ => id, fun _ => nofun, fun _ => nofun, fun _ =>
      ⟨rfl, fun _ => rfl⟩⟩

/-! ## Linking -/

/-- The session is linked to an approval. The call of `link_session` comes right after the row is
recorded; without a pool that is all of it. -/
def Uses (session : SessionId) : Eff → Prop
  | .sync (.execute (.insertPendingApproval row)) => row.sessionId = session
  | .await (.linkSession _ session') => session' = session
  | _ => False

/-- Whenever a session is linked to an approval, it was registered earlier in the run: by a step of
some task, in this process or in one before it. -/
theorem link_after_upsert (config : MatrixDispatcher.Config) {allow : World → Step → Prop}
    {c : Machine.Config Tid Eff Eff.Ret World} {t : Tid} {e : Eff} {session : SessionId}
    (hreach : Reaches config allow c) (habout : c.About t e) (huse : Uses session e) :
    ∃ u agent room dir url a c₁ c₂, Reaches config allow c₁ ∧
      c₁.About u (.await (.upsertSession session agent room dir url)) ∧
      (dispatcher config).step c₁ (.task u a) = some c₂ ∧
      (dispatcher config).Reachable allow c₂ c := by
  by_contra hnone
  -- the run is one that never registers the session
  have havoid : Reaches config (avoids session) c := by
    refine hreach.past.mono fun w event hpast => ?_
    obtain ⟨-, c₁, l, c₂, -, hevent, hbefore, hstep, hafter⟩ := hpast
    rw [avoids.eq_def]
    split
    · next u session' agent room dir url a =>
      rintro rfl
      obtain ⟨rfl, habout⟩ := Machine.about_of_event hevent hstep
      exact hnone ⟨u, agent, room, dir, url, a, c₁, c₂, hbefore, habout, hstep, hafter⟩
    · trivial
  obtain ⟨G, -, hinv, -, haccepts⟩ := (unlisted config session).about havoid
    (linkCoverage config).good_initial ⟨nofun, nofun, fun _ => id, nofun, nofun, fun _ =>
      ⟨rfl, fun _ => rfl⟩⟩ habout
  have haccept : ∃ g, (G t).step (.use session) = some g := by
    rw [Uses.eq_def] at huse
    split at huse
    · exact huse ▸ haccepts (.error .cancelledError)
    · exact huse ▸ haccepts (.error .cancelledError)
    · exact huse.elim
  exact haccept.elim fun g hg => hinv.apart t (live_of_use hg)

/-- The effect links that session. -/
def isLinkOf (session : SessionId) : Eff → Bool
  | .await (.linkSession _ session') => decide (session' = session)
  | _ => false

theorem eq_of_isLinkOf (h : isLinkOf session e = true) :
    ∃ approval, e = .await (.linkSession approval session) := by
  rw [isLinkOf.eq_def] at h
  split at h
  · obtain rfl := of_decide_eq_true h
    exact ⟨_, rfl⟩
  · cases h

/-- The process dies after the operator has approved. In the next one a reconcile pass resumes the
session, whose child meets another gate. -/
def relinking : List Cue :=
  approving ++ [.step (.crash .done), .step (.start (.pick 0)), .go .main 6] ++ reconciling 18 ++
    [.move (.mint { bashApproval with
        approvalId := lit "a2"
        createdAt := secondsToTime 401 }),
      .move (.exit 1 0 (lit "ok") []), .go .reconcile 20]

/-- A pass links a session that was registered before the restart. -/
theorem link_after_upsert_restarted : ∃ c approval,
    Reaches oneAgent (fun _ _ => True) c ∧
    c.About .reconcile (.await (.linkSession approval (lit "5e55"))) ∧
    ∃ u agent room dir url a c₁ c₂, Reaches oneAgent (fun _ _ => True) c₁ ∧
      c₁.About u (.await (.upsertSession (lit "5e55") agent room dir url)) ∧
      (dispatcher oneAgent).step c₁ (.task u a) = some c₂ ∧
      (dispatcher oneAgent).Reachable (fun _ _ => True) c₂ c := by
  obtain ⟨c, hreach, hgoal⟩ := reaches_of_play oneAgent relinking
    (fun c => meets c .reconcile (isLinkOf (lit "5e55")))
    (fun _ _ (_ : true = true) => trivial) (by decide +kernel)
  obtain ⟨e, habout, he⟩ := about_of_meets hgoal
  obtain ⟨approval, rfl⟩ := eq_of_isLinkOf he
  exact ⟨c, approval, hreach, habout, link_after_upsert oneAgent hreach habout rfl⟩

end MatrixDispatcher
