import MatrixDispatcher.Runtime.World

/-!
# What an effect leaves alone

The world is a record of some twenty components, of which an effect changes one or two. The
footprint of every effect is stated once, as the list of components it may write; that it leaves
the others alone is `frame`, and what it adds to the trace is `exec_trace`.
-/

namespace MatrixDispatcher

/-- The components of the world, except for the trace. -/
inductive Component where
  | disk | db | dbOpen | locks | active | lastSpawn | handlers | pool | cancelled | finished
  | inbox | nextHandler | procs | approvals | registered | clock
  deriving DecidableEq

/-- The component is the same in both worlds. -/
def Component.Same : Component → World → World → Prop
  | disk, w, w' => w'.disk = w.disk
  | db, w, w' => w'.db = w.db
  | dbOpen, w, w' => w'.dbOpen = w.dbOpen
  | locks, w, w' => w'.locks = w.locks
  | active, w, w' => w'.active = w.active
  | lastSpawn, w, w' => w'.lastSpawn = w.lastSpawn
  | handlers, w, w' => w'.handlers = w.handlers
  | pool, w, w' => w'.pool = w.pool
  | cancelled, w, w' => w'.cancelled = w.cancelled
  | finished, w, w' => w'.finished = w.finished
  | inbox, w, w' => w'.inbox = w.inbox
  | nextHandler, w, w' => w'.nextHandler = w.nextHandler
  | procs, w, w' => w'.procs = w.procs
  | approvals, w, w' => w'.approvals = w.approvals
  | registered, w, w' => w'.registered = w.registered
  | clock, w, w' => w'.clock = w.clock

theorem Component.Same.refl (c : Component) (w : World) : c.Same w w := by
  cases c <;> rfl

/-- The components that an awaited operation may write. -/
def AwaitEff.writes : AwaitEff → List Component
  | .lockWait _ => [.locks]
  | .openRegistry => [.pool]
  | .upsertSession _ _ _ _ _ => [.registered]
  | .linkSession _ _ => [.approvals]
  | .exec _ _ _ _ => [.procs]
  | .gather => [.cancelled]
  | _ => []

namespace Eff

/-- The components that an effect may write. Every awaited operation may deliver a
cancellation. -/
def writes : Eff → List Component
  | .sync e =>
    match e with
    | .utcnow => [.clock]
    | .execute _ => [.db]
    | .commit => [.disk]
    | .closeDb => [.db, .dbOpen]
    | .lockTry _ | .lockRelease _ => [.locks]
    | .activeSet _ _ | .activePop _ => [.active]
    | .lastSpawnSet _ _ => [.lastSpawn]
    | .poolClear => [.pool]
    | .createTask _ => [.inbox, .handlers, .nextHandler]
    | .cancelTask _ => [.cancelled]
    | .taskDone => [.handlers, .finished]
    | _ => []
  | .await e => .cancelled :: e.writes

end Eff

theorem failure_eq {α : Type} {w w' : World} {a : Answer} {r : Except Exn α}
    (h : failure w a = some (r, w')) : w' = w ∧ ∃ x, r = .error x ∧ x.isException = true := by
  cases a with
  | raised x =>
    rw [failure] at h
    split at h
    · next hx =>
      cases h
      exact ⟨rfl, x, rfl, hx⟩
    · cases h
  | _ => cases h

/-- A failure comes from an answer that says so. -/
theorem raised_of_failure {α : Type} {w w' : World} {a : Answer} {x : Exn}
    (h : (failure w a : Option (Except Exn α × World)) = some (.error x, w')) : a = .raised x := by
  cases a with
  | raised y =>
    rw [failure] at h
    split at h <;> cases h
    rfl
  | _ => cases h

/-- Only three statements write the token or the pending approvals. -/
theorem exec_tables {s : Stmt} {v : s.Ret} {db db' : Tables} (h : s.exec db = .ok (v, db')) :
    (db'.pollState = db.pollState ∨ ∃ since now, s = .setSince since now) ∧
      (db'.pendingApprovals = db.pendingApprovals ∨ (∃ row, s = .insertPendingApproval row) ∨
        ∃ a site, s = .deletePendingApproval a site) := by
  cases s with
  | setSince since now =>
    cases h
    exact ⟨.inr ⟨since, now, rfl⟩, .inl rfl⟩
  | insertPendingApproval row =>
    cases h
    exact ⟨.inl rfl, .inr (.inl ⟨row, rfl⟩)⟩
  | deletePendingApproval a site =>
    cases h
    exact ⟨.inl rfl, .inr (.inr ⟨a, site, rfl⟩)⟩
  | registerAlias e root =>
    rcases hres : db.registerAlias e root with x | db'
    · rw [Stmt.exec, hres] at h
      cases h
    · rw [Stmt.exec, hres] at h
      cases h
      rw [Tables.registerAlias] at hres
      split at hres
      · cases hres
        exact ⟨.inl rfl, .inl rfl⟩
      · split at hres
        · split at hres <;> cases hres
          exact ⟨.inl rfl, .inl rfl⟩
        · cases hres
          exact ⟨.inl rfl, .inl rfl⟩
  | insertSession root room agent session now =>
    rw [Stmt.exec, Tables.insertSession] at h
    split at h <;> cases h
    exact ⟨.inl rfl, .inl rfl⟩
  | deleteStaleSessions cutoff =>
    rw [Stmt.exec, Tables.deleteStaleSessions] at h
    split at h <;> cases h
    exact ⟨.inl rfl, .inl rfl⟩
  | _ =>
    cases h
    exact ⟨.inl rfl, .inl rfl⟩

/-- Only three statements write sessions. -/
theorem sessions_of_exec {s : Stmt} {v : s.Ret} {db db' : Tables} (h : s.exec db = .ok (v, db')) :
    db'.sessions = db.sessions ∨ (∃ root now, s = .touchSession root now) ∨
      (∃ root room agent session now, s = .insertSession root room agent session now) ∨
      ∃ cutoff, s = .deleteStaleSessions cutoff := by
  cases s with
  | touchSession root now => exact .inr (.inl ⟨root, now, rfl⟩)
  | insertSession root room agent session now =>
    exact .inr (.inr (.inl ⟨root, room, agent, session, now, rfl⟩))
  | deleteStaleSessions cutoff => exact .inr (.inr (.inr ⟨cutoff, rfl⟩))
  -- An alias is no session.
  | registerAlias e root =>
    rcases hres : db.registerAlias e root with x | db''
    · rw [Stmt.exec, hres] at h
      cases h
    · rw [Stmt.exec, hres] at h
      cases h
      rw [Tables.registerAlias] at hres
      split at hres
      · cases hres
        exact .inl rfl
      · split at hres
        · split at hres <;> cases hres
          exact .inl rfl
        · cases hres
          exact .inl rfl
  | _ =>
    cases h
    exact .inl rfl

/-- A statement fails without a trace, or changes the tables. -/
theorem execStmt_eq {w w' : World} {a : Answer} {s : Stmt} {r : Except Exn s.Ret}
    (h : w.execStmt a s = some (r, w')) :
    (∃ x, r = .error x ∧ x.isException = true ∧ w' = w) ∨
      ∃ v db, r = .ok v ∧ w' = { w with db := db } ∧ s.exec w.db = .ok (v, db) ∧
        w.dbOpen = true := by
  rw [World.execStmt.eq_def] at h
  split at h
  · cases h
    exact .inl ⟨_, rfl, rfl, rfl⟩
  · split at h
    · next hopen =>
      split at h
      · next v db hexec =>
        cases h
        exact .inr ⟨v, db, rfl, rfl, hexec, hopen⟩
      · cases h
        exact .inl ⟨_, rfl, rfl, rfl⟩
    · cases h
      exact .inl ⟨_, rfl, rfl, rfl⟩
  · cases h

/-- A commit fails without a trace, or writes the file. -/
theorem execCommit_eq {w w' : World} {a : Answer} {r : Except Exn Unit}
    (h : w.execCommit a = some (r, w')) :
    (∃ x, r = .error x ∧ x.isException = true ∧ w' = w) ∨
      (r = .ok () ∧ w' = { w with disk := w.db } ∧ w.dbOpen = true) := by
  rw [World.execCommit.eq_def] at h
  split at h
  · cases h
    exact .inl ⟨_, rfl, rfl, rfl⟩
  · split at h
    · next hopen =>
      cases h
      exact .inr ⟨rfl, rfl, hopen⟩
    · cases h
      exact .inl ⟨_, rfl, rfl, rfl⟩
  · cases h

/-- Synchronous effects keep to their footprint. -/
theorem frame_sync {t : Tid} {a : Answer} {w w' : World} {e : SyncEff} {r : e.Ret}
    (h : execSync t a w e = some (r, w')) :
    w'.trace = w.trace ∧ ∀ c, c ∉ (Eff.sync e).writes → c.Same w w' := by
  have hsame : w' = w → w'.trace = w.trace ∧ ∀ c, c ∉ (Eff.sync e).writes → c.Same w w' := by
    rintro rfl
    exact ⟨rfl, fun c _ => .refl c _⟩
  cases e with
  | execute s =>
    rcases execStmt_eq h with ⟨_, -, -, rfl⟩ | ⟨v, db, -, rfl, -⟩
    · exact hsame rfl
    · exact ⟨rfl, fun c hc => by cases c <;> first | rfl | simp [Eff.writes] at hc⟩
  | commit =>
    rcases execCommit_eq h with ⟨_, -, -, rfl⟩ | ⟨-, rfl, -⟩
    · exact hsame rfl
    · exact ⟨rfl, fun c hc => by cases c <;> first | rfl | simp [Eff.writes] at hc⟩
  | lockTry room =>
    rw [execSync] at h
    split at h <;> cases h <;>
      exact ⟨rfl, fun c hc => by cases c <;> first | rfl | simp [Eff.writes] at hc⟩
  | cancelTask u =>
    rw [execSync] at h
    split at h
    · cases h
      exact hsame rfl
    · cases h
      exact ⟨rfl, fun c hc => by cases c <;> first | rfl | simp [Eff.writes] at hc⟩
  | createTask request =>
    cases request <;> cases h <;>
      exact ⟨rfl, fun c hc => by cases c <;> first | rfl | simp [Eff.writes] at hc⟩
  | kill pid =>
    obtain ⟨v, -, heq⟩ := Option.map_eq_some_iff.mp h
    cases heq
    exact hsame rfl
  | sendSignal room pid =>
    obtain ⟨v, -, heq⟩ := Option.map_eq_some_iff.mp h
    cases heq
    exact hsame rfl
  | time | uuid4 | readTranscript _ _ =>
    cases a <;> cases h
    exact hsame rfl
  | utcnow =>
    cases a <;> cases h
    exact ⟨rfl, fun c hc => by cases c <;> first | rfl | simp [Eff.writes] at hc⟩
  | listTranscripts dir =>
    rw [execSync.eq_def] at h
    dsimp only at h
    split at h <;> cases h <;> exact hsame rfl
  | closeDb | lockRelease _ | activeSet _ _ | activePop _ | lastSpawnSet _ _ | poolClear
  | taskDone =>
    cases h
    exact ⟨rfl, fun c hc => by cases c <;> first | rfl | simp [Eff.writes] at hc⟩
  | lockLocked _ | activeGet _ | activeItems | lastSpawnGet _ | returncode _ | registryEnabled
  | handlersOutstanding | mark _ =>
    cases h
    exact hsame rfl

/-- Awaited operations keep to their footprint. -/
theorem frame_operation {t : Tid} {a : Answer} {w w' : World} {e : AwaitEff}
    {r : Except Exn e.Val} (h : execOperation t a w e = some (r, w')) :
    w'.trace = w.trace ∧ ∀ c, c ∉ e.writes → c.Same w w' := by
  have hsame : w' = w → w'.trace = w.trace ∧ ∀ c, c ∉ e.writes → c.Same w w' := by
    rintro rfl
    exact ⟨rfl, fun c _ => .refl c _⟩
  cases e with
  | start | sleep | pause =>
    cases a <;> cases h
    exact hsame rfl
  | lockWait room =>
    rw [execOperation] at h
    split at h <;> cases h
    exact ⟨rfl, fun c hc => by cases c <;> first | rfl | simp [AwaitEff.writes] at hc⟩
  | join u =>
    rw [execOperation] at h
    split at h <;> cases h
    exact hsame rfl
  | gatherCancelled =>
    rw [execOperation] at h
    split at h <;> cases h
    exact hsame rfl
  | communicate pid timeout =>
    rw [execOperation.eq_def] at h
    dsimp only at h
    split at h
    · obtain ⟨v, -, heq⟩ := Option.map_eq_some_iff.mp h
      cases heq
      exact hsame rfl
    · cases h
      exact hsame rfl
    · cases h
  | wait pid =>
    rw [execOperation.eq_def] at h
    dsimp only at h
    split at h
    · split at h <;> cases h
      exact hsame rfl
    · cases h
  | drain pid =>
    rw [execOperation.eq_def] at h
    dsimp only at h
    split at h
    · split at h <;> cases h
      exact hsame rfl
    · exact hsame (failure_eq h).1
  | gather =>
    rw [execOperation.eq_def] at h
    dsimp only at h
    split at h
    · split at h <;> cases h
      exact hsame rfl
    · cases h
      exact ⟨rfl, fun c hc => by cases c <;> first | rfl | simp [AwaitEff.writes] at hc⟩
    · cases h
  | openRegistry =>
    cases a <;> cases h <;>
      exact ⟨rfl, fun c hc => by cases c <;> first | rfl | simp [AwaitEff.writes] at hc⟩
  | sync _ | roomSend _ _ _ | roomGetEvent _ _ | closeClient | closePool | upsertSession _ _ _ _ _
  | fetchPending _ _ | linkSession _ _ | fetchStates _ | exec _ _ _ _ =>
    rw [execOperation.eq_def] at h
    dsimp only at h
    split at h
    · cases h
      exact ⟨rfl, fun c hc => by cases c <;> first | rfl | simp [AwaitEff.writes] at hc⟩
    · exact hsame (failure_eq h).1

/-- An awaited operation is cancelled, if the task is flagged, or else takes place. -/
theorem execAwait_eq {t : Tid} {a : Answer} {w w' : World} {e : AwaitEff}
    {r : Except Exn e.Val} (h : execAwait t a w e = some (r, w')) :
    (t ∈ w.cancelled ∧ r = .error .cancelledError ∧ w' = deliverCancel t w e) ∨
      (t ∉ w.cancelled ∧ execOperation t a w e = some (r, w')) := by
  rw [execAwait] at h
  split at h
  · next hmem =>
    cases h
    exact .inl ⟨hmem, rfl, rfl⟩
  · next hmem => exact .inr ⟨hmem, h⟩

/-- Cancellation keeps to the footprint of what it ends. -/
theorem frame_deliverCancel {t : Tid} {w : World} {e : AwaitEff} :
    (deliverCancel t w e).trace = w.trace ∧
      ∀ c, c ∉ (Eff.await e).writes → c.Same w (deliverCancel t w e) := by
  cases e <;> exact ⟨rfl, fun c hc => by
    cases c <;> first | rfl | simp [Eff.writes, AwaitEff.writes] at hc⟩

/-- Every effect keeps to its footprint. -/
theorem frame {t : Tid} {a : Answer} {w w' : World} {e : Eff} {r : e.Ret}
    (h : exec t a e w = some (r, w')) {c : Component} (hc : c ∉ e.writes) : c.Same w w' := by
  obtain ⟨⟨r', w''⟩, hquiet, heq⟩ := Option.map_eq_some_iff.mp h
  cases heq
  -- the observation changes the trace only
  suffices hsame : c.Same w w'' by cases c <;> exact hsame
  cases e with
  | sync e => exact (frame_sync hquiet).2 c hc
  | await e =>
    rcases execAwait_eq hquiet with ⟨-, -, rfl⟩ | ⟨-, hop⟩
    · exact frame_deliverCancel.2 c hc
    · exact (frame_operation hop).2 c fun hmem => hc (List.mem_cons_of_mem _ hmem)

/-- What an effect adds to the trace. -/
theorem exec_trace {t : Tid} {a : Answer} {w w' : World} {e : Eff} {r : e.Ret}
    (h : exec t a e w = some (r, w')) : w'.trace = (obsOf t e r).toList ++ w.trace := by
  obtain ⟨⟨r', w''⟩, hquiet, heq⟩ := Option.map_eq_some_iff.mp h
  cases heq
  suffices htrace : w''.trace = w.trace by simp [World.observe, htrace]
  cases e with
  | sync e => exact (frame_sync hquiet).1
  | await e =>
    rcases execAwait_eq hquiet with ⟨-, -, rfl⟩ | ⟨-, hop⟩
    · exact frame_deliverCancel.1
    · exact (frame_operation hop).1

/-- What a filter finds in the trace after an effect. -/
theorem exec_filterMap {β : Type} (f : Obs → Option β) {t : Tid} {a : Answer} {w w' : World}
    {e : Eff} {r : e.Ret} (h : exec t a e w = some (r, w')) :
    w'.trace.filterMap f = ((obsOf t e r).bind f).toList ++ w.trace.filterMap f := by
  rw [exec_trace h, List.filterMap_append]
  congr 1
  cases obsOf t e r with
  | none => rfl
  | some o => cases hfound : f o <;> simp [hfound]

/-! ## Observers -/

/-- An observer takes effects for acts and recognises them in the trace: what is observed of an
effect is seen as its act, and an effect of which nothing is observed is a silent act. -/
structure Observer (Act : Type) where
  of : (e : Eff) → e.Ret → Act
  seen : Obs → Act
  silent : Act → Bool
  shown : ∀ t e r o, obsOf t e r = some o → seen o = of e r
  hidden : ∀ t e r, obsOf t e r = none → silent (of e r) = true

/-- A reading of the trace that goes by what the observer sees, and not by silent acts, goes by the
acts of the effects. -/
theorem Observer.exec_read {Act β : Type} (O : Observer Act) (read : List Obs → β)
    (next : Act → β → β) (hcons : ∀ o trace, read (o :: trace) = next (O.seen o) (read trace))
    (hsilent : ∀ act b, O.silent act = true → next act b = b) {t : Tid} {a : Answer}
    {w w' : World} {e : Eff} {r : e.Ret} (h : exec t a e w = some (r, w')) :
    read w'.trace = next (O.of e r) (read w.trace) := by
  rw [exec_trace h]
  cases hobs : obsOf t e r with
  | none => exact (hsilent _ _ (O.hidden t e r hobs)).symm
  | some o =>
    rw [← O.shown t e r o hobs]
    exact hcons o w.trace

end MatrixDispatcher
