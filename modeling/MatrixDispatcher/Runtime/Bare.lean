import MatrixDispatcher.Runtime.Frame

/-!
# The world without the registry

What is left of a world without the approval registry, the pending approvals and the database file.
An effect that has nothing to do with these does the same to the rest as it does to the whole.

* `World.bare` — the rest.
* `exec_bare` — effects and the rest of the world commute.
-/

namespace MatrixDispatcher

/-- The tables without the pending approvals. -/
def Tables.bare (db : Tables) : Tables := { db with pendingApprovals := .empty }

/-- The observation is not that of a recorded approval. -/
def Obs.bare : Obs → Bool
  | .recorded _ => false
  | _ => true

/-- The world without the registry, the pending approvals, the file and
the trace. -/
def World.bare (w : World) : World where
  __ := w
  disk := .empty
  db := w.db.bare
  pool := false
  approvals := .empty
  registered := []
  clock := 0
  trace := []

/-- The statement is not about pending approvals. -/
def Stmt.unpending : Stmt → Bool
  | .insertPendingApproval _ | .getPendingApprovals | .deletePendingApproval _ _ => false
  | _ => true

/-- The effect has nothing to do with the registry, the pending approvals and the file. -/
def Eff.offline : Eff → Bool
  | .sync (.execute s) => s.unpending
  | .sync .registryEnabled | .sync .poolClear | .sync .closeDb => false
  | .await (.upsertSession _ _ _ _ _) | .await (.fetchPending _ _) | .await (.linkSession _ _)
  | .await (.fetchStates _) | .await .openRegistry | .await .closePool => false
  | _ => true

/-- `Eff.offline` as a proposition. -/
abbrev Offline (e : Eff) : Prop := e.offline = true

/-- A response together with the rest of the world. -/
def onBare {α : Type} (res : α × World) : α × World := (res.1, res.2.bare)

theorem exec_tables_bare {s : Stmt} (hs : s.unpending = true) (db : Tables) :
    s.exec db.bare = (s.exec db).map fun res => (res.1, res.2.bare) := by
  cases s with
  -- The foreign key is looked up in the sessions, which both tables have.
  | registerAlias e root =>
    simp only [Stmt.exec, Tables.registerAlias]
    by_cases he : e = []
    · rw [if_pos he, if_pos he]
      rfl
    rw [if_neg he, if_neg he]
    by_cases hkey : db.eventAliases.hasKey e = false
    · rw [dif_pos hkey, dif_pos (show db.bare.eventAliases.hasKey e = false from hkey)]
      by_cases hroot : db.sessions.hasKey root = true
      · rw [if_pos hroot, if_pos (show db.bare.sessions.hasKey root = true from hroot)]
        rfl
      · rw [if_neg hroot, if_neg (show ¬ db.bare.sessions.hasKey root = true from hroot)]
        rfl
    · rw [dif_neg hkey, dif_neg (show ¬ db.bare.eventAliases.hasKey e = false from hkey)]
      rfl
  | insertSession root room agent session now =>
    simp only [Stmt.exec, Tables.insertSession]
    by_cases hkey : db.sessions.hasKey root = false
    · rw [dif_pos hkey, dif_pos (show db.bare.sessions.hasKey root = false from hkey)]
      rfl
    · rw [dif_neg hkey, dif_neg (show ¬ db.bare.sessions.hasKey root = false from hkey)]
      rfl
  | deleteStaleSessions cutoff =>
    simp only [Stmt.exec, Tables.deleteStaleSessions]
    split <;> split <;> first | rfl | contradiction
  | insertPendingApproval _ | getPendingApprovals | deletePendingApproval _ _ => cases hs
  | _ => rfl

section

variable {t : Tid} {a : Answer} {w : World}

theorem execSync_bare {e : SyncEff} (he : Offline (.sync e)) :
    (execSync t a w.bare e).map onBare = (execSync t a w e).map onBare := by
  cases e with
  -- The statement does to the bare tables what it does to the others.
  | execute s =>
    have hexec := exec_tables_bare he w.db
    simp only [execSync, World.execStmt]
    split
    · rfl
    · by_cases hopen : w.dbOpen = true
      · rw [if_pos hopen, if_pos (show w.bare.dbOpen = true from hopen),
          show w.bare.db = w.db.bare from rfl, hexec]
        cases s.exec w.db <;> rfl
      · rw [if_neg hopen, if_neg (show ¬ w.bare.dbOpen = true from hopen)]
        rfl
    · rfl
  | registryEnabled | poolClear | closeDb => cases he
  | time | utcnow | uuid4 | readTranscript _ _ => cases a <;> rfl
  | listTranscripts _ =>
    cases a with
    | raised x => cases x <;> rfl
    | _ => rfl
  | kill pid | sendSignal _ pid =>
    simp only [execSync, World.signal]
    split
    · rfl
    · by_cases hexit : (w.exitOf pid).isSome = true
      · rw [if_pos hexit, if_pos (show (w.bare.exitOf pid).isSome = true from hexit)]
        rfl
      · rw [if_neg hexit, if_neg (show ¬ (w.bare.exitOf pid).isSome = true from hexit)]
        rfl
    · rfl
  | commit =>
    simp only [execSync, World.execCommit]
    split
    · rfl
    · by_cases hopen : w.dbOpen = true
      · rw [if_pos hopen, if_pos (show w.bare.dbOpen = true from hopen)]
        rfl
      · rw [if_neg hopen, if_neg (show ¬ w.bare.dbOpen = true from hopen)]
        rfl
    · rfl
  | lockTry room =>
    by_cases hfree : (w.locks room).owner = none ∧ (w.locks room).waiters = []
    · rw [execSync, execSync, if_pos hfree,
        if_pos (show (w.bare.locks room).owner = none ∧ (w.bare.locks room).waiters = [] from
          hfree)]
      rfl
    · rw [execSync, execSync, if_neg hfree, if_neg (show
        ¬((w.bare.locks room).owner = none ∧ (w.bare.locks room).waiters = []) from hfree)]
      rfl
  | cancelTask u =>
    by_cases hfinished : u ∈ w.finished
    · rw [execSync, execSync, if_pos hfinished, if_pos (show u ∈ w.bare.finished from hfinished)]
      rfl
    · rw [execSync, execSync, if_neg hfinished,
        if_neg (show ¬ u ∈ w.bare.finished from hfinished)]
      rfl
  | createTask request => cases request <;> rfl
  | _ => rfl

/-- An awaited operation of a task that is not being cancelled. -/
theorem execOperation_bare {e : AwaitEff} (he : Offline (.await e)) :
    (execOperation t a w.bare e).map onBare = (execOperation t a w e).map onBare := by
  -- A failing operation answers the same in both worlds.
  have hfailure : ∀ {α : Type}, (failure w.bare a : Option (Except Exn α × World)).map onBare =
      (failure w a).map onBare := by
    intro α
    cases a with
    | raised x =>
      rw [failure, failure]
      split <;> rfl
    | _ => rfl
  cases e with
  | upsertSession _ _ _ _ _ | fetchPending _ _ | linkSession _ _ | fetchStates _ | openRegistry
  | closePool => cases he
  | start | sleep | pause => cases a <;> rfl
  | lockWait room =>
    simp only [execOperation]
    split <;> split <;> first | rfl | contradiction
  | join u =>
    simp only [execOperation]
    split <;> split <;> first | rfl | contradiction
  | gatherCancelled =>
    simp only [execOperation]
    split <;> split <;> first | rfl | contradiction
  | gather =>
    rw [execOperation.eq_def, execOperation.eq_def]
    dsimp only
    split
    · split <;> split <;> first | rfl | contradiction
    · rfl
    · rfl
  | wait pid =>
    rw [execOperation.eq_def, execOperation.eq_def]
    dsimp only
    split
    · split <;> split <;> first | rfl | contradiction
    · rfl
  | communicate pid _ =>
    rw [execOperation.eq_def, execOperation.eq_def]
    dsimp only
    split
    · rw [show w.bare.exitOf pid = w.exitOf pid from rfl]
      cases w.exitOf pid <;> rfl
    · rfl
    · rfl
  | drain pid =>
    rw [execOperation.eq_def, execOperation.eq_def]
    dsimp only
    split
    · split <;> split <;> first | rfl | contradiction
    · exact hfailure
  | _ =>
    rw [execOperation.eq_def, execOperation.eq_def]
    dsimp only
    split
    · rfl
    · exact hfailure

/-- An effect does the same to the rest of the world as to the whole. -/
theorem execQuietly_bare {e : Eff} (he : Offline e) :
    (execQuietly t a e w.bare).map onBare = (execQuietly t a e w).map onBare := by
  cases e with
  | sync e => exact execSync_bare he
  | await e =>
    simp only [execQuietly, execAwait]
    by_cases hcancelled : t ∈ w.cancelled
    · rw [if_pos hcancelled, if_pos (show t ∈ w.bare.cancelled from hcancelled)]
      cases e <;> rfl
    · rw [if_neg hcancelled, if_neg (show ¬ t ∈ w.bare.cancelled from hcancelled)]
      exact execOperation_bare he

end

/-- The worlds are alike up to the registry, the pending approvals and the file. -/
structure World.Alike (w w' : World) : Prop where
  bare : w.bare = w'.bare
  trace : w.trace.filter Obs.bare = w'.trace.filter Obs.bare

/-- In worlds that are alike an effect does the same. -/
theorem exec_alike {t : Tid} {a : Answer} {e : Eff} {r : e.Ret} {w w' w₁ : World}
    (he : Offline e) (h : w.Alike w') (hexec : exec t a e w = some (r, w₁)) :
    ∃ w₁', exec t a e w' = some (r, w₁') ∧ w₁.Alike w₁' := by
  obtain ⟨⟨r₀, w₂⟩, hquiet, heq⟩ := Option.map_eq_some_iff.mp hexec
  cases heq
  have hbare : (execQuietly t a e w').map onBare = some (r, w₂.bare) := by
    rw [← execQuietly_bare he, ← h.bare, execQuietly_bare he, hquiet]
    rfl
  obtain ⟨⟨r', w₂'⟩, hquiet', heq⟩ := Option.map_eq_some_iff.mp hbare
  obtain ⟨rfl, hsame⟩ := Prod.mk.inj heq
  have hexec' : exec t a e w' = some (r', w₂'.observe (obsOf t e r')) := by
    rw [exec, hquiet']
    rfl
  refine ⟨_, hexec', hsame.symm, ?_⟩
  rw [exec_trace hexec, exec_trace hexec', List.filter_append, List.filter_append, h.trace]

/-- The effects that concern nothing but the registry, the pending approvals and the file. -/
def Eff.besides : Eff → Bool
  | .sync .registryEnabled | .sync .time | .sync .commit
  | .sync (.execute (.insertPendingApproval _)) => true
  | .await (.upsertSession _ _ _ _ _) | .await (.fetchPending _ _) | .await (.linkSession _ _)
  | .await .pause => true
  | _ => false

/-- Such an effect leaves the rest of the world alone, unless it delivers a cancellation. -/
theorem exec_besides {t : Tid} {a : Answer} {e : Eff} {r : e.Ret} {w w₁ : World}
    (he : e.besides = true) (hcancelled : t ∉ w.cancelled) (hexec : exec t a e w = some (r, w₁)) :
    w₁.Alike w := by
  -- What is observed of it is left out of the bare trace.
  have htrace : w₁.trace.filter Obs.bare = w.trace.filter Obs.bare := by
    rw [exec_trace hexec, List.filter_append]
    have hnone : (obsOf t e r).toList.filter Obs.bare = [] := by
      cases e with
      | sync e =>
        cases e with
        | execute s => cases s <;> cases r <;> first | rfl | cases he
        | commit => cases r <;> rfl
        | _ => first | rfl | cases he
      | await e => cases e <;> cases r <;> first | rfl | cases he
    rw [hnone, List.nil_append]
  refine ⟨?_, htrace⟩
  obtain ⟨⟨r', w₂⟩, hquiet, heq⟩ := Option.map_eq_some_iff.mp hexec
  cases heq
  change w₂.bare = w.bare
  cases e with
  | sync e =>
    cases e with
    | execute s =>
      cases s with
      | insertPendingApproval row =>
        rcases execStmt_eq hquiet with ⟨_, -, -, rfl⟩ | ⟨v, db, -, rfl, hs, -⟩
        · rfl
        · cases hs
          rfl
      | _ => cases he
    | commit => rcases execCommit_eq hquiet with ⟨_, -, -, rfl⟩ | ⟨-, rfl, -⟩ <;> rfl
    | registryEnabled =>
      cases hquiet
      rfl
    | time =>
      cases a <;> cases hquiet
      rfl
    | _ => cases he
  | await e =>
    rcases execAwait_eq hquiet with ⟨hmem, -, -⟩ | ⟨-, hop⟩
    · exact absurd hmem hcancelled
    rw [execOperation.eq_def] at hop
    cases e with
    | pause =>
      cases a <;> cases hop
      rfl
    | upsertSession _ _ _ _ _ | fetchPending _ _ | linkSession _ _ =>
      dsimp only at hop
      split at hop
      · cases hop
        rfl
      · obtain ⟨rfl, -⟩ := failure_eq hop
        rfl
    | _ => cases he

end MatrixDispatcher
