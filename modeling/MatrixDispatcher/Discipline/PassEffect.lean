import MatrixDispatcher.Discipline.PassWalk
import MatrixDispatcher.Runtime.Frame

/-!
# What the acts of passes do to the world

The effects once more, restated for the acts of passes and the table `pending_approvals`.

* `PassChange` — what an act does to the table on the connection, in the file, and what it says
  about the world it takes place in.
* `passObserver` — an act is either seen in the trace or silent.
* `PassInv` — what relates the stages to the world in every run: only the reconcile loop makes
  passes, and the rows that a pass has not dealt with are still in the table.
-/

namespace MatrixDispatcher

open Py Coro

variable {config : MatrixDispatcher.Config}

namespace PassAct

/-- The pending approvals on the connection after an act. -/
def queue (w : World) : PassAct → Table ApprovalId PendingRow (·.approvalId)
  | delete a _ => w.db.pendingApprovals.deleteWhere fun row => row.approvalId == a
  | record row => w.db.pendingApprovals.insertOrReplace row
  | close => w.disk.pendingApprovals
  | _ => w.db.pendingApprovals

/-- The pending approvals in the database file after an act. -/
def saved (w : World) : PassAct → Table ApprovalId PendingRow (·.approvalId)
  | commit true => w.db.pendingApprovals
  | _ => w.disk.pendingApprovals

/-- The connection is open after an act. -/
def isOpen (w : World) : PassAct → Bool
  | close => false
  | _ => w.dbOpen

/-- What an act says about the world it takes place in. -/
def Guard (w : World) : PassAct → Prop
  | fetch rows => w.dbOpen = true ∧ rows = w.db.pendingApprovals.rows
  | delete _ _ | record _ | commit true => w.dbOpen = true
  | serve states => ∃ ids, states = statesOf w.approvals.rows ids
  | _ => True

/-- The act leaves no observation in the trace. -/
def silent : PassAct → Bool
  | fetch _ | delete _ _ | commit _ | close | other => true
  | _ => false

end PassAct

/-- What an act does to the world. -/
structure PassChange (act : PassAct) (w w' : World) : Prop where
  guard : act.Guard w
  queue : w'.db.pendingApprovals = act.queue w
  saved : w'.disk.pendingApprovals = act.saved w
  isOpen : w'.dbOpen = act.isOpen w

/-- The act that an observation shows. The end of the process ends a pass. -/
def Obs.passAct : Obs → PassAct
  | recorded row => .record row
  | served states => .serve states
  | marked _ (.sweep now) => .sweep now
  | marked _ (.swept ids) => .swept ids
  | marked _ (.runnerCall turn) => .call turn
  | marked _ .passOver | restarted => .ended
  | _ => .other

/-- The effect that deletes a row. -/
theorem eq_of_delete {e : Eff} {r : e.Ret} {a : ApprovalId} {site : DeleteSite}
    (h : PassAct.of e r = .delete a site) :
    e = .sync (.execute (.deletePendingApproval a site)) := by
  have hsource := PassAct.source e r
  rw [h] at hsource
  cases hsource
  rfl

/-- The effect that closes the connection. -/
theorem eq_of_close {e : Eff} {r : e.Ret} (h : PassAct.of e r = .close) : e = .sync .closeDb := by
  have hsource := PassAct.source e r
  rw [h] at hsource
  cases hsource
  rfl

section

variable {t : Tid} {a : Answer} {w w' : World}

/-- The table after a statement. -/
theorem queue_of_exec {s : Stmt} {v : s.Ret} {db : Tables} (h : s.exec w.db = .ok (v, db)) :
    db.pendingApprovals = (PassAct.of (.sync (.execute s)) (.ok v)).queue w := by
  cases s with
  | insertPendingApproval _ | deletePendingApproval _ _ =>
    cases h
    rfl
  | _ =>
    rcases (exec_tables h).2 with hsame | ⟨_, hs⟩ | ⟨_, _, hs⟩
    · exact hsame
    · cases hs
    · cases hs

/-- What a synchronous act does. -/
theorem execSync_pass {e : SyncEff} {r : e.Ret} (h : execSync t a w e = some (r, w')) :
    PassChange (PassAct.ofSync e r) w w' := by
  -- Most effects change neither the rows nor the file.
  have hstill : ∀ {act : PassAct}, act = .other → Component.db ∉ (Eff.sync e).writes →
      Component.disk ∉ (Eff.sync e).writes → Component.dbOpen ∉ (Eff.sync e).writes →
      PassChange act w w' := by
    rintro _ rfl hdb hdisk hopen
    have hdb' : w'.db = w.db := (frame_sync h).2 .db hdb
    have hdisk' : w'.disk = w.disk := (frame_sync h).2 .disk hdisk
    exact ⟨trivial, by rw [hdb']; rfl, by rw [hdisk']; rfl, (frame_sync h).2 .dbOpen hopen⟩
  cases e with
  | execute s =>
    rcases execStmt_eq h with ⟨x, rfl, -, rfl⟩ | ⟨v, db, rfl, rfl, hexec, hopen⟩
    · cases s <;> exact ⟨trivial, rfl, rfl, rfl⟩
    · have hqueue := queue_of_exec hexec
      cases s with
      | getPendingApprovals =>
        cases hexec
        exact ⟨⟨hopen, rfl⟩, rfl, rfl, rfl⟩
      | insertPendingApproval _ | deletePendingApproval _ _ => exact ⟨hopen, hqueue, rfl, rfl⟩
      | _ => exact ⟨trivial, hqueue, rfl, rfl⟩
  | commit =>
    rcases execCommit_eq h with ⟨x, rfl, -, rfl⟩ | ⟨rfl, rfl, hopen⟩
    · exact ⟨trivial, rfl, rfl, rfl⟩
    · exact ⟨hopen, rfl, rfl, rfl⟩
  | closeDb =>
    cases h
    exact ⟨trivial, rfl, rfl, rfl⟩
  | mark m =>
    cases h
    cases m <;> exact ⟨trivial, rfl, rfl, rfl⟩
  | _ => exact hstill rfl (by simp [Eff.writes]) (by simp [Eff.writes]) (by simp [Eff.writes])

/-- What an act does. -/
theorem exec_pass {e : Eff} {r : e.Ret} (h : exec t a e w = some (r, w')) :
    PassChange (PassAct.of e r) w w' := by
  cases e with
  | sync e =>
    obtain ⟨⟨r', w''⟩, hquiet, heq⟩ := Option.map_eq_some_iff.mp h
    cases heq
    have hchange : PassChange (PassAct.of (.sync e) r) w w'' := execSync_pass hquiet
    exact ⟨hchange.guard, hchange.queue, hchange.saved, hchange.isOpen⟩
  | await e =>
    have hdb : w'.db = w.db :=
      frame h (c := .db) (by cases e <;> simp [Eff.writes, AwaitEff.writes])
    have hdisk : w'.disk = w.disk :=
      frame h (c := .disk) (by cases e <;> simp [Eff.writes, AwaitEff.writes])
    have hopen : w'.dbOpen = w.dbOpen :=
      frame h (c := .dbOpen) (by cases e <;> simp [Eff.writes, AwaitEff.writes])
    have hstill : ∀ {act : PassAct}, act.Guard w → act.queue w = w.db.pendingApprovals →
        act.saved w = w.disk.pendingApprovals → act.isOpen w = w.dbOpen →
        PassChange act w w' := fun hguard hqueue hsaved hisOpen =>
      ⟨hguard, by rw [hdb, hqueue], by rw [hdisk, hsaved], hopen.trans hisOpen.symm⟩
    cases e with
    -- The states that the registry answers are those that it has.
    | fetchStates ids =>
      cases r with
      | error _ => exact hstill trivial rfl rfl rfl
      | ok states =>
        refine hstill ?_ rfl rfl rfl
        obtain ⟨⟨r', w''⟩, hquiet, heq⟩ := Option.map_eq_some_iff.mp h
        cases heq
        rcases execAwait_eq hquiet with ⟨-, hr, -⟩ | ⟨-, hop⟩
        · cases hr
        rw [execOperation.eq_def] at hop
        dsimp only at hop
        split at hop
        · cases hop
          exact ⟨ids, rfl⟩
        · obtain ⟨-, x, hx, -⟩ := failure_eq hop
          cases hx
    | _ => exact hstill trivial rfl rfl rfl

/-- What is observed of effects, as acts of passes. -/
def passObserver : Observer PassAct where
  of := PassAct.of
  seen := Obs.passAct
  silent := PassAct.silent
  shown := by
    intro t e r o ho
    cases e with
    | sync e =>
      cases e with
      | execute s => cases s <;> cases r <;> first | (cases ho; rfl) | cases ho
      | createTask request => cases request <;> first | (cases ho; rfl) | cases ho
      | mark m => cases m <;> (cases ho; rfl)
      | sendSignal _ _ =>
        cases ho
        rfl
      | _ => cases ho
    | await e =>
      cases e with
      | sync _ | roomSend _ _ _ | fetchStates _ => cases r <;> first | (cases ho; rfl) | cases ho
      | _ => cases ho
  hidden := by
    intro t e r ho
    cases e with
    | sync e =>
      cases e with
      | execute s => cases s <;> cases r <;> first | rfl | cases ho
      | commit => cases r <;> rfl
      | mark m => cases ho
      | _ => rfl
    | await e =>
      cases e with
      | fetchStates _ => cases r <;> first | rfl | cases ho
      | _ => rfl

end

end MatrixDispatcher
