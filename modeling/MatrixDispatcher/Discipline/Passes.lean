import MatrixDispatcher.Discipline.Rules
import MatrixDispatcher.Discipline.Footprint

/-!
# The discipline of reconcile passes

In which order the reconcile loop reads the pending rows, expires old ones, asks for the states of
the others, claims an approved row and calls the runner on account of it.

* `PassAct` — what an effect and its response mean for a pass.
* `PassStage.step` — the automaton; a stage keeps the rows that the pass has not dealt with.
* `passMonitor` — the monitor made of the two. The other tasks of the dispatcher stay `apart`.
-/

namespace MatrixDispatcher

open Py Coro

/-- `states.get(approval_id)` is `'approved'`. -/
def approvedIn (states : List (ApprovalId × ApprovalState)) : List ApprovalId :=
  (states.filter fun s => decide (stateIn states s.1 = some .approved)).map (·.1)

/-- What an effect and its response mean for a pass. -/
inductive PassAct where
  | fetch (rows : List PendingRow)
  | sweep (now : Int)
  | swept (ids : List ApprovalId)
  | delete (a : ApprovalId) (site : DeleteSite)
  | commit (done : Bool)
  | serve (states : List (ApprovalId × ApprovalState))
  | call (turn : Turn)
  | record (row : PendingRow)
  | ended
  /-- The database is closed. -/
  | close
  | other

namespace PassAct

/-- What a synchronous effect means. -/
def ofSync : (e : SyncEff) → e.Ret → PassAct
  | .execute .getPendingApprovals, .ok rows => .fetch rows
  | .execute (.deletePendingApproval a site), .ok _ => .delete a site
  | .execute (.insertPendingApproval row), .ok _ => .record row
  | .commit, .ok _ => .commit true
  | .commit, .error _ => .commit false
  | .closeDb, _ => .close
  | .mark (.sweep now), _ => .sweep now
  | .mark (.swept ids), _ => .swept ids
  | .mark (.runnerCall turn), _ => .call turn
  | .mark .passOver, _ => .ended
  | _, _ => .other

/-- What an effect means. -/
def of : (e : Eff) → e.Ret → PassAct
  | .sync e, r => ofSync e r
  | .await (.fetchStates _), .ok states => .serve states
  | _, _ => .other

/-- The effects, with the acts that they can be. -/
inductive Source : (e : Eff) → e.Ret → PassAct → Prop
  | fetch (rows) : Source (.sync (.execute .getPendingApprovals)) (.ok rows) (.fetch rows)
  | delete (a site) :
    Source (.sync (.execute (.deletePendingApproval a site))) (.ok ()) (.delete a site)
  | record (row) : Source (.sync (.execute (.insertPendingApproval row))) (.ok ()) (.record row)
  | commit (r done) : Source (.sync .commit) r (.commit done)
  | close (r) : Source (.sync .closeDb) r .close
  | sweep (now r) : Source (.sync (.mark (.sweep now))) r (.sweep now)
  | swept (ids r) : Source (.sync (.mark (.swept ids))) r (.swept ids)
  | call (turn r) : Source (.sync (.mark (.runnerCall turn))) r (.call turn)
  | ended (r) : Source (.sync (.mark .passOver)) r .ended
  | serve (ids states) : Source (.await (.fetchStates ids)) (.ok states) (.serve states)
  | other (e r) : Source e r .other

/-- Every act has an effect that it comes from. -/
theorem source (e : Eff) (r : e.Ret) : Source e r (of e r) := by
  cases e with
  | sync e =>
    cases e with
    | execute s => cases s <;> cases r <;> constructor
    | mark m => cases m <;> constructor
    | commit => cases r <;> constructor
    | _ => constructor
  | await e =>
    cases e with
    | fetchStates _ => cases r <;> constructor
    | _ => constructor

end PassAct

/-- The approvals of the rows. -/
def approvalsOf (rows : List PendingRow) : List ApprovalId := rows.map (·.approvalId)

/-- The rows of the other approvals. -/
def without (rows : List PendingRow) (a : ApprovalId) : List PendingRow :=
  rows.filter fun row => row.approvalId ≠ a

/-- How far a pass has come. -/
inductive PassStage where
  /-- The task does not run. -/
  | absent
  /-- A task other than the reconcile loop. -/
  | apart
  /-- The reconcile loop between two passes. -/
  | outside
  | fetched (rows : List PendingRow)
  /-- The expiry loop, with the rows that it has not deleted. -/
  | sweeping (now : Int) (rows : List PendingRow)
  /-- The expiry loop is over. -/
  | live (rows : List PendingRow)
  /-- The states were served; the rows that are not deleted, and the approved approvals. -/
  | working (rows : List PendingRow) (approved : List ApprovalId)
  /-- The row of an approval is deleted, but not committed. -/
  | deleting (rows : List PendingRow) (a : ApprovalId) (approved : List ApprovalId)
  /-- The row of an approval is deleted for good, and its session is to be resumed. -/
  | claimed (rows : List PendingRow) (a : ApprovalId) (approved : List ApprovalId)
  /-- The pass was handed two rows of one approval, which no table holds. -/
  | muddled

namespace PassStage

/-- The task may not give up the processor: a pass expires its rows in one go, and commits what
it has deleted at once. -/
def isAtomic : PassStage → Bool
  | fetched _ | sweeping _ _ | deleting _ _ _ => true
  | _ => false

/-- The stage is one of the reconcile loop. -/
def reconciles : PassStage → Bool
  | absent | apart => false
  | _ => true

/-- The automaton of passes. -/
def step : PassStage → PassAct → Option PassStage
  | .muddled, _ => some .muddled
  | g, .other => some g
  | .deleting rows a approved, .commit true => some (.claimed rows a approved)
  | .deleting rows _ approved, .commit false => some (.working rows approved)
  | g, .commit _ => some g
  | g, .record _ => if g.isAtomic = false then some g else none
  | .apart, .call turn => if turn.account = none then some .apart else none
  | .apart, .close => some .apart
  | .outside, .fetch rows =>
    some (if (approvalsOf rows).Nodup then .fetched rows else .muddled)
  | .fetched rows, .sweep now => some (.sweeping now rows)
  | .sweeping now rows, .delete a .expired =>
    if ∃ row ∈ rows, row.approvalId = a ∧ now - row.createdAt > PENDING_APPROVAL_EXPIRY_SECONDS then
      some (.sweeping now (without rows a))
    else none
  | .sweeping _ rows, .swept ids => if approvalsOf rows ⊆ ids then some (.live rows) else none
  | .live rows, .serve states => some (.working rows (approvedIn states))
  | .working rows approved, .delete a .claim =>
    if a ∈ approved ∧ a ∈ approvalsOf rows then
      some (.deleting (without rows a) a approved)
    else none
  | .working rows approved, .delete a .denied =>
    if a ∈ approvalsOf rows then some (.working (without rows a) approved) else none
  | .working rows approved, .delete a .noAgent =>
    if a ∈ approvalsOf rows then some (.working (without rows a) approved) else none
  | .claimed rows a approved, .call turn =>
    if turn.account = some a then some (.working rows approved) else none
  | g, .ended => if g.reconciles then some .outside else none
  | _, _ => none

end PassStage

/-! ## The steps of the automaton, one by one -/

/-- The transitions of `PassStage.step`. -/
inductive PassStep : PassStage → PassAct → PassStage → Prop
  | muddled (act) : PassStep .muddled act .muddled
  | other (g) : PassStep g .other g
  | claim (rows a approved) :
    PassStep (.deleting rows a approved) (.commit true) (.claimed rows a approved)
  | keep (rows a approved) :
    PassStep (.deleting rows a approved) (.commit false) (.working rows approved)
  | commit (g done) (h : ∀ rows a approved, g ≠ .deleting rows a approved) :
    PassStep g (.commit done) g
  | record (g row) (h : g.isAtomic = false) : PassStep g (.record row) g
  | callApart (turn : Turn) (h : turn.account = none) : PassStep .apart (.call turn) .apart
  | close : PassStep .apart .close .apart
  | fetch (rows) (h : (approvalsOf rows).Nodup) :
    PassStep .outside (.fetch rows) (.fetched rows)
  | muddle (rows) (h : ¬(approvalsOf rows).Nodup) : PassStep .outside (.fetch rows) .muddled
  | sweep (now rows) : PassStep (.fetched rows) (.sweep now) (.sweeping now rows)
  | expire (now rows) (row : PendingRow) (hrow : row ∈ rows)
      (hage : now - row.createdAt > PENDING_APPROVAL_EXPIRY_SECONDS) :
    PassStep (.sweeping now rows) (.delete row.approvalId .expired)
      (.sweeping now (without rows row.approvalId))
  | swept (now rows ids) (h : approvalsOf rows ⊆ ids) :
    PassStep (.sweeping now rows) (.swept ids) (.live rows)
  | serve (rows states) : PassStep (.live rows) (.serve states) (.working rows (approvedIn states))
  | delete (rows a approved) (happroved : a ∈ approved)
      (hrow : a ∈ approvalsOf rows) :
    PassStep (.working rows approved) (.delete a .claim) (.deleting (without rows a) a approved)
  | drop (rows a approved site) (hsite : site = .denied ∨ site = .noAgent)
      (hrow : a ∈ approvalsOf rows) :
    PassStep (.working rows approved) (.delete a site) (.working (without rows a) approved)
  | call (rows a approved) (turn : Turn) (h : turn.account = some a) :
    PassStep (.claimed rows a approved) (.call turn) (.working rows approved)
  | ended (g : PassStage) (h : g.reconciles) : PassStep g .ended .outside

namespace PassStage

/-- Every transition of the automaton is one of those. -/
theorem step_cases {g g' : PassStage} {act : PassAct} (h : g.step act = some g') :
    PassStep g act g' := by
  rw [step.eq_def] at h
  split at h
  case h_5 =>
    rename_i done _ htrue hfalse
    cases h
    refine .commit _ done fun rows a approved heq => ?_
    cases done
    · exact hfalse rows a approved heq rfl
    · exact htrue rows a approved heq rfl
  case h_9 =>
    split at h
    · next hnodup =>
      cases h
      exact .fetch _ hnodup
    · next hnodup =>
      cases h
      exact .muddle _ hnodup
  case h_19 => cases h
  all_goals first
    | (cases h
       constructor)
    | skip
  all_goals
    split at h
    case isFalse => cases h
    case isTrue hif => ?_
  all_goals cases h
  · exact .record _ _ hif
  · exact .callApart _ hif
  · obtain ⟨row, hrow, rfl, hage⟩ := hif
    exact .expire _ _ row hrow hage
  · exact .swept _ _ _ hif
  · exact .delete _ _ _ hif.1 hif.2
  · exact .drop _ _ _ _ (.inl rfl) hif
  · exact .drop _ _ _ _ (.inr rfl) hif
  · exact .call _ _ _ _ hif
  · exact .ended _ hif

end PassStage

/-- The monitor of reconcile passes. -/
def passMonitor : Monitor Eff Eff.Ret PassStage where
  next g e r := g.step (PassAct.of e r)
  atomic := PassStage.isAtomic
  final g := g = .apart ∨ g = .outside ∨ g = .muddled
  idle := .absent
  atomic_idle := rfl

end MatrixDispatcher
