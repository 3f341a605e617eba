import MatrixDispatcher.Discipline.Logs
import MatrixDispatcher.Discipline.PassEffect
import MatrixDispatcher.Discipline.Polls
import MatrixDispatcher.Discipline.Sessions

/-!
# One reconcile pass

What one call of `reconcile_once` does with the rows of `pending_approvals`, while no other task
writes the table.

* `runnerCalls`, `deleted`, `recorded` — what a log shows.
* `pendingAfter` — the table after the statements of a log.
* `RowHandled`, `RowCut` — the part of the log for a row that the pass is done with, and for one
  that it was interrupted at.
* `Reconciled` — the whole pass; `reconcile_pass` says that every pass is like that.
-/

namespace MatrixDispatcher

open Coro Py

/-! ## What a log shows -/

namespace PassAct

/-- The turn of a call of the runner. -/
def turn? : PassAct → Option Turn
  | call turn => some turn
  | _ => none

/-- The approval whose row is deleted. -/
def deleted? : PassAct → Option ApprovalId
  | delete a _ => some a
  | _ => none

/-- The row that is recorded. -/
def recorded? : PassAct → Option PendingRow
  | record row => some row
  | _ => none

/-- The pending approvals after an act. -/
def onPending (T : Table ApprovalId PendingRow (·.approvalId)) :
    PassAct → Table ApprovalId PendingRow (·.approvalId)
  | delete a _ => T.deleteWhere fun row => row.approvalId == a
  | record row => T.insertOrReplace row
  | _ => T

end PassAct

/-- What an entry of a log means for a pass. -/
def actOf (c : Call Eff Eff.Ret) : PassAct := PassAct.of c.eff c.response

/-- The turns that the runner was called for. -/
def runnerCalls (l : Log) : List Turn := l.filterMap fun c => (actOf c).turn?

/-- The approvals whose rows were deleted. -/
def deleted (l : Log) : List ApprovalId := l.filterMap fun c => (actOf c).deleted?

/-- The rows that were recorded. -/
def recorded (l : Log) : List PendingRow := l.filterMap fun c => (actOf c).recorded?

/-- The pending approvals after the statements of a log. -/
def pendingAfter (T : Table ApprovalId PendingRow (·.approvalId)) (l : Log) :
    Table ApprovalId PendingRow (·.approvalId) :=
  l.foldl (fun T c => (actOf c).onPending T) T

section

variable {T : Table ApprovalId PendingRow (·.approvalId)}

/-- The calls of two logs, one after the other. -/
theorem runnerCalls_append (l l' : Log) : runnerCalls (l ++ l') = runnerCalls l ++ runnerCalls l' :=
  List.filterMap_append

/-- The deletions of two logs, one after the other. -/
theorem deleted_append (l l' : Log) : deleted (l ++ l') = deleted l ++ deleted l' :=
  List.filterMap_append

/-- The recorded rows of two logs, one after the other. -/
theorem recorded_append (l l' : Log) : recorded (l ++ l') = recorded l ++ recorded l' :=
  List.filterMap_append

/-- An entry adds the row that it records, if it records one. -/
theorem recorded_cons (c : Call Eff Eff.Ret) (l : Log) :
    recorded (c :: l) = (actOf c).recorded?.toList ++ recorded l := by
  rw [recorded, List.filterMap_cons]
  cases (actOf c).recorded? <;> rfl

/-- The table after two logs is that after the second one, from the table after the first one. -/
theorem pendingAfter_append (l l' : Log) :
    pendingAfter T (l ++ l') = pendingAfter (pendingAfter T l) l' :=
  List.foldl_append

end

/-! ## The specification of a pass -/

section

variable (config : MatrixDispatcher.Config) (states : List (ApprovalId × ApprovalState))

/-- The operator has neither approved nor denied the request of the row. -/
def undecided (row : PendingRow) : Bool :=
  decide (stateIn states row.approvalId ≠ some .approved ∧
    stateIn states row.approvalId ≠ some .denied)

/-- The turn that is due for a row: that of its approval, if its room is configured. -/
def turnDue (row : PendingRow) : Option Turn :=
  if stateIn states row.approvalId = some .approved then
    (config.agentOf row.roomId).map (approvedOf row)
  else none

/-- The post that is due for a row: that its request was denied. -/
def denialDue (row : PendingRow) : Option Post :=
  if stateIn states row.approvalId = some .denied then
    some ⟨row.roomId, config.mentionUser.getD [] ++
      lit " Operator denied the pending request for `" ++ row.toolName.orElse (lit "the tool") ++
        lit "`; not retrying.", (some row.threadRootId).filter (· ≠ [])⟩
  else none

/-- The log of a pass that does nothing but look and delete: the runner is not called, no message is
posted, and no row recorded. -/
structure Uneventful (es : Log) : Prop where
  calls : runnerCalls es = []
  posts : posts es = []
  records : recorded es = []

/-- The log holds a turn of the approval of the row, which makes its own posts and may record a row.
Around it, nothing is posted or recorded. -/
def Resumes (row : PendingRow) (es : Log) : Prop :=
  ∃ agent cfg dir before turn after res, config.roomToAgent row.roomId = some (agent, cfg) ∧
    cfg.projectDir = some dir ∧ es = before ++ turn ++ after ∧
    Uneventful before ∧ Uneventful after ∧
    TraceE (resumeTurn config row dir agent cfg.timeout) turn res

/-- The log for a row that the pass is done with. -/
structure RowHandled (row : PendingRow) (es : Log) : Prop where
  calls : runnerCalls es = (turnDue config states row).toList
  posts : turnDue config states row = none → posts es = (denialDue config states row).toList
  records : turnDue config states row = none → recorded es = []
  resumes : turnDue config states row ≠ none → Resumes config row es
  deletes : deleted es = if undecided states row then [] else [row.approvalId]

/-- The log for a row at which the pass was interrupted. -/
structure RowCut (row : PendingRow) (es : Log) : Prop where
  decided : undecided states row = false
  calls : runnerCalls es <+: (turnDue config states row).toList
  posts : turnDue config states row = none → posts es <+: (denialDue config states row).toList
  records : turnDue config states row = none → recorded es = []
  resumes : turnDue config states row ≠ none → Resumes config row es ∨ Uneventful es
  deletes : deleted es = [row.approvalId]

end

/-- The rows that are at most as old as pending approvals may get. -/
def liveRows (now : Int) (rows : List PendingRow) : List PendingRow :=
  rows.filter fun row => decide (now - row.createdAt ≤ PENDING_APPROVAL_EXPIRY_SECONDS)

/-- The rows that are older. -/
def expiredRows (now : Int) (rows : List PendingRow) : List PendingRow :=
  rows.filter fun row => decide (PENDING_APPROVAL_EXPIRY_SECONDS < now - row.createdAt)

/-- The log of a pass up to its first live row: it read the clock, deleted the rows that are too
old, and was told these states. -/
structure Opening (rows : List PendingRow) (now : Int) (states : List (ApprovalId × ApprovalState))
    (es : Log) : Prop where
  quiet : Uneventful es
  deletes : deleted es = approvalsOf (expiredRows now rows)
  clock : rows ≠ [] → ∃ t : Time, ⟨.sync .time, t⟩ ∈ es ∧ now = t.seconds
  answer : liveRows now rows ≠ [] → ∃ es₁ es₂, es = es₁ ++ es₂ ∧
    TraceE (Registry.getApprovalStates (approvalsOf (liveRows now rows))) es₂ (.ok states)

/-- The end of the log of a pass. -/
def passOver : Log := [⟨.sync (.mark .passOver), ()⟩]

section

variable (config : MatrixDispatcher.Config) (rows : List PendingRow) (es : Log)

/-- A pass over these rows that has completed, and the rows that it leaves. -/
def PassCompleted (final : List PendingRow) : Prop :=
  ∃ now states opening acting, es = opening ++ acting ++ passOver ∧
    Opening rows now states opening ∧
    (∃ parts, acting = parts.flatten ∧
      List.Forall₂ (RowHandled config states) (liveRows now rows) parts) ∧
    runnerCalls es = (liveRows now rows).filterMap (turnDue config states) ∧
    final = (liveRows now rows).filter (undecided states) ++ recorded es

/-- A pass over these rows that was interrupted at one of them, and the rows that it leaves. -/
def PassInterrupted (final : List PendingRow) : Prop :=
  ∃ now states opening done row later parts part,
    es = opening ++ (parts.flatten ++ part) ++ passOver ∧
    Opening rows now states opening ∧
    liveRows now rows = done ++ row :: later ∧
    List.Forall₂ (RowHandled config states) done parts ∧ RowCut config states row part ∧
    final = done.filter (undecided states) ++ later ++ recorded es

/-- A pass that was over before it came to a live row, and the rows that it leaves: all of them, or
those that are live at the time that it read. -/
structure PassUnstarted (final : List PendingRow) : Prop where
  quiet : Uneventful es
  rows : (deleted es = [] ∧ final = rows) ∨
    ∃ now, (∃ t : Time, ⟨.sync .time, t⟩ ∈ es ∧ now = t.seconds) ∧
      deleted es = approvalsOf (expiredRows now rows) ∧ final = liveRows now rows

/-- What a pass over these rows must be like. -/
structure Reconciled (res : Except Exn Unit) (final : List PendingRow) : Prop where
  completes : res = .ok () → PassCompleted config rows es final
  raises : res ≠ .ok () → PassUnstarted rows es final ∨ PassInterrupted config rows es final

end

/-! ## Assumptions -/

/-- The pending approvals that are read are those of the table. -/
def readsOf (T : Table ApprovalId PendingRow (·.approvalId)) : Assumption Eff Eff.Ret
  | l, .sync (.execute .getPendingApprovals), r =>
    ∀ rows, r = .ok rows → rows = (pendingAfter T l).rows
  | _, _, _ => True

/-- The last entry of the log is the deletion of a pending approval. -/
def EndsWithDelete (l : Log) : Prop :=
  ∃ a site r, l.getLast? = some ⟨.sync (.execute (.deletePendingApproval a site)), r⟩

/-- Pending approvals are deleted, and the deletions committed, without an exception; the rows that
are recorded have ids that the table does not have. -/
def favourable (T : Table ApprovalId PendingRow (·.approvalId)) : Assumption Eff Eff.Ret
  | _, .sync (.execute (.deletePendingApproval _ _)), r => r = .ok ()
  | l, .sync .commit, r => EndsWithDelete l → r = .ok ()
  | l, .sync (.execute (.insertPendingApproval row)), r =>
    r = .ok () → (pendingAfter T l).hasKey row.approvalId = false
  | _, _, _ => True

/-! ## Parts of a log -/

section

variable {T : Table ApprovalId PendingRow (·.approvalId)} {l es : Log}

/-- The effect does not call the runner. -/
def Idle (e : Eff) : Prop := ∀ r, (PassAct.of e r).turn? = none

/-- A busy effect calls no runner: only the mark of a call does. -/
theorem idle_of_busy {e : Eff} (h : Busy e) : Idle e := by
  intro r
  have hsource := PassAct.source e r
  generalize PassAct.of e r = act at hsource
  cases hsource with
  | call turn => cases h
  | _ => rfl

/-- A turn deletes no pending approval. -/
theorem deleted_of_turn {e : Eff} (h : TurnEff (fun _ => True) e) (r : e.Ret) :
    (PassAct.of e r).deleted? = none := by
  have hsource := PassAct.source e r
  generalize PassAct.of e r = act at hsource
  cases hsource with
  | delete a site => cases h
  | _ => rfl

/-- A plain effect records no row. -/
theorem recorded_of_plain {e : Eff} (h : Plain e) (r : e.Ret) :
    (PassAct.of e r).recorded? = none := by
  have hsource := PassAct.source e r
  generalize PassAct.of e r = act at hsource
  cases hsource with
  | record row => cases h
  | _ => rfl

/-- A log of idle effects shows no call. -/
theorem runnerCalls_of_idle (h : ∀ c ∈ es, Idle c.eff) : runnerCalls es = [] :=
  List.filterMap_eq_nil_iff.mpr fun c hc => h c hc c.response

/-- A row is recorded by the statement for it. -/
theorem eq_of_recorded {c : Call Eff Eff.Ret} {row : PendingRow}
    (h : (actOf c).recorded? = some row) :
    c = ⟨.sync (.execute (.insertPendingApproval row)), .ok ()⟩ := by
  obtain ⟨e, r⟩ := c
  have hsource := PassAct.source e r
  rw [actOf] at h
  generalize PassAct.of e r = act at h hsource
  cases hsource with
  | record row' =>
    cases h
    rfl
  | _ => cases h

/-- An act that neither deletes nor records a row leaves the table alone. -/
theorem onPending_of_none {act : PassAct} (hdeleted : act.deleted? = none)
    (hrecorded : act.recorded? = none) : act.onPending T = T := by
  cases act with
  | delete _ _ => nomatch hdeleted
  | record _ => nomatch hrecorded
  | _ => rfl

/-- Without deletions, the recorded rows are added to the table. -/
theorem rows_of_recording (hdeleted : deleted es = []) (hpermits : Permits (favourable T) l es) :
    (pendingAfter T (l ++ es)).rows = (pendingAfter T l).rows ++ recorded es := by
  -- By induction on the log, from its first entry on.
  induction es generalizing l with
  | nil =>
    rw [List.append_nil]
    exact (List.append_nil _).symm
  | cons c es ih =>
    have hall := List.filterMap_eq_nil_iff.mp hdeleted
    have hes : deleted es = [] :=
      List.filterMap_eq_nil_iff.mpr fun c' hc' => hall c' (List.mem_cons_of_mem c hc')
    rw [List.append_cons, ih hes hpermits.2, pendingAfter_append l [c]]
    change ((actOf c).onPending (pendingAfter T l)).rows ++ _ = _
    cases hrow : (actOf c).recorded? with
    | none =>
      rw [recorded_cons, hrow, onPending_of_none (hall c List.mem_cons_self) hrow]
      rfl
    | some row =>
      rw [recorded_cons, hrow]
      obtain rfl := eq_of_recorded hrow
      -- By assumption the recorded approval has no row yet, so `INSERT OR REPLACE` adds one.
      have hnew : (pendingAfter T l).hasKey row.approvalId = false := hpermits.1 rfl
      change ((pendingAfter T l).insertOrReplace row).rows ++ _ = _
      rw [Table.rows_insertOrReplace hnew, List.append_assoc]
      rfl

end

/-! ## Rules for calls and posts -/

section

variable {α : Type} {turns : List Turn}

/-- A program of idle effects adds no call to the log. -/
theorem logs_idle {p : Py α} (hp : PerformsE Idle p) :
    (logging anyResponse).Triple (fun l => runnerCalls l = turns) p.run
      fun _ l => runnerCalls l = turns := by
  refine Logging.performs hp fun l e r he hl _ => ?_
  rw [runnerCalls_append, hl, runnerCalls_of_idle (fun c hc => ?_), List.append_nil]
  rwa [List.mem_singleton.mp hc]

/-- A program of `Plain` effects is idle. -/
theorem idle_plain {p : Py α} (hp : PerformsE Plain p) : PerformsE Idle p :=
  hp.mono fun _ he => idle_of_busy (.of_plain he)

/-- What `_run_claude` does after its mark is idle. -/
theorem idle_runClaude {argv : List Str} {dir : Str} {agent : AgentName} {room : RoomId}
    {timeout : Nat} {turn : Turn} : PerformsE Idle (runClaude argv dir agent room timeout turn) :=
  (run_runClaude timeout).mono fun _ he => idle_of_busy (.of_run he)

/-- `record_pending_if_gated` is idle. -/
theorem idle_recordPendingIfGated {agent : AgentName} {room : RoomId} {session : SessionId}
    {root : EventId} {start : Time} :
    PerformsE Idle (recordPendingIfGated agent room session root start) :=
  (record_recordPendingIfGated start).mono fun _ he => idle_of_busy (.of_record he)

/-- The runner is called once. -/
theorem logs_callRunner {turn : Turn} {dir : Str} {timeout : Nat} :
    (logging anyResponse).Triple (fun l => runnerCalls l = turns) (callRunner turn dir timeout).run
      fun _ l => runnerCalls l = turns ++ [turn] := by
  refine Logging.bind (Q := fun _ l => runnerCalls l = turns ++ [turn])
    (Logging.lift fun l r hl _ => ?_) (fun _ => logs_idle idle_runClaude) fun _ _ => id
  rw [runnerCalls_append, hl]
  rfl

/-- The turn of an approval calls the runner once. -/
theorem logs_resumeTurn {config : MatrixDispatcher.Config} {row : PendingRow} {dir : Str}
    {agent : AgentName} {timeout : Nat} :
    (logging anyResponse).Triple (fun l => runnerCalls l = turns)
      (resumeTurn config row dir agent timeout).run
      fun _ l => runnerCalls l = turns ++ [approvedOf row agent] := by
  refine Logging.lift_bind (Q := fun _ l => runnerCalls l = turns) (fun l r hl _ => ?_)
    fun start => ?_
  · rw [runnerCalls_append, hl]
    exact List.append_nil _
  refine Logging.attempt logs_callRunner fun res => ?_
  -- no branch calls the runner again
  split
  · exact Logging.throw fun _ => id
  · exact logs_idle (idle_plain (plain_postAlias _ _ _ _))
  · exact logs_idle (idle_plain (plain_postAlias _ _ _ _))
  · refine logs_idle (performsE_bind (idle_plain (plain_touchSession _)) fun _ => ?_)
    refine performsE_bind (idle_plain (plain_postResponse _ _ _ _ _ _ _ _ _)) fun _ => ?_
    exact idle_recordPendingIfGated

end

/-- The log of a deletion. -/
def deletion (a : ApprovalId) (site : DeleteSite) : Log :=
  [⟨.sync (.execute (.deletePendingApproval a site)), .ok ()⟩, ⟨.sync .commit, .ok ()⟩]

/-! ## Uneventful parts -/

section

variable {T : Table ApprovalId PendingRow (·.approvalId)} {es : Log}

/-- A log that begins like this, and what follows. -/
theorem Uneventful.append {l l' : Log} (h : Uneventful l) (h' : Uneventful l') :
    Uneventful (l ++ l') where
  calls := by rw [runnerCalls_append, h.calls, h'.calls, List.append_nil]
  posts := by rw [posts_append, h.posts, h'.posts, List.append_nil]
  records := by rw [recorded_append, h.records, h'.records, List.append_nil]

/-- The statement and the commit of a deletion are uneventful. -/
theorem uneventful_deletion (a : ApprovalId) (site : DeleteSite) :
    Uneventful (deletion a site) := ⟨rfl, rfl, rfl⟩

/-- Passing over a row is uneventful. -/
theorem uneventful_passOver : Uneventful passOver := ⟨rfl, rfl, rfl⟩

/-- The effect neither posts, calls the runner nor changes the pending approvals. -/
def Looks (e : Eff) : Prop :=
  e.Postless ∧ ∀ r, (PassAct.of e r).turn? = none ∧ (PassAct.of e r).recorded? = none ∧
    (PassAct.of e r).deleted? = none

/-- A log that only looks is uneventful and deletes nothing. -/
theorem uneventful_of_looks (h : ∀ c ∈ es, Looks c.eff) : Uneventful es ∧ deleted es = [] :=
  ⟨⟨runnerCalls_of_idle fun c hc r => ((h c hc).2 r).1,
    posts_of_postless fun c hc => (h c hc).1,
    List.filterMap_eq_nil_iff.mpr fun c hc => ((h c hc).2 c.response).2.1⟩,
    List.filterMap_eq_nil_iff.mpr fun c hc => ((h c hc).2 c.response).2.2⟩

/-- A log that only looks leaves the table as it was. -/
theorem pendingAfter_of_looks (h : ∀ c ∈ es, Looks c.eff) (l : Log) :
    pendingAfter T (l ++ es) = pendingAfter T l := by
  rw [pendingAfter_append]
  induction es generalizing l with
  | nil => rfl
  | cons c es ih =>
    obtain ⟨-, hrecorded, hdeleted⟩ := (h c List.mem_cons_self).2 c.response
    change pendingAfter ((PassAct.of c.eff c.response).onPending (pendingAfter T l)) es = _
    rw [onPending_of_none hdeleted hrecorded]
    exact ih (fun c' hc' => h c' (List.mem_cons_of_mem c hc')) l

/-- The lookup of the states does nothing else. -/
theorem looks_getApprovalStates {ids : List ApprovalId} :
    PerformsE Looks (Registry.getApprovalStates ids) := by
  refine performsE_getApprovalStates ⟨trivial, fun _ => ⟨rfl, rfl, rfl⟩⟩ ⟨trivial, fun r => ?_⟩
    ⟨trivial, fun _ => ⟨rfl, rfl, rfl⟩⟩
  cases r <;> exact ⟨rfl, rfl, rfl⟩

/-- Neither does the wait for a lock. -/
theorem looks_acquireRoomLock {room : RoomId} : PerformsE Looks (acquireRoomLock room) := by
  refine performsE_bind (performsE_sync ⟨trivial, fun _ => ⟨rfl, rfl, rfl⟩⟩) fun got => ?_
  split
  · exact performsE_pure _
  · exact performsE_await ⟨trivial, fun _ => ⟨rfl, rfl, rfl⟩⟩

/-- Under the lock, the turn of an approval calls the runner once, unless the wait for the lock
raises. -/
theorem trace_lockedTurn {config : MatrixDispatcher.Config} {row : PendingRow} {dir : Str}
    {agent : AgentName} {timeout : Nat} {room : RoomId} {res : Except Exn Unit}
    (h : TraceE (withRoomLock room (resumeTurn config row dir agent timeout)) es res) :
    (Uneventful es ∧ res ≠ .ok ()) ∨ ∃ before turn after,
      es = before ++ turn ++ after ∧ Uneventful before ∧ Uneventful after ∧
      TraceE (resumeTurn config row dir agent timeout) turn res ∧
      runnerCalls turn = [approvedOf row agent] := by
  rcases traceE_bind.mp h with ⟨before, _, rest, rfl, hacquire, hrest⟩ | ⟨x, hacquire, rfl⟩
  · obtain ⟨turn, after, rfl, hturn, hrelease⟩ := traceE_finallyDo.mp hrest
    obtain rfl : after = [⟨.sync (.lockRelease room), ()⟩] := trace_perform.mp hrelease
    have hlogs : (logging anyResponse).Triple (fun l => runnerCalls l = [])
        (resumeTurn config row dir agent timeout).run
        fun _ l => runnerCalls l = [] ++ [approvedOf row agent] := logs_resumeTurn
    have hcalls := TraceE.of_triple hturn (Arena.Triple.pre (by rintro _ rfl; rfl) hlogs)
    exact .inr ⟨before, turn, _, (List.append_assoc ..).symm,
      (uneventful_of_looks (hacquire.of_performs looks_acquireRoomLock)).1, ⟨rfl, rfl, rfl⟩,
      hturn, hcalls⟩
  · exact .inl ⟨(uneventful_of_looks (hacquire.of_performs looks_acquireRoomLock)).1, nofun⟩

end

/-! ## One row -/

section

variable {config : MatrixDispatcher.Config} {states : List (ApprovalId × ApprovalState)}
  {T : Table ApprovalId PendingRow (·.approvalId)} {l es : Log} {row : PendingRow}

/-- A deletion succeeds. -/
theorem trace_deletePendingApproval {a : ApprovalId} {site : DeleteSite} {res : Except Exn Unit}
    (h : TraceE (Store.deletePendingApproval a site) es res)
    (hpermits : Permits (favourable T) l es) : es = deletion a site ∧ res = .ok () := by
  rcases traceE_bind.mp h with ⟨es₁, _, es₂, rfl, hexec, hcommit⟩ | ⟨x, hexec, rfl⟩
  · obtain rfl := traceE_execute.mp hexec
    obtain rfl := traceE_commit.mp hcommit
    obtain rfl : res = .ok () := hpermits.2.1 ⟨a, site, _, List.getLast?_concat⟩
    exact ⟨rfl, rfl⟩
  · obtain rfl := traceE_execute.mp hexec
    exact nomatch hpermits.1

/-- What a part of the log begins with, and what follows. -/
theorem trace_deletion_bind {a : ApprovalId} {site : DeleteSite} {p : Py Unit}
    {res : Except Exn Unit} (h : TraceE (do Store.deletePendingApproval a site; p) es res)
    (hpermits : Permits (favourable T) l es) :
    ∃ es', es = deletion a site ++ es' ∧ TraceE p es' res ∧
      Permits (favourable T) (l ++ deletion a site) es' := by
  rcases traceE_bind.mp h with ⟨es₁, _, es', rfl, hdelete, hrest⟩ | ⟨x, hdelete, rfl⟩
  · obtain ⟨hpermits₁, hpermits'⟩ := permits_append.mp hpermits
    obtain ⟨rfl, -⟩ := trace_deletePendingApproval hdelete hpermits₁
    exact ⟨es', rfl, hrest, hpermits'⟩
  · exact nomatch (trace_deletePendingApproval hdelete hpermits).2

/-- The table after a deletion. -/
theorem rows_of_deletion {a : ApprovalId} {site : DeleteSite} :
    (pendingAfter T (l ++ deletion a site)).rows = without (pendingAfter T l).rows a := by
  rw [pendingAfter_append]
  refine List.filter_congr fun row _ => ?_
  by_cases h : row.approvalId = a <;> simp [h]

/-- The table after the part of the log that follows a deletion. -/
theorem rows_of_handled {a : ApprovalId} {site : DeleteSite} (hdeleted : deleted es = [])
    (hpermits : Permits (favourable T) (l ++ deletion a site) es) :
    (pendingAfter T (l ++ (deletion a site ++ es))).rows =
      without (pendingAfter T l).rows a ++ recorded (deletion a site ++ es) := by
  rw [← List.append_assoc, rows_of_recording hdeleted hpermits, rows_of_deletion]
  rfl

/-- What the log of a row and the table after it must be. -/
structure RowWorked (config : MatrixDispatcher.Config) (states : List (ApprovalId × ApprovalState))
    (row : PendingRow) (res : Except Exn Unit) (before : List PendingRow) (es : Log)
    (after : List PendingRow) : Prop where
  handled : res = .ok () → RowHandled config states row es
  cut : res ≠ .ok () → RowCut config states row es
  rows : after = (if undecided states row then before else without before row.approvalId) ++
    recorded es

/-- An approved row is deleted, then resumed if its room is configured. -/
theorem row_approved (hwell : config.WellFormed) {res : Except Exn Unit}
    (hstate : stateIn states row.approvalId = some .approved)
    (h : TraceE (resumeOnApproval config row) es res) (hpermits : Permits (favourable T) l es) :
    RowWorked config states row res (pendingAfter T l).rows es (pendingAfter T (l ++ es)).rows := by
  have hdecided : undecided states row = false := by simp [undecided, hstate]
  rw [resumeOnApproval] at h
  cases hroom : config.roomToAgent row.roomId with
  -- A row of a room that is not configured is deleted, and that is all.
  | none =>
    have hdue : turnDue config states row = none := by
      simp [turnDue, hstate, Config.agentOf, hroom]
    simp only [hroom] at h
    obtain ⟨rfl, rfl⟩ := trace_deletePendingApproval h hpermits
    refine ⟨fun _ => ⟨by rw [hdue]; rfl, fun _ => ?_, fun _ => rfl, fun hne => absurd hdue hne,
      by rw [hdecided]; rfl⟩, fun hne => absurd rfl hne, ?_⟩
    · simp [denialDue, hstate, posts, deletion, postOf]
    · rw [hdecided, rows_of_deletion]
      exact (List.append_nil _).symm
  -- Otherwise its deletion is followed by the turn under the room lock.
  | some entry =>
    obtain ⟨agent, cfg⟩ := entry
    have hdue : turnDue config states row = some (approvedOf row agent) := by
      simp [turnDue, hstate, Config.agentOf, hroom]
    obtain ⟨dir, hdir⟩ : ∃ dir, cfg.projectDir = some dir := by
      have hmem := List.mem_of_find?_eq_some hroom
      exact Option.isSome_iff_exists.mp (hwell _ (List.mem_reverse.mp hmem))
    simp only [hroom, hdir] at h
    obtain ⟨es', rfl, hturn, hpermits'⟩ := trace_deletion_bind h hpermits
    have hdeleted : deleted es' = [] := List.filterMap_eq_nil_iff.mpr fun c hc =>
      deleted_of_turn (hturn.of_performs (turn_withRoomLock (turn_resumeTurn trivial)) c hc) _
    have hdeletes : deleted (deletion row.approvalId .claim ++ es') = [row.approvalId] := by
      rw [deleted_append, hdeleted]
      rfl
    have hrows : (pendingAfter T (l ++ (deletion row.approvalId .claim ++ es'))).rows =
        (if undecided states row then (pendingAfter T l).rows
          else without (pendingAfter T l).rows row.approvalId) ++
          recorded (deletion row.approvalId .claim ++ es') := by
      rw [hdecided]
      exact rows_of_handled hdeleted hpermits'
    have hdeletion := uneventful_deletion row.approvalId .claim
    rcases trace_lockedTurn hturn with ⟨hquiet, hraised⟩ | ⟨before, turn, after, rfl, hbefore,
      hafter, htrace, hcall⟩
    · -- the wait for the lock was interrupted
      have hall := hdeletion.append hquiet
      refine ⟨fun hres => absurd hres hraised, fun _ => ⟨hdecided, ?_, fun hnone => ?_,
        fun _ => hall.records, fun _ => .inr hall, hdeletes⟩, hrows⟩
      · rw [hall.calls]
        exact List.nil_prefix
      · cases hdue.symm.trans hnone
    -- The turn ran: the log has its only call, between the deletion and the end.
    · have hresumes : Resumes config row
          (deletion row.approvalId .claim ++ (before ++ turn ++ after)) := by
        refine ⟨agent, cfg, dir, _, turn, after, res, hroom, hdir, ?_, hdeletion.append hbefore,
          hafter, htrace⟩
        simp only [List.append_assoc]
      have hcalls : runnerCalls (deletion row.approvalId .claim ++ (before ++ turn ++ after)) =
          (turnDue config states row).toList := by
        simp only [hdue, runnerCalls_append, hdeletion.calls, hbefore.calls, hafter.calls, hcall]
        rfl
      refine ⟨fun _ => ⟨hcalls, fun hnone => ?_, fun hnone => ?_, fun _ => hresumes,
        by rw [hdecided]; exact hdeletes⟩, fun _ => ⟨hdecided, hcalls ▸ List.prefix_rfl,
          fun hnone => ?_, fun hnone => ?_, fun _ => .inl hresumes, hdeletes⟩, hrows⟩
      all_goals cases hdue.symm.trans hnone

/-- A denied row is deleted, then its denial is posted. -/
theorem row_denied {res : Except Exn Unit} {body : Str}
    (hstate : stateIn states row.approvalId = some .denied)
    (hbody : body = config.mentionUser.getD [] ++
      lit " Operator denied the pending request for `" ++ row.toolName.orElse (lit "the tool") ++
        lit "`; not retrying.")
    (h : TraceE (do
      Store.deletePendingApproval row.approvalId .denied
      let evt ← postMessage row.roomId body (some row.threadRootId)
      Store.registerAlias evt row.threadRootId) es res) (hpermits : Permits (favourable T) l es) :
    RowWorked config states row res (pendingAfter T l).rows es (pendingAfter T (l ++ es)).rows := by
  have hdecided : undecided states row = false := by simp [undecided, hstate]
  have hdue : turnDue config states row = none := by simp [turnDue, hstate]
  obtain ⟨es', rfl, hpost, hpermits'⟩ := trace_deletion_bind h hpermits
  -- After the deletion the row has nothing but the post and its alias.
  have hplain : ∀ c ∈ es', Plain c.eff := hpost.of_performs (plain_postAlias _ _ _ _)
  have hcalls : runnerCalls es' = [] :=
    runnerCalls_of_idle fun c hc => idle_of_busy (.of_plain (hplain c hc))
  have hdeleted : deleted es' = [] := List.filterMap_eq_nil_iff.mpr fun c hc =>
    deleted_of_turn (.of_plain (hplain c hc)) _
  have hrecorded : recorded es' = [] := List.filterMap_eq_nil_iff.mpr fun c hc =>
    recorded_of_plain (hplain c hc) _
  -- The post was made, or it raised and nothing was posted.
  have hposts := TraceE.of_triple hpost (Arena.Triple.pre (by rintro _ rfl; rfl)
    logs_postAlias)
  have hdenial : denialDue config states row =
      some ⟨row.roomId, body, (some row.threadRootId).filter (· ≠ [])⟩ := by
    rw [denialDue, if_pos hstate, hbody]
  have hdeletes : deleted (deletion row.approvalId .denied ++ es') = [row.approvalId] := by
    rw [deleted_append, hdeleted]
    rfl
  have hnocalls : runnerCalls (deletion row.approvalId .denied ++ es') = [] := by
    rw [runnerCalls_append, hcalls]
    rfl
  have hnorecords : recorded (deletion row.approvalId .denied ++ es') = [] := by
    rw [recorded_append, hrecorded]
    rfl
  refine ⟨fun hres => ⟨by rw [hnocalls, hdue]; rfl, fun _ => ?_, fun _ => hnorecords,
    fun hne => absurd hdue hne, by rw [hdecided]; exact hdeletes⟩, fun _ => ⟨hdecided, ?_,
    fun _ => ?_, fun _ => hnorecords, fun hne => absurd hdue hne, hdeletes⟩, ?_⟩
  · rw [hdenial, posts_append]
    exact hposts.resolve_right fun ⟨_, x, hx⟩ => nomatch hres.symm.trans hx
  · rw [hnocalls]
    exact List.nil_prefix
  · rw [hdenial, posts_append]
    rcases hposts with hone | ⟨hnone, -⟩
    · exact hone ▸ List.prefix_rfl
    · exact hnone.symm ▸ List.nil_prefix
  · rw [hdecided]
    exact rows_of_handled hdeleted hpermits'

/-- What a pass does with one row. -/
theorem row_worked (hwell : config.WellFormed) {res : Except Exn Unit}
    (h : TraceE (reconcileRow config states row) es res) (hpermits : Permits (favourable T) l es) :
    RowWorked config states row res (pendingAfter T l).rows es (pendingAfter T (l ++ es)).rows := by
  rw [reconcileRow] at h
  split at h
  · next hstate => exact row_approved hwell hstate h hpermits
  · next hstate => exact row_denied hstate rfl h hpermits
  · next happroved hdenied =>
    -- the row is left for a later pass
    obtain ⟨rfl, rfl⟩ := traceE_pure.mp h
    have hundecided : undecided states row = true := by
      simp only [undecided, decide_eq_true_eq]
      exact ⟨happroved, hdenied⟩
    have hdue : turnDue config states row = none := if_neg happroved
    have hdenial : denialDue config states row = none := if_neg hdenied
    refine ⟨fun _ => ⟨by rw [hdue]; rfl, fun _ => by rw [hdenial]; rfl, fun _ => rfl,
      fun hne => absurd hdue hne, by rw [hundecided]; rfl⟩, fun hne => absurd rfl hne, ?_⟩
    rw [hundecided, List.append_nil]
    exact (List.append_nil _).symm

end

/-! ## All rows -/

section

variable {config : MatrixDispatcher.Config} {states : List (ApprovalId × ApprovalState)}
  {T : Table ApprovalId PendingRow (·.approvalId)} {l es : Log}

/-- Without its approval, a row in the middle of rows with distinct approvals is gone, and the
others stay. -/
theorem without_middle {before after : List PendingRow} {row : PendingRow}
    (h : (approvalsOf (before ++ row :: after)).Nodup) :
    without (before ++ row :: after) row.approvalId = before ++ after := by
  rw [approvalsOf, List.map_append, List.map_cons, List.nodup_middle, List.nodup_cons,
    ← List.map_append] at h
  rw [without, List.filter_append, List.filter_cons_of_neg (by simp), ← List.filter_append]
  refine List.filter_eq_self.mpr fun r hr => decide_eq_true fun heq => h.1 ?_
  rw [← heq]
  exact List.mem_map_of_mem hr

/-- What the second loop of a pass does with these rows, and which of them it leaves. -/
structure RowsWorked (config : MatrixDispatcher.Config)
    (states : List (ApprovalId × ApprovalState)) (rows : List PendingRow) (res : Except Exn Unit)
    (es : Log) (kept : List PendingRow) : Prop where
  completes : res = .ok () → kept = rows.filter (undecided states) ∧
    ∃ parts, es = parts.flatten ∧ List.Forall₂ (RowHandled config states) rows parts
  raises : res ≠ .ok () → ∃ done row later parts part, rows = done ++ row :: later ∧
    es = parts.flatten ++ part ∧ List.Forall₂ (RowHandled config states) done parts ∧
    RowCut config states row part ∧ kept = done.filter (undecided states) ++ later

/-- The rows after a row that was handled. -/
theorem RowsWorked.cons {row : PendingRow} {rows kept : List PendingRow} {res : Except Exn Unit}
    {part : Log} (hrow : RowHandled config states row part)
    (h : RowsWorked config states rows res es kept) :
    RowsWorked config states (row :: rows) res (part ++ es)
      (if undecided states row then row :: kept else kept) := by
  refine ⟨fun hres => ?_, fun hres => ?_⟩
  · obtain ⟨rfl, parts, rfl, hparts⟩ := h.completes hres
    exact ⟨List.filter_cons.symm, part :: parts, rfl, .cons hrow hparts⟩
  · obtain ⟨done, cut, later, parts, last, rfl, rfl, hparts, hcut, rfl⟩ := h.raises hres
    refine ⟨row :: done, cut, later, part :: parts, last, rfl, by simp, .cons hrow hparts, hcut, ?_⟩
    rw [List.filter_cons]
    split <;> rfl

/-- The second loop of a pass, in a table that holds its rows one after the other. -/
theorem rows_worked (hwell : config.WellFormed) {rows before after : List PendingRow}
    {res : Except Exn Unit} (h : TraceE (Coro.forEach rows (reconcileRow config states)) es res)
    (hpermits : Permits (favourable T) l es)
    (hrows : (pendingAfter T l).rows = before ++ rows ++ after) :
    ∃ kept, RowsWorked config states rows res es kept ∧
      (pendingAfter T (l ++ es)).rows = before ++ kept ++ after ++ recorded es := by
  induction rows generalizing l es before after with
  | nil =>
    obtain ⟨rfl, rfl⟩ := traceE_pure.mp h
    refine ⟨[], ⟨fun _ => ⟨rfl, [], rfl, .nil⟩, fun hne => absurd rfl hne⟩, ?_⟩
    rw [List.append_nil, hrows]
    exact (List.append_nil _).symm
  | cons row rows ih =>
    have hnodup : (approvalsOf (before ++ row :: (rows ++ after))).Nodup := by
      have htable := (pendingAfter T l).nodup
      rwa [hrows, List.append_assoc] at htable
    have hwithout : without (pendingAfter T l).rows row.approvalId = before ++ rows ++ after := by
      rw [hrows, List.append_assoc, List.cons_append, without_middle hnodup, List.append_assoc]
    rcases traceE_bind.mp h with ⟨es₁, _, es₂, rfl, hrow, hrest⟩ | ⟨x, hrow, rfl⟩
    · obtain ⟨hpermits₁, hpermits₂⟩ := permits_append.mp hpermits
      have hworked := row_worked hwell hrow hpermits₁
      -- the rows that are recorded for this row come after all the others
      obtain ⟨kept, hkept, hafter⟩ : ∃ kept, RowsWorked config states rows res es₂ kept ∧
          (pendingAfter T (l ++ es₁ ++ es₂)).rows =
            before ++ (if undecided states row then row :: kept else kept) ++
              (after ++ recorded es₁) ++ recorded es₂ := by
        by_cases hundecided : undecided states row = true
        · have htable : (pendingAfter T (l ++ es₁)).rows =
              (before ++ [row]) ++ rows ++ (after ++ recorded es₁) := by
            rw [hworked.rows, if_pos hundecided, hrows]
            simp
          obtain ⟨kept, hkept, hafter⟩ := ih hrest hpermits₂ htable
          exact ⟨kept, hkept, by rw [hafter, if_pos hundecided]; simp⟩
        · have htable : (pendingAfter T (l ++ es₁)).rows =
              before ++ rows ++ (after ++ recorded es₁) := by
            rw [hworked.rows, if_neg hundecided, hwithout, List.append_assoc]
          obtain ⟨kept, hkept, hafter⟩ := ih hrest hpermits₂ htable
          exact ⟨kept, hkept, by rw [hafter, if_neg hundecided]⟩
      refine ⟨_, hkept.cons (hworked.handled rfl), ?_⟩
      rw [← List.append_assoc l, hafter, recorded_append]
      simp only [List.append_assoc]
    · have hworked := row_worked hwell hrow hpermits
      have hcut := hworked.cut nofun
      refine ⟨rows, ⟨nofun, fun _ =>
        ⟨[], row, rows, [], es, rfl, rfl, .nil, hcut, rfl⟩⟩, ?_⟩
      rw [hworked.rows, hcut.decided, if_neg Bool.false_ne_true, hwithout]

/-- The expiry loop of a pass, in a table that holds its rows after the others. -/
theorem rows_expired {now : Int} {rows before : List PendingRow}
    {res : Except Exn (List PendingRow)} (h : TraceE (expireStale now rows) es res)
    (hpermits : Permits (favourable T) l es) (hrows : (pendingAfter T l).rows = before ++ rows) :
    res = .ok (liveRows now rows) ∧ Uneventful es ∧
      deleted es = approvalsOf (expiredRows now rows) ∧
      (pendingAfter T (l ++ es)).rows = before ++ liveRows now rows := by
  -- By induction on the rows; `before` are those that the loop has left alone so far.
  induction rows generalizing l es res before with
  | nil =>
    obtain ⟨rfl, rfl⟩ := traceE_pure.mp h
    exact ⟨rfl, ⟨rfl, rfl, rfl⟩, rfl, by rwa [List.append_nil]⟩
  | cons row rows ih =>
    have hnodup : (approvalsOf (before ++ row :: rows)).Nodup := by
      have htable := (pendingAfter T l).nodup
      rwa [hrows] at htable
    rw [expireStale] at h
    split at h
    · next hstale =>
      have hlive : liveRows now (row :: rows) = liveRows now rows :=
        List.filter_cons_of_neg fun hkeep =>
          absurd (of_decide_eq_true hkeep) (Int.not_le.mpr hstale)
      have hexpired : expiredRows now (row :: rows) = row :: expiredRows now rows :=
        List.filter_cons_of_pos (decide_eq_true hstale)
      rcases traceE_bind.mp h with ⟨es₁, _, es₂, rfl, hdelete, hrest⟩ | ⟨x, hdelete, rfl⟩
      · obtain ⟨hpermits₁, hpermits₂⟩ := permits_append.mp hpermits
        obtain ⟨rfl, -⟩ := trace_deletePendingApproval hdelete hpermits₁
        -- The stale row is deleted from behind the rows that were left.
        have htable : (pendingAfter T (l ++ deletion row.approvalId .expired)).rows =
            before ++ rows := by
          rw [rows_of_deletion, hrows, without_middle hnodup]
        obtain ⟨hres, hquiet, hdeleted, hafter⟩ := ih hrest hpermits₂ htable
        rw [hlive, hexpired, ← List.append_assoc, deleted_append, hdeleted]
        exact ⟨hres, (uneventful_deletion _ _).append hquiet, rfl, hafter⟩
      · cases (trace_deletePendingApproval hdelete hpermits).2
    · next hstale =>
      have hlive : liveRows now (row :: rows) = row :: liveRows now rows :=
        List.filter_cons_of_pos (decide_eq_true (Int.not_lt.mp hstale))
      have hexpired : expiredRows now (row :: rows) = expiredRows now rows :=
        List.filter_cons_of_neg fun hold => hstale (of_decide_eq_true hold)
      -- A live row stays, behind the others that were left.
      have htable : (pendingAfter T l).rows = (before ++ [row]) ++ rows := by
        rw [hrows, List.append_assoc]
        rfl
      rcases traceE_bind.mp h with ⟨es₁, live, _, rfl, hrest, hpure⟩ | ⟨x, hrest, rfl⟩
      · obtain ⟨rfl, rfl⟩ := traceE_pure.mp hpure
        rw [List.append_nil] at hpermits ⊢
        obtain ⟨hres, hquiet, hdeleted, hafter⟩ := ih hrest hpermits htable
        cases hres
        rw [hlive, hexpired]
        exact ⟨rfl, hquiet, hdeleted, by rw [hafter, List.append_assoc]; rfl⟩
      · cases (ih hrest hpermits htable).1

end

/-! ## The whole pass -/

section

variable {config : MatrixDispatcher.Config} {T : Table ApprovalId PendingRow (·.approvalId)}
  {es : Log}

/-- The calls for rows that were handled. -/
theorem runnerCalls_of_handled {states : List (ApprovalId × ApprovalState)}
    {rows : List PendingRow} {parts : List Log}
    (h : List.Forall₂ (RowHandled config states) rows parts) :
    runnerCalls parts.flatten = rows.filterMap (turnDue config states) := by
  induction h with
  | nil => rfl
  | cons hrow _ ih =>
    rw [List.flatten_cons, runnerCalls_append, hrow.calls, ih, List.filterMap_cons]
    split <;> next hdue => rw [hdue]; rfl

/-- The second loop of the pass, after what came before it. -/
theorem Reconciled.of_worked {rows kept : List PendingRow} {now : Int}
    {states : List (ApprovalId × ApprovalState)} {opening acting : Log} {res : Except Exn Unit}
    (hopening : Opening rows now states opening)
    (h : RowsWorked config states (liveRows now rows) res acting kept) :
    Reconciled config rows (opening ++ acting ++ passOver) res (kept ++ recorded acting) := by
  have hrecords : recorded (opening ++ acting ++ passOver) = recorded acting := by
    rw [recorded_append, recorded_append, hopening.quiet.records]
    exact List.append_nil _
  refine ⟨fun hres => ?_, fun hres => .inr ?_⟩
  · obtain ⟨rfl, parts, rfl, hparts⟩ := h.completes hres
    refine ⟨now, states, opening, _, rfl, hopening, ⟨parts, rfl, hparts⟩, ?_, by rw [hrecords]⟩
    rw [runnerCalls_append, runnerCalls_append, hopening.quiet.calls,
      runnerCalls_of_handled hparts]
    exact List.append_nil _
  · obtain ⟨done, row, later, parts, part, hlive, rfl, hparts, hcut, rfl⟩ := h.raises hres
    exact ⟨now, states, opening, done, row, later, parts, part, rfl, hopening, hlive, hparts, hcut,
      by rw [hrecords]⟩

/-- The pass after its expiry loop. -/
theorem live_reconciled (hwell : config.WellFormed) {l : Log} {rows : List PendingRow} {now : Int}
    {res : Except Exn Unit} (hquiet : Uneventful l)
    (hdeleted : deleted l = approvalsOf (expiredRows now rows))
    (hclock : ∃ t : Time, ⟨.sync .time, t⟩ ∈ l ∧ now = t.seconds)
    (hrows : (pendingAfter T l).rows = liveRows now rows)
    (h : TraceE (if liveRows now rows = [] then pure () else do
      let states ← Registry.getApprovalStates (approvalsOf (liveRows now rows))
      Coro.forEach (liveRows now rows) (reconcileRow config states)) es res)
    (hpermits : Permits (favourable T) l es) :
    Reconciled config rows (l ++ es ++ passOver) res (pendingAfter T (l ++ es)).rows := by
  split at h
  · next hnone =>
    -- no row is left to be handled
    obtain ⟨rfl, rfl⟩ := traceE_pure.mp h
    have hworked : RowsWorked config [] (liveRows now rows) (.ok ()) [] [] :=
      ⟨fun _ => ⟨by rw [hnone]; rfl, [], rfl, by rw [hnone]; exact .nil⟩, fun hne => absurd rfl hne⟩
    have hdone := Reconciled.of_worked
      ⟨hquiet, hdeleted, fun _ => hclock, fun hne => absurd hnone hne⟩ hworked
    rw [List.append_nil] at hdone ⊢
    rwa [hrows, hnone]
  · rcases traceE_bind.mp h with ⟨es₁, states, es₂, rfl, hask, hrest⟩ | ⟨x, hask, rfl⟩
    · have hlooks := hask.of_performs looks_getApprovalStates
      obtain ⟨hquiet₁, hdeleted₁⟩ := uneventful_of_looks hlooks
      have htable : (pendingAfter T (l ++ es₁)).rows = [] ++ liveRows now rows ++ [] := by
        rw [pendingAfter_of_looks hlooks, hrows, List.append_nil, List.nil_append]
      obtain ⟨kept, hworked, hafter⟩ :=
        rows_worked hwell hrest (permits_append.mp hpermits).2 htable
      obtain ⟨t, htime, hnow⟩ := hclock
      have hopening : Opening rows now states (l ++ es₁) :=
        ⟨hquiet.append hquiet₁, by rw [deleted_append, hdeleted, hdeleted₁, List.append_nil],
          fun _ => ⟨t, List.mem_append_left _ htime, hnow⟩, fun _ => ⟨l, es₁, rfl, hask⟩⟩
      have hdone := Reconciled.of_worked hopening hworked
      rw [← List.append_assoc l, hafter, List.nil_append, List.append_nil]
      exact hdone
    · -- the wait for the states was interrupted
      have hlooks := hask.of_performs looks_getApprovalStates
      obtain ⟨hquiet₁, hdeleted₁⟩ := uneventful_of_looks hlooks
      obtain ⟨t, htime, hnow⟩ := hclock
      refine ⟨nofun, fun _ => .inl ⟨(hquiet.append hquiet₁).append uneventful_passOver,
        .inr ⟨now, ⟨t, ?_, hnow⟩, ?_, ?_⟩⟩⟩
      · exact List.mem_append_left _ (List.mem_append_left _ htime)
      · rw [deleted_append, deleted_append, hdeleted, hdeleted₁, List.append_nil]
        exact List.append_nil _
      · rw [pendingAfter_of_looks hlooks, hrows]

/-- The pass over a table that is not empty, after what it has done so far. -/
theorem rows_reconciled (hwell : config.WellFormed) {l : Log} {rows : List PendingRow}
    {res : Except Exn Unit} (h : TraceE (reconcileRows config rows) es res)
    (hquiet : Uneventful l) (hdeleted : deleted l = []) (hrows : (pendingAfter T l).rows = rows)
    (hpermits : Permits (favourable T) l es) :
    Reconciled config rows (l ++ es ++ passOver) res (pendingAfter T (l ++ es)).rows := by
  obtain ⟨t, es₁, rfl, h₁⟩ := traceE_now_bind.mp h
  obtain ⟨_, es₂, rfl, h₂⟩ := traceE_sync_bind.mp h₁
  obtain ⟨-, -, hpermits₂⟩ := hpermits
  rw [List.append_cons l, List.append_cons]
  generalize hl' : l ++ [(⟨.sync .time, t⟩ : Call Eff Eff.Ret)] ++ [⟨.sync (.mark (.sweep _)), _⟩] =
    l' at hpermits₂ ⊢
  -- So far the pass has only looked.
  have hquiet' : Uneventful l' := by
    rw [← hl']
    exact (hquiet.append ⟨rfl, rfl, rfl⟩).append ⟨rfl, rfl, rfl⟩
  have hdeleted' : deleted l' = [] := by
    rw [← hl', deleted_append, deleted_append, hdeleted]
    rfl
  have htime : (⟨.sync .time, t⟩ : Call Eff Eff.Ret) ∈ l' := by simp [← hl']
  have hrows' : (pendingAfter T l').rows = [] ++ rows := by
    rw [← hl', pendingAfter_append, pendingAfter_append]
    exact hrows
  rcases traceE_bind.mp h₂ with ⟨es₃, live, es₄, rfl, hexpire, h₃⟩ | ⟨x, hexpire, rfl⟩
  case inr => exact nomatch (rows_expired hexpire hpermits₂ hrows').1
  obtain ⟨hpermits₃, hpermits₄⟩ := permits_append.mp hpermits₂
  -- Then it deletes the stale rows, and goes on with the others.
  obtain ⟨hlive, hquiet₃, hdeleted₃, hafter⟩ := rows_expired hexpire hpermits₃ hrows'
  obtain rfl := Except.ok.inj hlive
  obtain ⟨_, es₅, rfl, h₄⟩ := traceE_sync_bind.mp h₃
  rw [← List.append_assoc l', List.append_cons]
  refine live_reconciled hwell ((hquiet'.append hquiet₃).append ⟨rfl, rfl, rfl⟩) ?_ ?_ ?_ h₄
    hpermits₄.2
  · rw [deleted_append, deleted_append, hdeleted', hdeleted₃]
    exact List.append_nil _
  · exact ⟨t, List.mem_append_left _ (List.mem_append_left _ htime), rfl⟩
  · rw [pendingAfter_append]
    exact hafter

/-- A pass that finds the registry enabled. -/
theorem reconciled_of_trace (hwell : config.WellFormed) {res : Except Exn Unit}
    (h : TraceE (reconcileOnce config) es res) (hreads : Permits (readsOf T) [] es)
    (hpermits : Permits (favourable T) [] es)
    (henabled : es.head? = some ⟨.sync .registryEnabled, true⟩) :
    Reconciled config T.rows es res (pendingAfter T es).rows := by
  -- Whatever happens, the pass ends with its mark.
  obtain ⟨es, es', rfl, hbody, hend⟩ := traceE_finallyDo.mp h
  obtain rfl : es' = passOver := trace_perform.mp hend
  have hsame : pendingAfter T (es ++ passOver) = pendingAfter T es :=
    pendingAfter_append es passOver
  rw [hsame]
  obtain ⟨enabled, es₁, rfl, h₁⟩ := traceE_sync_bind.mp hbody
  obtain rfl : enabled = true := by
    cases henabled
    rfl
  rw [if_pos rfl] at h₁
  rcases traceE_execute_bind h₁ with ⟨rows, es₂, rfl, h₂⟩ | ⟨x, rfl, rfl⟩
  -- The rows that were read are those of the table.
  · obtain rfl : rows = T.rows := hreads.2.1 rows rfl
    split at h₂
    · next hnone =>
      obtain ⟨rfl, rfl⟩ := traceE_pure.mp h₂
      -- An empty table: nothing is expired, and nothing is to do.
      have hlive : liveRows 0 T.rows = [] := by
        rw [hnone]
        rfl
      have hworked : RowsWorked config [] (liveRows 0 T.rows) (.ok ()) [] [] :=
        ⟨fun _ => ⟨by rw [hlive]; rfl, [], rfl, by rw [hlive]; exact .nil⟩,
          fun hne => absurd rfl hne⟩
      have hopening : Opening T.rows 0 [] [⟨.sync .registryEnabled, true⟩,
          ⟨.sync (.execute .getPendingApprovals), .ok T.rows⟩] :=
        ⟨⟨rfl, rfl, rfl⟩, by rw [hnone]; rfl, fun hne => absurd hnone hne,
          fun hne => absurd hlive hne⟩
      have hdone := Reconciled.of_worked hopening hworked
      have htable : (pendingAfter T [⟨.sync .registryEnabled, true⟩,
          ⟨.sync (.execute .getPendingApprovals), .ok T.rows⟩]).rows = [] := hnone
      rwa [htable]
    · exact rows_reconciled hwell (l := [⟨.sync .registryEnabled, true⟩,
        ⟨.sync (.execute .getPendingApprovals), .ok T.rows⟩]) h₂ ⟨rfl, rfl, rfl⟩ rfl rfl
        (permits_append.mp hpermits.2.2).1
  · -- the table could not be read
    exact ⟨nofun, fun _ => .inl ⟨⟨rfl, rfl, rfl⟩, .inl ⟨rfl, rfl⟩⟩⟩

end

/-! ## The dispatcher's passes -/

/-- The arena of task `t` while no other task writes the pending approvals. -/
def unshared (t : Tid) : Arena Eff Eff.Ret World where
  rely w w' := w'.db.pendingApprovals = w.db.pendingApprovals
  step w e r w' := ∃ a, exec t a e w = some (r, w')
  safe _ _ := True
  rely_refl _ := rfl
  rely_trans h h' := h'.trans h

variable {config : MatrixDispatcher.Config} {t : Tid} {w w' : World} {es : Log}
  {res : Except Exn Unit}

/-- An effect of the reconcile loop changes the pending approvals as its act says. -/
theorem pending_of_exec {a : Answer} {e : Eff} {r : e.Ret} (he : ReconcileEff e)
    (h : exec t a e w = some (r, w')) :
    w'.db.pendingApprovals = (PassAct.of e r).onPending w.db.pendingApprovals := by
  -- The loop does not close the database.
  have hclose : PassAct.of e r ≠ .close := by
    cases e with
    | sync e =>
      cases e with
      | closeDb => cases he
      | execute s => cases s <;> cases r <;> nofun
      | commit => cases r <;> nofun
      | mark m => cases m <;> nofun
      | _ => nofun
    | await e =>
      cases e with
      | fetchStates _ => cases r <;> nofun
      | _ => nofun
  rw [(exec_pass h).queue]
  cases hact : PassAct.of e r with
  | close => exact absurd hact hclose
  | _ => rfl

/-- The pending approvals in the world are those after the log. -/
theorem pending_of_executes (h : (unshared t).Executes (reconcileOnce config).run w es res w') :
    Permits (readsOf w.db.pendingApprovals) [] es ∧
      w'.db.pendingApprovals = pendingAfter w.db.pendingApprovals es := by
  refine h.permits (F := ReconcileEff) (l := [])
    (J := fun l v => v.db.pendingApprovals = pendingAfter w.db.pendingApprovals l)
    (fun hJ (hothers : _ = _) => hothers.trans hJ) ?_ reconcile_reconcileOnce rfl
  rintro l v e r v' he hJ ⟨a, hexec⟩
  refine ⟨?_, ?_⟩
  · unfold readsOf
    split
    · rintro rows rfl
      rw [← hJ]
      exact (exec_pass hexec).guard.2
    · trivial
  · rw [pending_of_exec he hexec, hJ, pendingAfter_append]
    rfl

/-- A pass that finds the registry enabled resumes the approved rows, posts the denials, and leaves
the undecided ones, while no other task writes the table. -/
theorem reconcile_pass (hwell : config.WellFormed)
    (h : (unshared t).Executes (reconcileOnce config).run w es res w')
    (hpermits : Permits (favourable w.db.pendingApprovals) [] es)
    (henabled : es.head? = some ⟨.sync .registryEnabled, true⟩) :
    Reconciled config w.db.pendingApprovals.rows es res w'.db.pendingApprovals.rows := by
  obtain ⟨hreads, htable⟩ := pending_of_executes h
  rw [htable]
  exact reconciled_of_trace hwell h.trace hreads hpermits henabled

/-! ### A pass over three rows -/

/-- The statement of a log entry succeeds, and records no row. -/
def recordless : Call Eff Eff.Ret → Bool
  | ⟨.sync (.execute (.deletePendingApproval _ _)), .error _⟩ | ⟨.sync .commit, .error _⟩
  | ⟨.sync (.execute (.insertPendingApproval _)), .ok _⟩ => false
  | _ => true

/-- A response that passes the check is `favourable`, since no row is recorded. -/
theorem favourable_of_recordless {T : Table ApprovalId PendingRow (·.approvalId)} {l : Log}
    {c : Call Eff Eff.Ret} (h : recordless c = true) : favourable T l c.eff c.response := by
  obtain ⟨e, r⟩ := c
  dsimp only
  unfold favourable
  split
  · next r =>
    cases r with
    | ok _ => rfl
    | error _ => cases h
  · next r =>
    intro _
    cases r with
    | ok _ => rfl
    | error _ => cases h
  · rintro rfl
    cases h
  · trivial

/-- A log whose entries pass the check is permitted. -/
theorem permits_of_recordless {T : Table ApprovalId PendingRow (·.approvalId)} {l es : Log}
    (h : es.all recordless = true) : Permits (favourable T) l es := by
  induction es generalizing l with
  | nil => trivial
  | cons c es ih =>
    obtain ⟨hc, hes⟩ := Bool.and_eq_true_iff.mp h
    exact ⟨favourable_of_recordless hc, ih hes⟩

/-- The world in which the first approval is approved, the second denied and the third pending. -/
def threePending : World where
  __ := World.initial
  pool := true
  db :=
    { Tables.empty with
      sessions := Table.empty.insertOrReplace
        ⟨lit "$1", lit "!room", lit "agent", lit "5e55", 0, 0⟩
      pendingApprovals := ((Table.empty.insertOrReplace
        ⟨lit "a1", lit "$1", lit "5e55", lit "!room", lit "Bash", 0⟩).insertOrReplace
        ⟨lit "a2", lit "$1", lit "5e55", lit "!room", lit "Edit", 0⟩).insertOrReplace
        ⟨lit "a3", lit "$1", lit "5e55", lit "!room", lit "Bash", 0⟩ }
  approvals := ((Table.empty.insertOrReplace
    ⟨lit "a1", lit "agent", some (lit "Bash"), 0, .approved, none, none⟩).insertOrReplace
    ⟨lit "a2", lit "agent", some (lit "Edit"), 0, .denied, none, none⟩).insertOrReplace
    ⟨lit "a3", lit "agent", some (lit "Bash"), 0, .pending, none, none⟩

/-- The usual answers, except that no child can be started. -/
def noBinary (w : World) : Eff → Answer
  | .await (.exec _ _ _ _) => .raised .osError
  | e => usualAnswer w e

/-- The pass completes as wanted. -/
def isPass : Log × Except Exn Unit × World → Bool
  | (⟨.sync .registryEnabled, true⟩ :: es, .ok (), w) =>
    es.all recordless && (runnerCalls es).length == 1 &&
      approvalsOf w.db.pendingApprovals.rows == [lit "a3"]
  | _ => false

/-- A pass over three pending rows that meets the hypotheses of `reconcile_pass`. -/
theorem reconcile_pass_three : ∃ es w',
    (unshared .reconcile).Executes (reconcileOnce oneAgent).run threePending es (.ok ()) w' ∧
      Reconciled oneAgent threePending.db.pendingApprovals.rows es (.ok ())
        w'.db.pendingApprovals.rows := by
  have hdrive : (Arena.drive (fun w e => exec .reconcile (noBinary w e) e w)
      (reconcileOnce oneAgent).run threePending).any isPass = true := by decide +kernel
  obtain ⟨⟨es, res, w'⟩, hdrive, hpass⟩ := (Option.any_eq_true ..).mp hdrive
  have h : (unshared .reconcile).Executes (reconcileOnce oneAgent).run threePending es res w' :=
    Arena.executes_of_drive (fun _ _ _ _ hexec => ⟨_, hexec⟩) hdrive
  unfold isPass at hpass
  split at hpass
  · next heq =>
    cases heq
    rw [Bool.and_eq_true_iff, Bool.and_eq_true_iff] at hpass
    exact ⟨_, _, h, reconcile_pass (by decide) h ⟨trivial, permits_of_recordless hpass.1.1⟩ rfl⟩
  · cases hpass

end MatrixDispatcher
