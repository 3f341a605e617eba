import MatrixDispatcher.Discipline.Gates
import MatrixDispatcher.Safety.Nudge
import MatrixDispatcher.Safety.Recording
import MatrixDispatcher.Safety.Resume

/-!
# Gated approvals and the turns that leave them

A turn that nothing goes wrong in asks the registry once, at its end, for the newest approval of
its agent that is pending, and records that one.

* `unfailing`, `newest` — nothing goes wrong, and the approval is the newest one when it is asked
  for.
* `MintedInTurn` — an approval was minted in a turn.
* `GateStage.Sees` — what the turn is going to find; `Held` — the row is there as long as the
  approval is pending.
* `gated_recorded` — the approval of such a turn has its row once the turn is over.
* `second_gate_recorded` — of two approvals only the newer one has a row.
-/

namespace MatrixDispatcher

open Coro

variable {config : MatrixDispatcher.Config} {w w' : World} {t : Tid} {turn : Turn} {a : Approval}

/-! ## Conditions on runs -/

/-- No operation of the task fails that a turn depends on, and the registry is there. -/
def unfailing (t : Tid) (w : World) : Step → Prop
  | .effect u e ans => u = t → ∀ r w', exec u ans e w = some (r, w') → GateAct.of e r ≠ .fail
  | _ => True

/-- When the task asks the registry, the approval is newer than the others that are pending. -/
def newest (t : Tid) (a : Approval) (w : World) : Step → Prop
  | .effect u (.await (.fetchPending agent _)) _ => u = t → ∀ b ∈ w.approvals.rows,
      b.agentId = agent → b.state = .pending → b.approvalId ≠ a.approvalId →
      b.createdAt < a.createdAt
  | _ => True

/-- The process and its database go on, and the row of the approval is not deleted while the
approval is pending. -/
def keeping (a : ApprovalId) (w : World) : Step → Prop
  | .effect _ (.sync (.execute (.deletePendingApproval b _))) _ =>
    b = a → w.stateOf a ≠ some .pending
  | .effect _ (.sync .closeDb) _ | .crash _ => False
  | _ => True

/-- The task does not ask the registry for a pending approval. -/
def unasked (t : Tid) (_ : World) : Step → Prop
  | .effect u (.await (.fetchPending _ _)) _ => u ≠ t
  | _ => True

/-- Clock and registry are as they should be, and so is the row. -/
def lasting (a : ApprovalId) (w : World) (e : Step) : Prop :=
  ticking w e ∧ operated w e ∧ keeping a w e

/-- Nothing goes wrong in the turn. -/
def enduring (t : Tid) (a : Approval) (w : World) (e : Step) : Prop :=
  lasting a.approvalId w e ∧ unfailing t w e

/-- Nothing goes wrong in the turn, and the approval is the newest one. -/
def detecting (t : Tid) (a : Approval) (w : World) (e : Step) : Prop :=
  enduring t a w e ∧ newest t a w e

/-- The configuration just after `a` was minted for the agent of a turn of task `t`, after the
runner was called and before the task asks the registry. -/
def MintedInTurn (config : MatrixDispatcher.Config) (allow : World → Step → Prop) (t : Tid)
    (turn : Turn) (a : Approval) (c₂ : Machine.Config Tid Eff Eff.Ret World) : Prop :=
  ∃ c c₀ c₁, Reaches config ticking c ∧ c.About t (.sync (.mark (.runnerCall turn))) ∧
    (∃ ans, (dispatcher config).step c (.task t ans) = some c₀) ∧
    (dispatcher config).Reachable (fun w e => allow w e ∧ unasked t w e) c₀ c₁ ∧
    a.agentId = turn.agentName ∧ allow c₁.world (.env (.move (.mint a))) ∧
    (dispatcher config).step c₁ (.env (.move (.mint a))) = some c₂

/-! ## Steps -/

/-- The clock goes on. -/
theorem exec_clock_le {ans : Answer} {e : Eff} {r : e.Ret} (hallow : ticking w (.effect t e ans))
    (h : exec t ans e w = some (r, w')) : w.clock ≤ w'.clock := by
  have hclock := (exec_turn h).clock
  generalize hact : TurnAct.of e r = act at hclock
  cases act with
  | clock now =>
    rw [hclock]
    exact (tick_of_clock hallow h hact).le
  | _ => exact hclock.ge

/-- With a ticking clock, moves do not set it back. -/
theorem moved_clock_le {m : Move} (hallow : ticking w (.env (.move m))) (h : w.moved m = some w') :
    w.clock ≤ w'.clock := by
  rcases moved_minted h with ⟨b, rfl, -, hclock⟩ | ⟨-, hclock⟩
  · rw [hclock]
    exact le_of_lt hallow
  · exact hclock.ge

/-- An approval that was minted has a row. -/
theorem hasKey_of_minted (h : a.mint ∈ w.minted) : w.approvals.hasKey a.approvalId = true := by
  obtain ⟨b, hb, heq⟩ := List.mem_map.mp h
  have hid : b.mint.approvalId = a.mint.approvalId := congrArg Approval.approvalId heq
  exact Table.hasKey_iff.mpr ⟨b, hb, hid⟩

/-- A move that mints an approval puts it among those of the registry. -/
theorem minted_of_mint (h : w.moved (.mint a) = some w') : a.mint ∈ w'.minted := by
  rw [World.moved] at h
  split at h <;> cases h
  simp [World.minted, Table.insertNew]

/-- What was minted stays so. -/
theorem minted_moved {m : Move} (hmoved : w.moved m = some w') (h : a.mint ∈ w.minted) :
    a.mint ∈ w'.minted := by
  rcases moved_minted hmoved with ⟨b, -, heq, -⟩ | ⟨heq, -⟩
  · rw [heq]
    exact List.mem_append_left _ h
  · rwa [heq]

/-- A lawful move makes no approval pending that was there before. -/
theorem moved_pending {m : Move} {id : ApprovalId} (hmoved : w.moved m = some w')
    (hlawful : w.lawful m) (hkey : w.approvals.hasKey id = true)
    (h : w'.stateOf id = some .pending) : w.stateOf id = some .pending := by
  cases m with
  | mint b =>
    rw [World.moved] at hmoved
    split at hmoved <;> cases hmoved
    next hnew =>
    have hne : b.approvalId ≠ id := by
      rintro rfl
      rw [hkey] at hnew
      cases hnew
    change (Table.find? _ id).map _ = _ at h
    rwa [Table.find?_insertNew, if_neg hne] at h
  | setState b state =>
    rw [World.moved] at hmoved
    split at hmoved <;> cases hmoved
    change (Table.find? _ id).map _ = _ at h
    rw [Table.find?_update] at h
    obtain ⟨row, hrow⟩ := Option.isSome_iff_exists.mp hkey
    rw [World.stateOf, hrow]
    rw [hrow] at h
    -- the new state of a row that is changed is not `pending`
    have hstate : state ≠ .pending := by
      rintro rfl
      exact hlawful
    simp only [Option.map_some, Option.some.injEq] at h ⊢
    split at h
    · exact absurd h hstate
    · exact h
  | exit pid rc out err =>
    rw [World.moved.eq_def] at hmoved
    dsimp only at hmoved
    split at hmoved <;> cases hmoved
    exact h
  | interrupt =>
    rw [World.moved] at hmoved
    split at hmoved <;> cases hmoved
    exact h

/-- The row of a pending approval stays in the table. -/
theorem mem_queue_exec {u : Tid} {id : ApprovalId} {ans : Answer} {e : Eff} {r : e.Ret}
    (hallow : keeping id w (.effect u e ans)) (h : exec u ans e w = some (r, w'))
    (hpending : w.stateOf id = some .pending) (hmem : id ∈ w.queue) : id ∈ w'.queue := by
  have hchange := exec_pass h
  generalize hact : PassAct.of e r = act at hchange
  cases act with
  | delete b site =>
    obtain rfl := eq_of_delete hact
    exact (PassAct.mem_queue_delete hchange).mpr ⟨hmem, fun heq => hallow heq.symm hpending⟩
  | record row => exact (PassAct.mem_queue_record hchange).mpr (.inl hmem)
  | close =>
    obtain rfl := eq_of_close hact
    exact hallow.elim
  | _ =>
    have hqueue : w'.queue = w.queue :=
      congrArg (fun table => approvalsOf (Table.rows table)) hchange.queue
    rwa [hqueue]

/-! ## The row -/

/-- The row names the session, the thread and the room of the turn. -/
def PendingRow.Names (row : PendingRow) (turn : Turn) : Prop :=
  row.sessionId = turn.sessionId ∧ row.threadRootId = turn.threadRootId ∧ row.roomId = turn.roomId

/-- While the approval is pending, it has a row, and a row of it that names the turn was
recorded. -/
structure Held (turn : Turn) (a : Approval) (w : World) : Prop where
  minted : a.mint ∈ w.minted
  row : w.stateOf a.approvalId = some .pending → a.approvalId ∈ w.queue ∧
    ∃ row ∈ recordedRows w.trace, row.approvalId = a.approvalId ∧ row.Names turn

namespace Held

/-- Effects of tasks leave the row. -/
theorem exec {u : Tid} {ans : Answer} {e : Eff} {r : e.Ret} (h : Held turn a w)
    (hallow : keeping a.approvalId w (.effect u e ans))
    (hexec : MatrixDispatcher.exec u ans e w = some (r, w')) : Held turn a w' := by
  refine ⟨by rw [exec_minted hexec]; exact h.minted, fun hpending => ?_⟩
  rw [exec_stateOf hexec] at hpending
  obtain ⟨hqueue, row, hrow, hnames⟩ := h.row hpending
  refine ⟨mem_queue_exec hallow hexec hpending hqueue, row, ?_, hnames⟩
  rw [exec_recorded hexec]
  exact List.mem_append_right _ hrow

/-- The surroundings leave the row. -/
theorem moved {m : Move} (h : Held turn a w) (hlawful : w.lawful m)
    (hmoved : w.moved m = some w') : Held turn a w' := by
  obtain ⟨htrace, hsame⟩ := moved_same hmoved
  refine ⟨minted_moved hmoved h.minted, fun hpending => ?_⟩
  have hdb : w'.db = w.db := hsame .db (by decide) (by decide) (by decide) (by decide)
  rw [World.queue, hdb, htrace]
  exact h.row (moved_pending hmoved hlawful (hasKey_of_minted h.minted) hpending)

/-- The row lasts. -/
theorem lasts {c₀ c : Machine.Config Tid Eff Eff.Ret World}
    (hreach : (dispatcher config).Reachable (lasting a.approvalId) c₀ c)
    (h : Held turn a c₀.world) : Held turn a c.world := by
  refine hreach.keeps h (fun _ _ hallow hexec h => h.exec hallow.2.2 hexec) ?_ ?_ ?_
  · intro w w' ans hallow henv h
    obtain ⟨m, rfl, hmoved⟩ := env_eq henv
    exact h.moved hallow.2.1 hmoved
  · intro w w' t fiber ans _ hstart h
    obtain ⟨n, request, -, -, -, rfl⟩ := start_eq hstart
    exact ⟨h.minted, h.row⟩
  · exact fun hallow _ _ => hallow.2.2.elim

end Held

/-! ## The turn -/

/-- An approval that is pending is the one that is found, if it is newer than the others. -/
theorem latestPending_newest {since : Time} (hminted : a.mint ∈ w.minted)
    (hpending : w.stateOf a.approvalId = some .pending) (hsince : since ≤ a.createdAt)
    (hnewest : ∀ b ∈ w.approvals.rows, b.agentId = a.agentId → b.state = .pending →
      b.approvalId ≠ a.approvalId → b.createdAt < a.createdAt) :
    (latestPending w.approvals.rows a.agentId since).map (·.approvalId) = some a.approvalId := by
  obtain ⟨row, hfind, hstate⟩ := Option.map_eq_some_iff.mp hpending
  obtain ⟨hrow, hid⟩ := Table.find?_eq_some.mp hfind
  -- the row is that of the approval, with what has changed in it since
  have hmint : row.mint = a.mint := World.minted_unique (List.mem_map_of_mem hrow) hminted hid
  have hagent : row.mint.agentId = a.mint.agentId := congrArg Approval.agentId hmint
  have hcreated : row.mint.createdAt = a.mint.createdAt := congrArg Approval.createdAt hmint
  have hmem : row ∈ w.approvals.rows.filter fun b =>
      b.agentId == a.agentId && b.state == .pending && decide (since ≤ b.createdAt) := by
    refine List.mem_filter.mpr ⟨hrow, ?_⟩
    rw [Bool.and_eq_true, Bool.and_eq_true]
    exact ⟨⟨beq_iff_eq.mpr hagent, beq_iff_eq.mpr hstate⟩,
      decide_eq_true (hsince.trans_eq hcreated.symm)⟩
  rcases hlatest : latestPending w.approvals.rows a.agentId since with _ | b
  · exact absurd hlatest (latestBy_ne_none hmem)
  · obtain ⟨hb, hbagent, hbstate, -⟩ := latestPending_spec hlatest
    have hle : row.createdAt ≤ b.createdAt := le_of_latestBy hlatest hmem
    by_contra hne
    have hlt := hnewest b hb hbagent hbstate fun heq => hne (congrArg some heq)
    exact absurd (hle.trans_lt hlt) (not_lt.mpr (le_of_eq hcreated.symm))

/-- The turn is going to find the approval, or has found it. -/
def GateStage.Sees (turn : Turn) (a : Approval) (w : World) : GateStage → Prop
  | called start turn' | due start turn' => turn' = turn ∧ start ≤ a.createdAt
  | found _ turn' b => turn' = turn ∧ (w.stateOf a.approvalId = some .pending → b = a.approvalId)
  | _ => False

/-- The approval was minted, and the turn sees to it or its row is there. -/
structure Settles (turn : Turn) (a : Approval) (g : GateStage) (w : World) : Prop where
  minted : a.mint ∈ w.minted
  either : Held turn a w ∨ g.Sees turn a w

/-- What the registry answers to the query of a turn. -/
theorem query_guard {agent : AgentName} {since : Time} {result : Option ApprovalId} {ans : Answer}
    {r : (Eff.await (.fetchPending agent since)).Ret}
    (hexec : exec t ans (.await (.fetchPending agent since)) w = some (r, w'))
    (hact : GateAct.of (.await (.fetchPending agent since)) r = .query agent since result) :
    result = (latestPending w.approvals.rows agent since).map (·.approvalId) := by
  have hguard := (exec_turn hexec).guard
  rcases r with x | found
  · cases hact
  · cases hact
    exact hguard

namespace Settles

variable {g : GateStage}

/-- A turn that owes nothing has the row. -/
theorem of_off (h : Settles turn a .off w) : Held turn a w :=
  h.either.elim id fun h => h.elim

/-- What was found is found as long as the approval is pending. -/
theorem sees_mono (h : g.Sees turn a w)
    (hstate : w'.stateOf a.approvalId = some .pending → w.stateOf a.approvalId = some .pending) :
    g.Sees turn a w' := by
  cases g with
  | found start turn' b => exact ⟨h.1, fun hpending => h.2 (hstate hpending)⟩
  | _ => exact h

/-- Another task moves. -/
theorem other {u : Tid} {ans : Answer} {e : Eff} {r : e.Ret} (h : Settles turn a g w)
    (hallow : keeping a.approvalId w (.effect u e ans))
    (hexec : exec u ans e w = some (r, w')) : Settles turn a g w' := by
  refine ⟨by rw [exec_minted hexec]; exact h.minted, h.either.imp (·.exec hallow hexec) fun h => ?_⟩
  exact sees_mono h fun hpending => by rwa [exec_stateOf hexec] at hpending

/-- The task itself moves, and nothing goes wrong. -/
theorem own {ans : Answer} {e : Eff} {r : e.Ret} {g' : GateStage} {maxLen : Nat}
    (hagent : a.agentId = turn.agentName) (h : Settles turn a g w)
    (hallow : detecting t a w (.effect t e ans)) (hexec : exec t ans e w = some (r, w'))
    (hstep : GateStep maxLen g (GateAct.of e r) g') : Settles turn a g' w' := by
  obtain ⟨⟨⟨-, -, hkeep⟩, hunfailing⟩, hnewest⟩ := hallow
  refine ⟨by rw [exec_minted hexec]; exact h.minted, ?_⟩
  rcases h.either with hkept | hsees
  · exact .inl (hkept.exec hkeep hexec)
  have horigin := GateAct.origin_of e r
  have hok := hunfailing rfl r w' hexec
  have hpending : w'.stateOf a.approvalId = some .pending →
      w.stateOf a.approvalId = some .pending := fun h => by rwa [exec_stateOf hexec] at h
  generalize hact : GateAct.of e r = act at hstep horigin hok
  cases hstep with
  | other => exact .inr (sees_mono hsees hpending)
  | fail => exact absurd rfl hok
  | idle | clock | call => exact hsees.elim
  | left start turn' => exact .inr hsees
  | none start turn' =>
    obtain rfl : e = .await (.fetchPending turn'.agentName start) := horigin
    obtain ⟨rfl, hstart⟩ := hsees
    have hguard := query_guard hexec hact
    refine .inl ⟨by rw [exec_minted hexec]; exact h.minted, fun hp => ?_⟩
    -- the registry has nothing pending, so the approval is not
    rw [← hagent, latestPending_newest h.minted (hpending hp) hstart fun b hb hbagent =>
      hnewest rfl b hb (hbagent.trans hagent)] at hguard
    cases hguard
  | some start turn' b =>
    obtain rfl : e = .await (.fetchPending turn'.agentName start) := horigin
    obtain ⟨rfl, hstart⟩ := hsees
    have hguard := query_guard hexec hact
    refine .inr ⟨rfl, fun hp => ?_⟩
    rw [← hagent, latestPending_newest h.minted (hpending hp) hstart fun b hb hbagent =>
      hnewest rfl b hb (hbagent.trans hagent)] at hguard
    exact Option.some.inj hguard
  | record start turn' row hsession hthread hroom =>
    obtain rfl : e = .sync (.execute (.insertPendingApproval row)) := horigin
    obtain ⟨rfl, hfound⟩ := hsees
    refine .inl ⟨by rw [exec_minted hexec]; exact h.minted, fun hp => ?_⟩
    have hid := hfound (hpending hp)
    rcases r with x | _
    · cases hact
    have hqueue : a.approvalId ∈ w'.queue :=
      (PassAct.mem_queue_record (exec_pass hexec)).mpr (.inr hid.symm)
    have hrecorded : recordedRows w'.trace = row :: recordedRows w.trace := exec_recorded hexec
    refine ⟨hqueue, row, ?_, hid, hsession, hthread, hroom⟩
    rw [hrecorded]
    exact List.mem_cons_self

end Settles

/-- Where the turn of a task stands before it has asked the registry. -/
def GateStage.InTurn (turn : Turn) (w : World) (g : GateStage) : Prop :=
  ∃ start, start ≤ w.clock ∧ (g = .called start turn ∨ g = .due start turn)

section

variable {hmax : 0 < config.maxMessageLength.getD 4000} {c : Machine.Config Tid Eff Eff.Ret World}

/-- Every task starts with nothing owed. -/
theorem gate_enter {fiber : Fiber Eff Eff.Ret} {ans : Answer}
    (h : (dispatcher config).start ans w = some (t, fiber, w')) :
    (gateCoverage config hmax).supervision.enter ans w = .off := by
  obtain ⟨n, request, rfl, hitem, rfl, rfl⟩ := start_eq h
  exact (gateCoverage config hmax).entered_eq hitem

/-- A turn goes by a reading of the clock that is past. -/
def startWatch (config : MatrixDispatcher.Config) (hmax : 0 < config.maxMessageLength.getD 4000)
    (t : Tid) : Invariant.Watch (gateCoverage config hmax).supervision ticking t where
  inv g w := ∀ start, g.start? = some start → start ≤ w.clock
  own := by
    intro w w' e ans r g g' hinv hallow hexec hnext start hstart
    have hclock := exec_clock_le hallow hexec
    have hstep := GateStage.step_cases hnext
    have horigin := GateAct.origin_of e r
    generalize hact : GateAct.of e r = act at hstep horigin
    cases hstep with
    | clock now =>
      obtain rfl : e = .sync .utcnow := horigin
      cases hact
      cases hstart
      cases ans <;> cases hexec
      exact le_rfl
    | fail | idle | none | record => cases hstart
    | _ => exact (hinv start hstart).trans hclock
  other _ hinv hallow hexec start hstart := (hinv start hstart).trans (exec_clock_le hallow hexec)
  finish _ _ start hstart := by cases hstart
  env := by
    intro g w w' ans hinv hallow henv start hstart
    obtain ⟨m, rfl, hmoved⟩ := env_eq henv
    exact (hinv start hstart).trans (moved_clock_le hallow hmoved)
  enter := by
    intro w w' fiber ans _ _ hstart start hwindow
    rw [gate_enter hstart] at hwindow
    cases hwindow
  start := by
    intro g w w' u fiber ans _ hinv _ hstart
    obtain ⟨n, request, -, -, -, rfl⟩ := start_eq hstart
    exact hinv
  crash _ _ _ start hstart := by cases hstart

/-- Until the task asks the registry, its turn goes on. -/
def turnWatch (config : MatrixDispatcher.Config) (hmax : 0 < config.maxMessageLength.getD 4000)
    (t : Tid) (turn : Turn) (a : Approval) : Invariant.Watch (gateCoverage config hmax).supervision
      (fun w e => enduring t a w e ∧ unasked t w e) t where
  inv g w := g.InTurn turn w
  own := by
    rintro w w' e ans r g g' ⟨start, hle, hg⟩ ⟨⟨⟨htick, -⟩, hunfailing⟩, hunasked⟩ hexec hnext
    have hle' := hle.trans (exec_clock_le htick hexec)
    have hok := hunfailing rfl r w' hexec
    have hstep := GateStage.step_cases hnext
    have horigin := GateAct.origin_of e r
    generalize GateAct.of e r = act at hstep horigin hok
    cases hstep with
    | other => exact ⟨start, hle', hg⟩
    | fail => exact absurd rfl hok
    | left start' turn' =>
      rcases hg with hg | hg <;> cases hg
      exact ⟨start, hle', .inr rfl⟩
    | none | some =>
      obtain rfl : e = .await (.fetchPending _ _) := horigin
      exact absurd rfl hunasked
    | _ => rcases hg with hg | hg <;> cases hg
  other := by
    rintro w w' u e ans r g - ⟨start, hle, hg⟩ hallow hexec
    exact ⟨start, hle.trans (exec_clock_le hallow.1.1.1 hexec), hg⟩
  finish := by
    rintro g w ⟨start, -, hg | hg⟩ hfinal <;> cases hg.symm.trans hfinal
  env := by
    rintro g w w' ans ⟨start, hle, hg⟩ hallow henv
    obtain ⟨m, rfl, hmoved⟩ := env_eq henv
    exact ⟨start, hle.trans (moved_clock_le hallow.1.1.1 hmoved), hg⟩
  enter := by
    rintro w w' fiber ans ⟨start, -, hg | hg⟩ <;> cases hg
  start := by
    intro g w w' u fiber ans _ hinv _ hstart
    obtain ⟨n, request, -, -, -, rfl⟩ := start_eq hstart
    exact hinv
  crash _ hallow _ := hallow.1.1.2.2.elim

/-- Once the approval is minted, the turn sees to it. -/
def settleWatch (config : MatrixDispatcher.Config) (hmax : 0 < config.maxMessageLength.getD 4000)
    (hagent : a.agentId = turn.agentName) :
    Invariant.Watch (gateCoverage config hmax).supervision (detecting t a) t where
  inv g w := Settles turn a g w
  own hinv hallow hexec hnext := hinv.own hagent hallow hexec (GateStage.step_cases hnext)
  other _ hinv hallow hexec := hinv.other hallow.1.1.2.2 hexec
  finish := by
    rintro g w hinv rfl
    exact hinv
  env := by
    intro g w w' ans hinv hallow henv
    obtain ⟨m, rfl, hmoved⟩ := env_eq henv
    have hlawful : w.lawful m := hallow.1.1.2.1
    refine ⟨minted_moved hmoved hinv.minted,
      hinv.either.imp (·.moved hlawful hmoved) fun h => Settles.sees_mono h ?_⟩
    exact moved_pending hmoved hlawful (hasKey_of_minted hinv.minted)
  enter := by
    intro w w' fiber ans hinv _ hstart
    rw [gate_enter hstart]
    obtain ⟨n, request, -, -, -, rfl⟩ := start_eq hstart
    exact ⟨hinv.minted, .inl ⟨hinv.minted, hinv.of_off.row⟩⟩
  start := by
    intro g w w' u fiber ans _ hinv _ hstart
    obtain ⟨n, request, -, -, -, rfl⟩ := start_eq hstart
    exact ⟨hinv.minted, hinv.either.imp (fun h => ⟨h.minted, h.row⟩) fun h =>
      Settles.sees_mono h id⟩
  crash _ hallow _ := hallow.1.1.2.2.elim

/-- The turn sees to the approval that was minted in it. -/
theorem MintedInTurn.settles (hmax : 0 < config.maxMessageLength.getD 4000)
    (h : MintedInTurn config (detecting t a) t turn a c) :
    ∃ G, Tracked (dispatcher config) (gateMonitor (config.maxMessageLength.getD 4000)) c G ∧
      (gateCoverage config hmax).supervision.good c.world ∧ Settles turn a (G t) c.world := by
  obtain ⟨c₀, c₁, c₂, hreach, habout, ⟨ans, hcall⟩, hrun, hagent, hallow, hmint⟩ := h
  -- up to the call
  obtain ⟨G₀, htr₀, hgood₀, hstart⟩ := (startWatch config hmax t).invariant.tracked hreach
    (gateCoverage config hmax).good_initial (fun _ h => by cases h) (.ofWorld _)
  obtain ⟨r, w₁, g, hexec, hnext, rfl, htr₁⟩ := htr₀.performs habout hcall
  have hgood₁ := (gateCoverage config hmax).supervision.exec hgood₀ hnext hexec
  have hstep : GateStep _ (G₀ t) (.call turn) g := GateStage.step_cases hnext
  have hcalled : g.InTurn turn c₁.world := by
    generalize hg : G₀ t = g₀ at hstep
    cases hstep with
    | idle _ _ hcall => exact absurd rfl (hcall turn)
    | call start =>
      have hexec : exec t ans (.sync (.mark (.runnerCall turn))) c₀.world = some (r, c₁.world) :=
        hexec
      have hclock : c₁.world.clock = c₀.world.clock :=
        frame hexec (c := .clock) (by simp [Eff.writes])
      exact ⟨start, hclock.symm ▸ hstart start (by rw [hg]; rfl), .inl rfl⟩
  -- up to the mint
  have hrun : (dispatcher config).Reachable (fun w e => enduring t a w e ∧ unasked t w e) c₁ c₂ :=
    hrun.mono fun _ _ h => ⟨h.1.1, h.2⟩
  obtain ⟨G₂, htr₂, hgood₂, start, hle, hg⟩ :=
    (turnWatch config hmax t turn a).invariant.tracked hrun
    hgood₁ (show GateStage.InTurn turn _ (Function.update G₀ t g t) by
      rw [Function.update_self]
      exact hcalled) htr₁
  -- the mint
  obtain ⟨w, hmoved, rfl⟩ := Option.map_eq_some_iff.mp hmint
  refine ⟨G₂, ⟨htr₂.conforms, htr₂.idle, htr₂.running⟩,
    (gateCoverage config hmax).supervision.env hgood₂ hmoved, minted_of_mint hmoved, .inr ?_⟩
  · have hcreated : start ≤ a.createdAt := hle.trans (le_of_lt hallow.1.1.1)
    rcases hg with hg | hg <;> rw [hg] <;> exact ⟨rfl, hcreated⟩

/-- Every row of a pending approval, on the connection or in the file, was recorded. -/
def World.AllRecorded (w : World) : Prop :=
  (∀ row ∈ w.db.pendingApprovals, row ∈ recordedRows w.trace) ∧
    ∀ row ∈ w.disk.pendingApprovals, row ∈ recordedRows w.trace

/-- A row is recorded when it is inserted, so every effect keeps this. -/
theorem World.AllRecorded.exec {u : Tid} {ans : Answer} {e : Eff} {r : e.Ret}
    (h : w.AllRecorded) (hexec : MatrixDispatcher.exec u ans e w = some (r, w')) :
    w'.AllRecorded := by
  have hchange := exec_pass hexec
  have hrecorded := exec_passRecorded hexec
  -- Records stay in the trace.
  have hold : ∀ {row}, row ∈ recordedRows w.trace → row ∈ recordedRows w'.trace := fun hrow => by
    rw [hrecorded]
    exact List.mem_append_right _ hrow
  obtain ⟨hdb, hdisk⟩ := h
  rw [World.AllRecorded, hchange.queue, hchange.saved]
  generalize PassAct.of e r = act at hrecorded
  cases act with
  | delete b site =>
    exact ⟨fun row hrow => hold (hdb row (Table.mem_deleteWhere.mp hrow).1),
      fun row hrow => hold (hdisk row hrow)⟩
  | record new =>
    refine ⟨fun row hrow => ?_, fun row hrow => hold (hdisk row hrow)⟩
    rcases Table.mem_insertOrReplace.mp hrow with ⟨hrow, -⟩ | rfl
    · exact hold (hdb row hrow)
    · rw [hrecorded]
      exact List.mem_cons_self
  | close => exact ⟨fun row hrow => hold (hdisk row hrow), fun row hrow => hold (hdisk row hrow)⟩
  -- A commit copies the connection to the file.
  | commit ok =>
    refine ⟨fun row hrow => hold (hdb row hrow), fun row hrow => hold ?_⟩
    cases ok with
    | true => exact hdb row hrow
    | false => exact hdisk row hrow
  | _ => exact ⟨fun row hrow => hold (hdb row hrow), fun row hrow => hold (hdisk row hrow)⟩

/-- In every run, the rows of pending approvals were recorded. -/
theorem allRecorded {allow : World → Step → Prop} (h : Reaches config allow c) :
    c.world.AllRecorded := by
  refine h.keeps ⟨nofun, nofun⟩ (fun _ _ _ hexec h => h.exec hexec) ?_ ?_ ?_
  · intro w w' ans _ henv h
    obtain ⟨m, -, hmoved⟩ := env_eq henv
    obtain ⟨htrace, hsame⟩ := moved_same hmoved
    have hdb : w'.db = w.db := hsame .db (by decide) (by decide) (by decide) (by decide)
    have hdisk : w'.disk = w.disk := hsame .disk (by decide) (by decide) (by decide) (by decide)
    rwa [World.AllRecorded, hdb, hdisk, htrace]
  · intro w w' u fiber ans _ hstart h
    obtain ⟨n, request, -, -, -, rfl⟩ := start_eq hstart
    exact h
  · intro w w' ans _ hcrash h
    obtain ⟨-, rfl⟩ := crash_eq hcrash
    exact ⟨h.2, h.2⟩

/-- A configuration in which an approval was minted in a turn is reached by a run. -/
theorem MintedInTurn.reaches (h : MintedInTurn config (detecting t a) t turn a c) :
    Reaches config ticking c := by
  obtain ⟨c₀, c₁, c₂, hreach, habout, ⟨ans, hcall⟩, hrun, -, hallow, hmint⟩ := h
  have hallowed : ticking c₀.world (Machine.event c₀ (.task t ans)) := by
    rw [Machine.event_of_about habout]
    trivial
  have hrun : (dispatcher config).Reachable ticking c₁ c₂ := hrun.mono fun _ _ h => h.1.1.1.1
  exact .step (.env (.move (.mint a))) (.trans (.step _ hreach hallowed hcall) hrun)
    hallow.1.1.1 hmint

/-- When a turn in which nothing went wrong is over, and from then on, an approval that was minted
in it and was the newest one when the task asked the registry has a row that names the turn, as
long as it is pending. -/
theorem gated_recorded (hkeys : (config.agents.map Prod.fst).Nodup)
    (hmax : 0 < config.maxMessageLength.getD 4000)
    {c c' c'' : Machine.Config Tid Eff Eff.Ret World}
    (hmint : MintedInTurn config (detecting t a) t turn a c)
    (hturn : (dispatcher config).Reachable (detecting t a) c c') {room : RoomId}
    (hover : c'.About t (.sync (.lockRelease room)))
    (hafter : (dispatcher config).Reachable (lasting a.approvalId) c' c'')
    (hpending : c''.world.stateOf a.approvalId = some .pending) :
    ∃ row ∈ c''.world.db.pendingApprovals, row.approvalId = a.approvalId ∧
      row.sessionId = turn.sessionId ∧ row.threadRootId = turn.threadRootId ∧
      row.roomId = turn.roomId := by
  have hreach : Reaches config ticking c'' :=
    (hmint.reaches.trans (hturn.mono fun _ _ h => h.1.1.1)).trans (hafter.mono fun _ _ h => h.1)
  obtain ⟨G, htr, hgood, hsettles⟩ := hmint.settles hmax
  have hagent : a.agentId = turn.agentName := by
    obtain ⟨_, _, _, -, -, -, -, hagent, -⟩ := hmint
    exact hagent
  obtain ⟨G', htr', -, hsettles'⟩ :=
    (settleWatch config hmax hagent).invariant.tracked hturn hgood hsettles htr
  -- the lock is released only when nothing is owed
  obtain ⟨g, hnext⟩ := htr'.accepts hover ()
  have hstep : GateStep _ (G' t) .release g := GateStage.step_cases hnext
  have hkept : Held turn a c'.world := by
    have hsettled : Settles turn a (G' t) c'.world := hsettles'
    generalize G' t = g' at hstep hsettled
    cases hstep with
    | idle => exact hsettled.of_off
  obtain ⟨hqueue, row, hrow, hid, hnames⟩ := (hkept.lasts hafter).row hpending
  -- the row in the table was recorded, and only one was
  obtain ⟨row', hrow', hid'⟩ := List.mem_map.mp hqueue
  obtain rfl := List.inj_on_of_nodup_map (recorded_once (oneRoom_of_nodup hkeys) hreach)
    ((allRecorded hreach).1 row' hrow') hrow (hid'.trans hid.symm)
  exact ⟨row', hrow', hid, hnames⟩

end

/-! ## Runs with a gate -/

/-- `keeping`, evaluated: nothing is deleted from the pending approvals. -/
def keeps : Step → Bool
  | .effect _ (.sync (.execute (.deletePendingApproval _ _))) _ | .effect _ (.sync .closeDb) _
  | .crash _ => false
  | _ => true

/-- What the check accepts meets the condition. -/
theorem keeping_of_keeps {id : ApprovalId} {e : Step} (h : keeps e = true) : keeping id w e := by
  rw [keeping.eq_def]
  split
  · cases h
  · cases h
  · cases h
  · trivial

/-- `unfailing`, evaluated. -/
def neverFails (t : Tid) (w : World) : Step → Bool
  | .effect u e ans => u != t || (exec u ans e w).all fun out => !(GateAct.of e out.1).isFail
  | _ => true

/-- What the check accepts meets the condition. -/
theorem unfailing_of_check {e : Step} (h : neverFails t w e = true) : unfailing t w e := by
  cases e with
  | effect u e ans =>
    rintro rfl r w' hexec hfail
    simp [neverFails, hexec, hfail, GateAct.isFail] at h
  | _ => trivial

/-- `newest`, evaluated. -/
def isNewest (t : Tid) (a : Approval) (w : World) : Step → Bool
  | .effect u (.await (.fetchPending agent _)) _ => u != t || w.approvals.rows.all fun b =>
      decide (b.agentId = agent → b.state = .pending → b.approvalId ≠ a.approvalId →
        b.createdAt < a.createdAt)
  | _ => true

/-- What the check accepts meets the condition. -/
theorem newest_of_check {e : Step} (h : isNewest t a w e = true) : newest t a w e := by
  rw [newest.eq_def]
  split
  · rintro rfl b hb
    rw [isNewest, bne_self_eq_false, Bool.false_or, List.all_eq_true] at h
    exact of_decide_eq_true (h b hb)
  · trivial

/-- `enduring`, evaluated. -/
def endures (t : Tid) (w : World) (e : Step) : Bool :=
  ticks w e && isOperated w e && keeps e && neverFails t w e

/-- What the check accepts meets the condition. -/
theorem enduring_of_endures (w : World) (e : Step) (h : endures t w e = true) :
    enduring t a w e := by
  rw [endures, Bool.and_eq_true, Bool.and_eq_true, Bool.and_eq_true] at h
  obtain ⟨⟨⟨htick, hlawful⟩, hkeeps⟩, hok⟩ := h
  exact ⟨⟨ticking_of_ticks w e htick, operated_of_check w e hlawful, keeping_of_keeps hkeeps⟩,
    unfailing_of_check hok⟩

/-- `detecting`, evaluated. -/
def detects (t : Tid) (a : Approval) (w : World) (e : Step) : Bool :=
  endures t w e && isNewest t a w e

/-- What the check accepts meets the condition. -/
theorem detecting_of_detects (w : World) (e : Step) (h : detects t a w e = true) :
    detecting t a w e := by
  rw [detects, Bool.and_eq_true] at h
  exact ⟨enduring_of_endures w e h.1, newest_of_check h.2⟩

/-- `unasked`, evaluated. -/
def isUnasked (t : Tid) : Step → Bool
  | .effect u (.await (.fetchPending _ _)) _ => u != t
  | _ => true

/-- What the check accepts meets the condition. -/
theorem unasked_of_check {e : Step} (h : isUnasked t e = true) : unasked t w e := by
  rw [unasked.eq_def]
  split
  · simpa [isUnasked] using h
  · trivial

/-- The effect calls the runner for that agent. -/
def isCallFor (agent : AgentName) : Eff → Bool
  | .sync (.mark (.runnerCall turn)) => decide (turn.agentName = agent)
  | _ => false

/-- What the check finds is a call of the runner for that agent. -/
theorem eq_of_isCallFor {agent : AgentName} {e : Eff} (h : isCallFor agent e = true) :
    ∃ turn : Turn, e = .sync (.mark (.runnerCall turn)) ∧ turn.agentName = agent := by
  rw [isCallFor.eq_def] at h
  split at h
  · exact ⟨_, rfl, of_decide_eq_true h⟩
  · cases h

/-- The effect releases a lock. -/
def isRelease : Eff → Bool
  | .sync (.lockRelease _) => true
  | _ => false

/-- What the check finds is the release of a lock. -/
theorem eq_of_isRelease {e : Eff} (h : isRelease e = true) :
    ∃ room, e = .sync (.lockRelease room) := by
  rw [isRelease.eq_def] at h
  split at h
  · exact ⟨_, rfl⟩
  · cases h

/-- The cues of a run with a turn in which an approval is minted. -/
structure GatedScript where
  config : MatrixDispatcher.Config
  /-- The task that the turn is of. -/
  task : Tid
  approval : Approval
  /-- Up to the call of the runner. -/
  before : List Cue
  /-- From there to the mint. -/
  inside : List Cue
  /-- From there to the release of the lock. -/
  rest : List Cue
  /-- From there to the end. -/
  after : List Cue

/-- The script can be played, with an end as wanted, and every step after the call passes the
check. -/
def GatedScript.plays (script : GatedScript) (check : World → Step → Bool)
    (goal : Machine.Config Tid Eff Eff.Ret World → Bool) : Bool :=
  let D := dispatcher script.config
  (D.play usualAnswer (fun w e => ticks w e = true) (.ofWorld World.initial) script.before).any
    fun c => meets c script.task (isCallFor script.approval.agentId) &&
      (D.step c (.task script.task .done)).any fun c₀ =>
        (D.play usualAnswer (fun w e => (check w e && isUnasked script.task e) = true) c₀
            script.inside).any fun c₁ =>
          check c₁.world (.env (.move (.mint script.approval))) &&
            (D.step c₁ (.env (.move (.mint script.approval)))).any fun c₂ =>
              (D.play usualAnswer (fun w e => check w e = true) c₂ script.rest).any fun c₃ =>
                meets c₃ script.task isRelease &&
                  (D.play usualAnswer (fun w e => check w e = true) c₃ script.after).any goal

/-- A script that can be played is a run with a turn in which the approval is minted, up to the
release of the lock. -/
theorem of_plays {script : GatedScript} {allow : World → Step → Prop}
    {check : World → Step → Bool} {goal : Machine.Config Tid Eff Eff.Ret World → Bool}
    (hcheck : ∀ w e, check w e = true → allow w e) (h : script.plays check goal = true) :
    ∃ turn c c' c'' room,
      MintedInTurn script.config allow script.task turn script.approval c ∧
      (dispatcher script.config).Reachable allow c c' ∧
      c'.About script.task (.sync (.lockRelease room)) ∧
      (dispatcher script.config).Reachable allow c' c'' ∧ goal c'' = true := by
  obtain ⟨c, hplay, h⟩ := (Option.any_eq_true ..).mp h
  obtain ⟨hcall, h⟩ := Bool.and_eq_true_iff.mp h
  obtain ⟨e, habout, he⟩ := about_of_meets hcall
  obtain ⟨turn, rfl, hagent⟩ := eq_of_isCallFor he
  obtain ⟨c₀, hstep, h⟩ := (Option.any_eq_true ..).mp h
  obtain ⟨c₁, hinside, h⟩ := (Option.any_eq_true ..).mp h
  obtain ⟨hallow, h⟩ := Bool.and_eq_true_iff.mp h
  obtain ⟨c₂, hmint, h⟩ := (Option.any_eq_true ..).mp h
  obtain ⟨c₃, hrest, h⟩ := (Option.any_eq_true ..).mp h
  obtain ⟨hrelease, h⟩ := Bool.and_eq_true_iff.mp h
  obtain ⟨e, hover, he⟩ := about_of_meets hrelease
  obtain ⟨room, rfl⟩ := eq_of_isRelease he
  obtain ⟨c₄, hafter, hgoal⟩ := (Option.any_eq_true ..).mp h
  -- The script is one run: up to the call, up to the minting, and up to the release.
  refine ⟨turn, c₂, c₃, c₄, room, ⟨c, c₀, c₁, ?_, habout, ⟨_, hstep⟩, ?_, hagent.symm,
    hcheck _ _ hallow, hmint⟩, (Machine.reachable_of_play hrest).mono hcheck, hover,
    (Machine.reachable_of_play hafter).mono hcheck, hgoal⟩
  · exact (Machine.reachable_of_play hplay).mono ticking_of_ticks
  · refine (Machine.reachable_of_play hinside).mono fun w e h => ?_
    rw [Bool.and_eq_true] at h
    exact ⟨hcheck w e h.1, unasked_of_check h.2⟩

/-- The first message spawns a session, whose child mints `bashApproval` and exits, and nothing else
happens. -/
def oneGate : GatedScript where
  config := oneAgent
  task := .handler 0
  approval := bashApproval
  before := booting ++ batch (lit "t1") (lit "!room") [messageOf (lit "$1") (lit "hi") (.obj [])] ++
    handling 0 2 18
  inside := [.go (.handler 0) 3]
  rest := [.move (.exit 0 0 (lit "ok") []), .go (.handler 0) 19]
  after := [.go (.handler 0) 3]

/-- A turn with one approval, which is detected. -/
theorem gated_recorded_oneGate : ∃ turn c c' c'' room,
    MintedInTurn oneAgent (detecting (.handler 0) bashApproval) (.handler 0) turn bashApproval c ∧
    (dispatcher oneAgent).Reachable (detecting (.handler 0) bashApproval) c c' ∧
    c'.About (.handler 0) (.sync (.lockRelease room)) ∧
    (dispatcher oneAgent).Reachable (lasting bashApproval.approvalId) c' c'' ∧
    c''.world.stateOf bashApproval.approvalId = some .pending ∧
    ∃ row ∈ c''.world.db.pendingApprovals, row.approvalId = bashApproval.approvalId ∧
      row.sessionId = turn.sessionId ∧ row.threadRootId = turn.threadRootId ∧
      row.roomId = turn.roomId := by
  obtain ⟨turn, c, c', c'', room, hmint, hturn, hover, hafter, hgoal⟩ :=
    @of_plays oneGate _ _ (fun c =>
      decide (c.world.stateOf bashApproval.approvalId = some .pending))
      (detecting_of_detects (t := .handler 0) (a := bashApproval)) (by decide +kernel)
  have hafter := hafter.mono fun _ _ h => h.1.1
  have hpending := of_decide_eq_true hgoal
  exact ⟨turn, c, c', c'', room, hmint, hturn, hover, hafter, hpending,
    gated_recorded (by decide) (by decide) hmint hturn hover hafter hpending⟩

/-- The child asks for another approval before it exits. -/
def twoGates : GatedScript where
  __ := oneGate
  rest := .move (.mint { bashApproval with
    approvalId := lit "a2"
    createdAt := secondsToTime 102 }) :: oneGate.rest

/-- Nothing goes wrong, the child meets two gates, and the handler ends while both approvals are
pending: the older one has no row. -/
theorem second_gate_recorded : ∃ turn c c' c'' room,
    MintedInTurn oneAgent (enduring (.handler 0) bashApproval) (.handler 0) turn bashApproval c ∧
    (dispatcher oneAgent).Reachable (enduring (.handler 0) bashApproval) c c' ∧
    c'.About (.handler 0) (.sync (.lockRelease room)) ∧
    (dispatcher oneAgent).Reachable (enduring (.handler 0) bashApproval) c' c'' ∧
    .handler 0 ∈ c''.world.finished ∧
    c''.world.stateOf bashApproval.approvalId = some .pending ∧
    ∀ row ∈ c''.world.db.pendingApprovals.rows, row.approvalId ≠ bashApproval.approvalId := by
  obtain ⟨turn, c, c', c'', room, hmint, hturn, hover, hafter, hgoal⟩ :=
    @of_plays twoGates _ _ (fun c =>
      decide (.handler 0 ∈ c.world.finished ∧
        c.world.stateOf bashApproval.approvalId = some .pending ∧
        ∀ row ∈ c.world.db.pendingApprovals.rows, row.approvalId ≠ bashApproval.approvalId))
      (enduring_of_endures (t := .handler 0) (a := bashApproval)) (by decide +kernel)
  exact ⟨turn, c, c', c'', room, hmint, hturn, hover, hafter, of_decide_eq_true hgoal⟩

end MatrixDispatcher
