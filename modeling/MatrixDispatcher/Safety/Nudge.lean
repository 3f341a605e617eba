import MatrixDispatcher.Safety.Queue
import MatrixDispatcher.Discipline.TurnEffect

/-!
# The state of an approval when its session is nudged

A pass asks the registry once and then works through the answer, one turn after the other, each
under the lock of its room. The answer is still true when the runner is called, unless a live turn
has consumed the approval in between.

* `World.lawful` — how the registry moves approvals on.
* `outstanding` — the approvals that the running pass was told to be approved and has not resumed.
* `unconsumed` — none of these is consumed.
* `nudge_approved` — under this assumption only approved approvals lead to a nudge.
-/

namespace MatrixDispatcher

open Coro

variable {config : MatrixDispatcher.Config} {w w' : World}

/-- The registry moves approvals from pending to approved or denied, and from approved to consumed
when the agent retries its call. -/
def World.lawful (w : World) : Move → Prop
  | .mint a => a.state = .pending
  | .setState a .approved | .setState a .denied => w.stateOf a = some .pending
  | .setState a .consumed => w.stateOf a = some .approved
  | .setState _ _ => False
  | .exit _ _ _ _ | .interrupt => True

/-- The approvals that the running pass was told to be approved, and has not resumed. -/
def outstanding : List Obs → List ApprovalId
  | [] => []
  | .served states :: _ => approvedIn states
  | .marked _ (.runnerCall turn) :: trace =>
    (outstanding trace).filter fun a => turn.account ≠ some a
  | .marked _ .passOver :: _ | .restarted :: _ => []
  | _ :: trace => outstanding trace

/-- The registry is lawful. -/
def operated (w : World) : Step → Prop
  | .env (.move m) => w.lawful m
  | _ => True

/-- The registry is lawful, and no approval is consumed that the running pass is about to resume. -/
def unconsumed (w : World) : Step → Prop
  | .env (.move m) => w.lawful m ∧ ∀ a, m = .setState a .consumed → a ∉ outstanding w.trace
  | _ => True

/-- `World.lawful`, evaluated. -/
def World.isLawful (w : World) : Move → Bool
  | .mint a => decide (a.state = .pending)
  | .setState a .approved | .setState a .denied => decide (w.stateOf a = some .pending)
  | .setState a .consumed => decide (w.stateOf a = some .approved)
  | .setState _ _ => false
  | .exit _ _ _ _ | .interrupt => true

theorem World.lawful_of_isLawful {m : Move} (h : w.isLawful m = true) : w.lawful m := by
  rw [World.isLawful.eq_def] at h
  split at h
  · exact (of_decide_eq_true h :)
  · exact (of_decide_eq_true h :)
  · exact (of_decide_eq_true h :)
  · exact (of_decide_eq_true h :)
  · cases h
  · trivial
  · trivial

/-- `operated`, evaluated. -/
def isOperated (w : World) : Step → Bool
  | .env (.move m) => w.isLawful m
  | _ => true

theorem operated_of_check (w : World) (e : Step) (h : isOperated w e = true) : operated w e := by
  rw [operated.eq_def]
  split
  · exact World.lawful_of_isLawful h
  · trivial

/-- The registry is lawful, and nothing is consumed. -/
def consumesNothing (w : World) : Step → Bool
  | .env (.move (.setState _ .consumed)) => false
  | e => isOperated w e

theorem unconsumed_of_check (w : World) (e : Step) (h : consumesNothing w e = true) :
    unconsumed w e := by
  rw [unconsumed.eq_def]
  split
  · next m =>
    rw [consumesNothing.eq_def] at h
    split at h
    · cases h
    · next hne => exact ⟨World.lawful_of_isLawful h, fun a heq => (hne a (by rw [heq])).elim⟩
  · trivial

/-- The outstanding approvals after an act. -/
def PassAct.outstandingAfter (old : List ApprovalId) : PassAct → List ApprovalId
  | serve states => approvedIn states
  | call turn => old.filter fun a => turn.account ≠ some a
  | ended => []
  | _ => old

theorem exec_outstanding {t : Tid} {a : Answer} {e : Eff} {r : e.Ret}
    (h : exec t a e w = some (r, w')) :
    outstanding w'.trace = (PassAct.of e r).outstandingAfter (outstanding w.trace) := by
  refine passObserver.exec_read outstanding (fun act old => act.outstandingAfter old)
    (fun o _ => ?_) (fun act _ hsilent => ?_) h
  · cases o with
    | marked u m => cases m <;> rfl
    | _ => rfl
  · cases act <;> first | rfl | cases hsilent

/-- What the registry answers is the state that it has. -/
theorem stateOf_of_stateIn {ids : List ApprovalId} {a : ApprovalId} {state : ApprovalState}
    (h : stateIn (statesOf w.approvals.rows ids) a = some state) : w.stateOf a = some state := by
  obtain ⟨s, hfind, rfl⟩ := Option.map_eq_some_iff.mp h
  have hkey : s.1 = a := by simpa using List.find?_some hfind
  obtain ⟨row, hrow, rfl⟩ := List.mem_map.mp (List.mem_reverse.mp (List.mem_of_find?_eq_some hfind))
  have hfound : w.approvals.find? a = some row :=
    Table.find?_eq_some.mpr ⟨(List.mem_filter.mp hrow).1, hkey⟩
  rw [World.stateOf, hfound]
  rfl

/-- A lawful move leaves an approved approval approved, unless it is consumed. -/
theorem moved_approved {m : Move} {a : ApprovalId} (hmoved : w.moved m = some w')
    (hlawful : w.lawful m) (hstate : w.stateOf a = some .approved)
    (hconsumed : m ≠ .setState a .consumed) : w'.stateOf a = some .approved := by
  cases m with
  | mint b =>
    rw [World.moved] at hmoved
    split at hmoved
    · next hnew =>
      cases hmoved
      obtain ⟨row, hrow, hrowState⟩ := Option.map_eq_some_iff.mp hstate
      -- The id that is minted is new, and `a` is not.
      have hne : b.approvalId ≠ a := by
        rintro rfl
        simp [Table.hasKey, hrow] at hnew
      change (Table.find? _ a).map _ = _
      rw [Table.find?_insertNew, if_neg hne]
      exact hstate
    · cases hmoved
  | setState b state =>
    -- From `approved` only `consumed` is lawful, so the state that changes is another one's.
    have hne : b ≠ a := by
      rintro rfl
      rw [World.lawful.eq_def] at hlawful
      split at hlawful <;> simp_all
    rw [World.moved] at hmoved
    split at hmoved
    · cases hmoved
      obtain ⟨row, hrow, hrowState⟩ := Option.map_eq_some_iff.mp hstate
      have hkey := Table.find?_key hrow
      change (Table.find? _ a).map _ = _
      rw [Table.find?_update, hrow, Option.map_some, if_neg (by simpa [hkey] using hne.symm)]
      exact congrArg some hrowState
    · cases hmoved
  | exit pid rc out err =>
    rw [World.moved.eq_def] at hmoved
    dsimp only at hmoved
    split at hmoved <;> cases hmoved
    exact hstate
  | interrupt =>
    rw [World.moved] at hmoved
    split at hmoved <;> cases hmoved
    exact hstate

/-! ## The invariant -/

/-- The pass is going to resume the approval. -/
def PassStage.Due (a : ApprovalId) : PassStage → Prop
  | working rows approved => a ∈ approved ∧ a ∈ approvalsOf rows
  | deleting rows b approved | claimed rows b approved =>
    a = b ∨ (a ∈ approved ∧ a ∈ approvalsOf rows)
  | _ => False

/-- What the pass is going to resume is outstanding, and approved. -/
def NudgeInv (g : PassStage) (w : World) : Prop :=
  ∀ a, g.Due a → a ∈ outstanding w.trace ∧ w.stateOf a = some .approved

/-- An act of the reconcile loop keeps what is due. -/
theorem PassStage.due_step {act : PassAct} {g g' : PassStage} {a : ApprovalId} (hfits : g.Fits w)
    (hstep : PassStep g act g') (hguard : act.Guard w) (hdue' : g'.Due a)
    (hdue : g.Due a → a ∈ outstanding w.trace ∧ w.stateOf a = some .approved) :
    a ∈ act.outstandingAfter (outstanding w.trace) ∧ w.stateOf a = some .approved := by
  cases hstep with
  | muddled => exact hfits.elim
  | other | commit | record => exact hdue hdue'
  | claim => exact hdue hdue'
  | keep => exact hdue (.inr hdue')
  -- What is due now was answered in this pass.
  | serve rows states =>
    obtain ⟨ids, rfl⟩ := hguard
    exact ⟨hdue'.1, stateOf_of_stateIn (mem_approvedIn.mp hdue'.1)⟩
  -- The row that is claimed is still to be called for, and so are those behind it.
  | delete rows b approved happroved hrow =>
    rcases hdue' with rfl | ⟨hmem, hrow'⟩
    · exact hdue ⟨happroved, hrow⟩
    · exact hdue ⟨hmem, (mem_approvalsOf_without.mp hrow').1⟩
  | drop => exact hdue ⟨hdue'.1, (mem_approvalsOf_without.mp hdue'.2).1⟩
  -- The call is for another row, so this one stays outstanding.
  | call rows b approved turn hturn =>
    obtain ⟨hmem, hstate⟩ := hdue (.inr hdue')
    refine ⟨List.mem_filter.mpr ⟨hmem, ?_⟩, hstate⟩
    have hne : b ≠ a := fun heq => hfits.2 (heq ▸ hdue'.2)
    simpa [hturn] using hne
  | _ => exact hdue'.elim

/-- Every run in which nothing outstanding is consumed keeps the invariant. -/
def nudgeFocus (config : MatrixDispatcher.Config) :
    (passInvariant config unconsumed).Focus .reconcile where
  inv := NudgeInv
  own := by
    intro G w w' e a r g' hpass hinv _ hexec hnext b hdue
    rw [exec_outstanding hexec, exec_stateOf hexec]
    exact PassStage.due_step (hpass.fits _) (PassStage.step_cases hnext) (exec_pass hexec).guard
      hdue (hinv b)
  other := by
    intro G w w' t e a r g' ht hpass _ hinv _ hexec hnext b hdue
    rw [exec_outstanding hexec, exec_stateOf hexec]
    obtain ⟨hmem, hstate⟩ := hinv b hdue
    refine ⟨?_, hstate⟩
    have hstep := PassStage.step_cases hnext
    have hg : (G t).reconciles = false := Bool.eq_false_iff.mpr fun h => ht (hpass.alone t h)
    generalize PassAct.of e r = act at hstep
    generalize G t = g at hstep hg
    cases hstep with
    | other | commit | record | close => exact hmem
    | callApart turn hturn => exact List.mem_filter.mpr ⟨hmem, by simp [hturn]⟩
    | ended _ hover => simp [hg] at hover
    | _ => cases hg
  finish _ _ _ hdue := hdue.elim
  env := by
    intro g w w' a hinv hallow henv b hdue
    obtain ⟨m, rfl, hmoved⟩ := env_eq henv
    obtain ⟨hmem, hstate⟩ := hinv b hdue
    rw [(moved_same hmoved).1]
    exact ⟨hmem, moved_approved hmoved hallow.1 hstate fun heq => hallow.2 b heq hmem⟩
  enter := by
    intro w w' fiber a hgood _ hstart b hdue
    obtain ⟨n, request, henter, hruns, rfl⟩ := (passCoverage config).start_good hgood hstart
    rw [henter] at hdue
    cases request <;> exact hdue.elim
  start := by
    intro g w w' t fiber a _ hinv hstart
    obtain ⟨n, request, -, -, -, rfl⟩ := start_eq hstart
    exact hinv
  crash _ _ _ hdue := hdue.elim

/-- When the runner is called on account of an approval, the approval is approved: in every run in
which no approval is consumed that the running pass is about to resume. -/
theorem nudge_approved {c : Machine.Config Tid Eff Eff.Ret World}
    (h : Reaches config unconsumed c) {t : Tid} {turn : Turn} {a : ApprovalId}
    (habout : c.About t (.sync (.mark (.runnerCall turn)))) (hturn : turn.account = some a) :
    c.world.stateOf a = some .approved := by
  obtain ⟨G, -, ⟨hpass, hinv⟩, -, hnext⟩ :=
    ((passInvariant config unconsumed).extend (nudgeFocus config).extension).about h
      (passCoverage config).good_initial ⟨.initial, fun _ => False.elim⟩ habout
  obtain ⟨g', hnext⟩ := hnext ()
  have hstep : PassStep (G t) (.call turn) g' := PassStage.step_cases hnext
  have hfits := hpass.fits t
  have halone := hpass.alone t
  generalize hg : G t = g at hstep hfits halone
  cases hstep with
  | muddled => exact hfits.elim
  | callApart _ hnone => simp [hnone] at hturn
  | call rows b approved _ hb =>
    obtain rfl : b = a := Option.some.inj (hb.symm.trans hturn)
    obtain rfl := halone rfl
    exact (hinv b (hg ▸ .inl rfl)).2

/-- The runner is called on account of the approval. -/
def isNudge (a : ApprovalId) : Eff → Bool
  | .sync (.mark (.runnerCall turn)) => decide (turn.account = some a)
  | _ => false

theorem eq_of_isNudge {a : ApprovalId} {e : Eff} (h : isNudge a e = true) :
    ∃ turn : Turn, e = .sync (.mark (.runnerCall turn)) ∧ turn.account = some a := by
  rw [isNudge.eq_def] at h
  split at h
  · exact ⟨_, rfl, of_decide_eq_true h⟩
  · cases h

theorem nudge_approved_reconciling : ∃ c t turn, Reaches oneAgent unconsumed c ∧
    c.About t (.sync (.mark (.runnerCall turn))) ∧ turn.account = some (lit "a1") ∧
    c.world.stateOf (lit "a1") = some .approved := by
  obtain ⟨c, h, hgoal⟩ := reaches_of_play oneAgent (approving ++ reconciling 14)
    (fun c => meets c .reconcile (isNudge (lit "a1"))) unconsumed_of_check (by decide +kernel)
  obtain ⟨e, habout, hnudge⟩ := about_of_meets hgoal
  obtain ⟨turn, rfl, hturn⟩ := eq_of_isNudge hnudge
  exact ⟨c, _, turn, h, habout, hturn, nudge_approved h habout hturn⟩

/-- A thread reply runs when the pass reads the states. Its child consumes the approval while the
pass waits for the room lock. -/
def overtaking : List Cue :=
  approving ++ replying 1 ++ reconciling 13 ++ [.move (.setState (lit "a1") .consumed),
    .move (.exit 1 0 (lit "ok") []), .go (.handler 1) 19, .go .reconcile 2]

/-- Lawful moves alone do not make sure that the approval is still approved. -/
theorem nudge_consumed : ∃ c t turn, Reaches oneAgent operated c ∧
    c.About t (.sync (.mark (.runnerCall turn))) ∧ turn.account = some (lit "a1") ∧
    c.world.stateOf (lit "a1") = some .consumed := by
  obtain ⟨c, h, hgoal⟩ := reaches_of_play oneAgent overtaking
    (fun c => meets c .reconcile (isNudge (lit "a1")) &&
      decide (c.world.stateOf (lit "a1") = some .consumed)) operated_of_check (by decide +kernel)
  obtain ⟨hmeets, hstate⟩ := Bool.and_eq_true_iff.mp hgoal
  obtain ⟨e, habout, hnudge⟩ := about_of_meets hmeets
  obtain ⟨turn, rfl, hturn⟩ := eq_of_isNudge hnudge
  exact ⟨c, _, turn, h, habout, hturn, of_decide_eq_true hstate⟩

end MatrixDispatcher
