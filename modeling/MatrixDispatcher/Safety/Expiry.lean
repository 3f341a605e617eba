import MatrixDispatcher.Safety.Queue
import MatrixDispatcher.Discipline.TurnEffect

/-!
# What the expiry loop drops

A pass drops rows by their age alone, before it asks the registry for their states. It therefore
spares the approvals that the operator has decided as long as none of them has a row over the age
limit while the loop runs.

* `World.Overdue` — some approval is decided and its row is over the age limit.
* `punctual` — this is never so while the expiry loop runs.
* `expiry_spares` — under this assumption the loop deletes no row of a decided approval.
-/

namespace MatrixDispatcher

open Coro

variable {config : MatrixDispatcher.Config} {w w' : World}

/-- The clock reading of the expiry loop that is running, if one is. -/
def sweepOf : List Obs → Option Int
  | [] => none
  | .marked _ (.sweep now) :: _ => some now
  | .marked _ (.swept _) :: _ | .marked _ .passOver :: _ | .restarted :: _ => none
  | _ :: trace => sweepOf trace

/-- The operator has approved or denied. -/
def World.Decided (w : World) (a : ApprovalId) : Prop :=
  w.stateOf a = some .approved ∨ w.stateOf a = some .denied

instance (w : World) (a : ApprovalId) : Decidable (w.Decided a) :=
  inferInstanceAs (Decidable (_ ∨ _))

/-- Some approval is decided, and its row is over the age limit. -/
def World.Overdue (w : World) (now : Int) : Prop :=
  ∃ row ∈ w.db.pendingApprovals.rows,
    now - row.createdAt > PENDING_APPROVAL_EXPIRY_SECONDS ∧ w.Decided row.approvalId

/-- From the time that a pass reads its clock until its expiry loop is over, no decided approval
has a row over the age limit. -/
def punctual (w : World) : Step → Prop
  | .effect _ (.sync (.mark (.sweep now))) _ => ¬w.Overdue now
  | .env (.move m) => ∀ now w', sweepOf w.trace = some now → w.moved m = some w' → ¬w'.Overdue now
  | _ => True

instance (w : World) (now : Int) : Decidable (w.Overdue now) :=
  inferInstanceAs (Decidable (∃ row ∈ w.db.pendingApprovals.rows, _))

/-- Runs that are punctual because nothing else moves during an expiry loop. -/
def sweepsAlone (w : World) : Step → Bool
  | .effect _ (.sync (.mark (.sweep now))) _ => decide (¬w.Overdue now)
  | .env (.move _) => (sweepOf w.trace).isNone
  | _ => true

theorem punctual_of_check (w : World) (e : Step) (h : sweepsAlone w e = true) : punctual w e := by
  rw [punctual.eq_def]
  split
  · exact (of_decide_eq_true h :)
  · intro now w' hsweep
    simp [sweepsAlone, hsweep] at h
  · trivial

/-- The clock reading after an act. -/
def PassAct.sweepAfter (old : Option Int) : PassAct → Option Int
  | sweep now => some now
  | swept _ | ended => none
  | _ => old

theorem exec_sweepOf {t : Tid} {a : Answer} {e : Eff} {r : e.Ret}
    (h : exec t a e w = some (r, w')) :
    sweepOf w'.trace = (PassAct.of e r).sweepAfter (sweepOf w.trace) := by
  refine passObserver.exec_read sweepOf (fun act old => act.sweepAfter old) (fun o _ => ?_)
    (fun act _ hsilent => ?_) h
  · cases o with
    | marked u m => cases m <;> rfl
    | _ => rfl
  · cases act <;> first | rfl | cases hsilent

/-- The stage of the reconcile loop and the trace agree on the expiry loop, which finds no decided
approval to drop. -/
structure ExpiryInv (g : PassStage) (w : World) : Prop where
  running : ∀ now, sweepOf w.trace = some now ↔ ∃ rows, g = .sweeping now rows
  spared : ∀ now, sweepOf w.trace = some now → ¬w.Overdue now

namespace ExpiryInv

variable {g g' : PassStage}

/-- No expiry loop is running. -/
theorem off (hg : ∀ now rows, g ≠ .sweeping now rows) (hsweep : sweepOf w.trace = none) :
    ExpiryInv g w := by
  refine ⟨fun now => ?_, fun now hnow => by simp [hsweep] at hnow⟩
  rw [hsweep]
  exact ⟨nofun, fun ⟨rows, h⟩ => absurd h (hg now rows)⟩

/-- The trace shows no expiry loop while the reconcile loop is elsewhere. -/
theorem sweepOf_eq_none (h : ExpiryInv g w) (hg : ∀ now rows, g ≠ .sweeping now rows) :
    sweepOf w.trace = none := by
  rcases hsweep : sweepOf w.trace with _ | now
  · rfl
  · obtain ⟨rows, heq⟩ := (h.running now).mp hsweep
    exact absurd heq (hg now rows)

/-- The expiry loop is running, and spares the decided approvals. -/
theorem on {now : Int} {rows : List PendingRow} (hsweep : sweepOf w.trace = some now)
    (hspared : ¬w.Overdue now) : ExpiryInv (.sweeping now rows) w := by
  refine ⟨fun now' => ?_, fun now' hnow' => ?_⟩
  · rw [hsweep, Option.some.injEq]
    exact ⟨fun h => ⟨rows, by rw [h]⟩, fun ⟨_, h⟩ => (PassStage.sweeping.inj h).1⟩
  · rw [hsweep] at hnow'
    exact Option.some.inj hnow' ▸ hspared

/-- Rows only go away while the loop runs, so what was spared is spared. -/
theorem spared_of (hrows : w'.db.pendingApprovals.rows ⊆ w.db.pendingApprovals.rows)
    (hstate : ∀ a, w'.stateOf a = w.stateOf a) {now : Int} (h : ¬w.Overdue now) :
    ¬w'.Overdue now := by
  rintro ⟨row, hrow, hage, hdecided⟩
  rw [World.Decided, hstate] at hdecided
  exact h ⟨row, hrows hrow, hage, hdecided⟩

/-- The reconcile loop goes on. -/
theorem step {act : PassAct} (h : ExpiryInv g w) (hfits : g.Fits w) (hstep : PassStep g act g')
    (hact : PassChange act w w') (hsweep : sweepOf w'.trace = act.sweepAfter (sweepOf w.trace))
    (hstate : ∀ a, w'.stateOf a = w.stateOf a)
    (hpunctual : ∀ now, act = .sweep now → ¬w.Overdue now) : ExpiryInv g' w' := by
  -- Acts that leave the queue leave the pending approvals.
  have hsame : act.queue w = w.db.pendingApprovals →
      w'.db.pendingApprovals.rows ⊆ w.db.pendingApprovals.rows := fun hqueue => by
    rw [hact.queue, hqueue]
    exact List.Subset.refl _
  -- During the expiry the rows that were spared stay so; outside of it there is nothing to show.
  by_cases hrun : ∃ now rows, g = .sweeping now rows
  · obtain ⟨now, rows, rfl⟩ := hrun
    have hnow := (h.running now).mpr ⟨rows, rfl⟩
    have hspared := h.spared now hnow
    rw [hnow] at hsweep
    cases hstep with
    | other | commit => exact on hsweep (spared_of (hsame rfl) hstate hspared)
    | record _ _ hcalm => cases hcalm
    | expire now rows row hrow hage =>
      refine on hsweep (spared_of ?_ hstate hspared)
      rw [hact.queue, PassAct.queue, rows_deleteWhere]
      exact List.filter_subset_self _
    | swept | ended => exact off (by simp) hsweep
  · have hstay : ∀ now rows, g ≠ .sweeping now rows := fun now rows hg => hrun ⟨now, rows, hg⟩
    rw [h.sweepOf_eq_none hstay] at hsweep
    cases hstep with
    | sweep now rows => exact on hsweep (spared_of (hsame rfl) hstate (hpunctual now rfl))
    | expire now rows => exact absurd rfl (hstay now rows)
    | other | commit | record => exact off hstay hsweep
    | muddled => exact hfits.elim
    | _ => exact off (by simp) hsweep

/-- Another task goes on, which is possible outside of the expiry loop only. -/
theorem step_other {act : PassAct} {h h' : PassStage} (hinv : ExpiryInv g w)
    (hcalm : g.isAtomic = false) (hh : h.reconciles = false) (hstep : PassStep h act h')
    (hsweep : sweepOf w'.trace = act.sweepAfter (sweepOf w.trace)) : ExpiryInv g w' := by
  have hstay : ∀ now rows, g ≠ .sweeping now rows := by
    rintro now rows rfl
    cases hcalm
  rw [hinv.sweepOf_eq_none hstay] at hsweep
  refine off hstay (hsweep.trans ?_)
  cases hstep <;> first | rfl | cases hh

end ExpiryInv

/-- The clock of a pass is read where the expiry loop starts. -/
theorem PassAct.eq_of_sweep {e : Eff} {r : e.Ret} {now : Int} (h : PassAct.of e r = .sweep now) :
    e = .sync (.mark (.sweep now)) := by
  cases e with
  | sync e =>
    cases e with
    | execute s => cases s <;> cases r <;> cases h
    | commit => cases r <;> cases h
    | mark m =>
      cases m <;> cases h
      rfl
    | _ => cases h
  | await e =>
    cases e with
    | fetchStates _ => cases r <;> cases h
    | _ => cases h

/-- Every punctual run keeps the invariant. -/
def expiryFocus (config : MatrixDispatcher.Config) :
    (passInvariant config punctual).Focus .reconcile where
  inv := ExpiryInv
  own := by
    intro G w w' e a r g' hpass hinv hallow hexec hnext
    refine hinv.step (hpass.fits _) (PassStage.step_cases hnext) (exec_pass hexec)
      (exec_sweepOf hexec) (exec_stateOf hexec) fun now hact => ?_
    obtain rfl := PassAct.eq_of_sweep hact
    exact hallow
  other := by
    intro G w w' t e a r g' ht hpass hcalm hinv _ hexec hnext
    refine hinv.step_other hcalm ?_ (PassStage.step_cases hnext) (exec_sweepOf hexec)
    exact Bool.eq_false_iff.mpr fun h => ht (hpass.alone t h)
  finish := by
    intro g w hinv hfinal
    refine .off nofun (hinv.sweepOf_eq_none fun now rows heq => ?_)
    simp [passMonitor, heq] at hfinal
  env := by
    intro g w w' a hinv hallow henv
    obtain ⟨m, rfl, hmoved⟩ := env_eq henv
    have htrace : w'.trace = w.trace := (moved_same hmoved).1
    refine ⟨by rw [htrace]; exact hinv.running, fun now hnow => ?_⟩
    rw [htrace] at hnow
    exact hallow now w' hnow hmoved
  enter := by
    intro w w' fiber a hgood hinv hstart
    obtain ⟨n, request, henter, hruns, rfl⟩ := (passCoverage config).start_good hgood hstart
    rw [henter]
    exact .off (by cases request <;> nofun) (hinv.sweepOf_eq_none nofun)
  start := by
    intro g w w' t fiber a _ hinv hstart
    obtain ⟨n, request, -, -, -, rfl⟩ := start_eq hstart
    exact ⟨hinv.running, hinv.spared⟩
  crash := by
    intro g w w' a _ hcrash
    obtain ⟨-, rfl⟩ := crash_eq hcrash
    exact .off nofun rfl

/-- What the expiry loop leaves to the rest of the pass. -/
structure Spares (c : Machine.Config Tid Eff Eff.Ret World) : Prop where
  /-- A row that is about to be dropped for its age belongs to no decided approval. -/
  drops : ∀ t a, c.About t (.sync (.execute (.deletePendingApproval a .expired))) →
    ¬c.world.Decided a
  /-- At the end of the loop, the rows of the decided approvals are among those to be reconciled. -/
  hands : ∀ t ids, c.About t (.sync (.mark (.swept ids))) →
    ∀ row ∈ c.world.db.pendingApprovals.rows, c.world.Decided row.approvalId → row.approvalId ∈ ids

/-- In punctual runs the expiry loop spares the decided approvals. -/
theorem expiry_spares {c : Machine.Config Tid Eff Eff.Ret World} (h : Reaches config punctual c) :
    Spares c := by
  have hstart : ExpiryInv .absent World.initial := .off nofun rfl
  -- At every effect of the loop, its stage accepts the effect and the invariant holds.
  have habout : ∀ {t e}, c.About t e → ∃ G, PassInv G c.world ∧ ExpiryInv (G .reconcile) c.world ∧
      ∀ r, ∃ g', PassStep (G t) (PassAct.of e r) g' := by
    intro t e habout
    obtain ⟨G, -, ⟨hpass, hinv⟩, -, hnext⟩ :=
      ((passInvariant config punctual).extend (expiryFocus config).extension).about h
        (passCoverage config).good_initial ⟨.initial, hstart⟩ habout
    exact ⟨G, hpass, hinv, fun r => (hnext r).imp fun _ => PassStage.step_cases⟩
  constructor
  case drops =>
    intro t a hdelete hdecided
    obtain ⟨G, hpass, hinv, hnext⟩ := habout hdelete
    obtain ⟨g', hstep⟩ := hnext (.ok ())
    have hfits := hpass.fits t
    have halone := hpass.alone t
    generalize hg : G t = g at hstep hfits halone
    change PassStep g (.delete a .expired) g' at hstep
    cases hstep with
    | muddled => exact hfits
    | drop _ _ _ _ hsite => rcases hsite with hsite | hsite <;> cases hsite
    -- The row is old, so it would have been decided in a queue that `punctual` excludes.
    | expire now rows row hrow hage =>
      obtain rfl := halone rfl
      refine hinv.spared now ((hinv.running now).mpr ⟨rows, hg⟩) ⟨row, ?_, hage, hdecided⟩
      exact hfits.2 ▸ hrow
  case hands =>
    intro t ids hswept row hrow _
    obtain ⟨G, hpass, hinv, hnext⟩ := habout hswept
    obtain ⟨g', hstep⟩ := hnext ()
    have hfits := hpass.fits t
    generalize G t = g at hstep hfits
    change PassStep g (.swept ids) g' at hstep
    cases hstep with
    | muddled => exact hfits.elim
    | swept now rows _ hids =>
      refine hids (List.mem_map_of_mem ?_)
      rw [hfits.2]
      exact hrow

theorem expiry_spares_approved : ∃ c, Reaches oneAgent punctual c ∧
    c.world.Decided (lit "a1") ∧ sweepOf c.world.trace ≠ none ∧ Spares c := by
  obtain ⟨c, h, hgoal⟩ := reaches_of_play oneAgent (approving ++ reconciling 6)
    (fun c => decide (c.world.Decided (lit "a1")) && (sweepOf c.world.trace).isSome)
    punctual_of_check (by decide +kernel)
  obtain ⟨hdecided, hsweep⟩ := Bool.and_eq_true_iff.mp hgoal
  exact ⟨c, h, of_decide_eq_true hdecided, Option.isSome_iff_ne_none.mp hsweep, expiry_spares h⟩

/-- The row of `a` is about to be dropped for its age. -/
def isExpiryOf (a : ApprovalId) : Eff → Bool
  | .sync (.execute (.deletePendingApproval b .expired)) => decide (b = a)
  | _ => false

/-- A pass that comes too late drops an approval that the operator has approved. -/
theorem expiry_drops_approved : ∃ c, Reaches oneAgent (fun _ _ => True) c ∧ ¬Spares c := by
  obtain ⟨c, h, hgoal⟩ := reaches_of_play oneAgent
    (approving ++ reconciling 4 ++
      [.task .reconcile (.clock (secondsToTime 900)), .go .reconcile 1])
    (fun c => meets c .reconcile (isExpiryOf (lit "a1")) &&
      decide (c.world.Decided (lit "a1"))) (fun _ _ (_ : true = true) => trivial)
    (by decide +kernel)
  obtain ⟨hmeets, hdecided⟩ := Bool.and_eq_true_iff.mp hgoal
  obtain ⟨e, habout, he⟩ := about_of_meets hmeets
  refine ⟨c, h, fun hspares => ?_⟩
  rw [isExpiryOf.eq_def] at he
  split at he
  · obtain rfl := of_decide_eq_true he
    exact hspares.drops _ _ habout (of_decide_eq_true hdecided)
  · cases he

end MatrixDispatcher
