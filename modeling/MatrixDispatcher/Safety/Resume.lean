import MatrixDispatcher.Safety.Queue
import MatrixDispatcher.Safety.Recording

/-!
# A session is resumed at most once for an approval

Every row that was recorded pays for one resume at most: it is in the table, or the reconcile loop
has claimed it and waits for the lock, or its session was resumed. With `recorded_once`, no
approval leads to two resumes.

* `resumed` — the approvals on whose account `resume_claude` was called.
* `PayInv` — each claim and each call is paid for by a recorded row.
* `resumed_once` — no approval is among them twice.
-/

namespace MatrixDispatcher

open Coro

variable {config : MatrixDispatcher.Config} {w w' : World}

/-- The approvals on whose account `resume_claude` was called, latest first. -/
def resumed (trace : List Obs) : List ApprovalId :=
  trace.filterMap fun o =>
    match o with
    | .marked _ (.runnerCall turn) => turn.account
    | _ => none

namespace PassAct

/-- The approval on whose account an act calls the runner. -/
def account : PassAct → Option ApprovalId
  | call turn => turn.account
  | _ => none

/-- The row that an act records. -/
def recorded : PassAct → Option PendingRow
  | record row => some row
  | _ => none

end PassAct

section

variable {t : Tid} {a : Answer} {e : Eff} {r : e.Ret}

theorem exec_resumed (h : exec t a e w = some (r, w')) :
    resumed w'.trace = (PassAct.of e r).account.toList ++ resumed w.trace := by
  refine passObserver.exec_read resumed (fun act ids => act.account.toList ++ ids) (fun o _ => ?_)
    (fun act _ hsilent => ?_) h
  · cases o with
    | marked u m =>
      cases m with
      | runnerCall turn =>
        obtain ⟨_, _, _, _, account⟩ := turn
        cases account <;> rfl
      | _ => rfl
    | _ => rfl
  · cases act <;> first | rfl | cases hsilent

theorem exec_passRecorded (h : exec t a e w = some (r, w')) :
    recordedRows w'.trace = (PassAct.of e r).recorded.toList ++ recordedRows w.trace := by
  refine passObserver.exec_read recordedRows (fun act rows => act.recorded.toList ++ rows)
    (fun o _ => ?_) (fun act _ hsilent => ?_) h
  · cases o with
    | marked u m => cases m <;> rfl
    | _ => rfl
  · cases act <;> first | rfl | cases hsilent

end

/-! ## What is owed -/

namespace PassStage

/-- The row of the approval is deleted, but not committed. -/
def deletes (a : ApprovalId) : PassStage → Bool
  | deleting _ b _ => b == a
  | _ => false

/-- The row of the approval is deleted for good, and its session is to be resumed. -/
def claims (a : ApprovalId) : PassStage → Bool
  | claimed _ b _ => b == a
  | _ => false

end PassStage

/-- A row of the approval is in the table, as the connection or the file has it, or it is being
deleted. -/
def World.Live (w : World) (g : PassStage) (a : ApprovalId) : Prop :=
  a ∈ w.queue ∨ a ∈ approvalsOf w.disk.pendingApprovals.rows ∨ g.deletes a = true

instance (w : World) (g : PassStage) (a : ApprovalId) : Decidable (w.Live g a) :=
  inferInstanceAs (Decidable (_ ∨ _))

/-- The resumes that are still to come on account of an approval, if no row is recorded. -/
def World.owed (w : World) (g : PassStage) (a : ApprovalId) : Nat :=
  (if w.Live g a then 1 else 0) + (if g.claims a then 1 else 0)

/-- Each claim and each call is paid for by a recorded row. -/
def PayInv (g : PassStage) (w : World) : Prop :=
  ∀ a, w.owed g a + (resumed w.trace).count a ≤
    ((recordedRows w.trace).map (·.approvalId)).count a

theorem owed_le {g g' : PassStage} {a : ApprovalId} (hlive : w'.Live g' a → w.Live g a)
    (hclaims : g'.claims a = true → g.claims a = true) : w'.owed g' a ≤ w.owed g a := by
  refine Nat.add_le_add ?_ ?_ <;> split <;> split <;> simp_all

theorem owed_le_succ {g g' : PassStage} {a : ApprovalId}
    (hclaims : g'.claims a = true → g.claims a = true) : w'.owed g' a ≤ w.owed g a + 1 := by
  rw [World.owed, World.owed, Nat.add_right_comm]
  refine Nat.add_le_add ?_ ?_ <;> split <;> split <;> simp_all

/-- A row comes into the table by being recorded, and into the file from the table. -/
theorem live_of {act : PassAct} {g g' : PassStage} {a : ApprovalId} (hact : PassChange act w w')
    (hdeletes : g'.deletes a = true → w.Live g a) (h : w'.Live g' a) :
    w.Live g a ∨ ∃ row, act = .record row ∧ row.approvalId = a := by
  rcases h with h | h | h
  · cases act with
    | delete b site => exact .inl (.inl ((PassAct.mem_queue_delete hact).mp h).1)
    | record row =>
      rcases (PassAct.mem_queue_record hact).mp h with h | rfl
      · exact .inl (.inl h)
      · exact .inr ⟨row, rfl, rfl⟩
    | close =>
      rw [World.queue, hact.queue] at h
      exact .inl (.inr (.inl h))
    | _ =>
      rw [World.queue, hact.queue] at h
      exact .inl (.inl h)
  · rw [hact.saved, PassAct.saved.eq_def] at h
    split at h
    · exact .inl (.inl h)
    · exact .inl (.inr (.inl h))
  · exact .inl (hdeletes h)

/-- The claims and calls of an act are paid for, if the act leaves the stage of the reconcile loop
as it is but for its own claims. -/
theorem owed_add_le {act : PassAct} {g g' : PassStage} {a : ApprovalId}
    (hact : PassChange act w w') (hdeletes : g'.deletes a = true → w.Live g a)
    (hclaims : g'.claims a = true → g.claims a = true) (haccount : act.account = none) :
    w'.owed g' a + act.account.toList.count a ≤
      w.owed g a + (act.recorded.toList.map (·.approvalId)).count a := by
  have hlive := live_of hact hdeletes
  rw [haccount]
  by_cases hrecord : ∃ row, act = .record row ∧ row.approvalId = a
  · obtain ⟨row, rfl, rfl⟩ := hrecord
    simpa [PassAct.recorded] using owed_le_succ hclaims
  · have hle := owed_le (fun h => (hlive h).resolve_right hrecord) hclaims
    exact Nat.le_add_right_of_le (by simpa using hle)

/-- An act of the reconcile loop is paid for. -/
theorem owed_step {act : PassAct} {g g' : PassStage} (a : ApprovalId) (hfits : g.Fits w)
    (hstep : PassStep g act g') (hact : PassChange act w w') :
    w'.owed g' a + act.account.toList.count a ≤
      w.owed g a + (act.recorded.toList.map (·.approvalId)).count a := by
  have hguard := hact.guard
  cases hstep with
  | claim rows b approved =>
    by_cases hab : b = a
    · -- what was the row of the approval is now a claim
      subst hab
      have hqueue : w'.queue = w.queue := by rw [World.queue, hact.queue]; rfl
      have hdisk : approvalsOf w'.disk.pendingApprovals.rows = w.queue := by rw [hact.saved]; rfl
      have hgone : ¬w'.Live (.claimed rows b approved) b := by
        rintro (h | h | h)
        · exact hfits.2.2 (hqueue ▸ h)
        · exact hfits.2.2 (hdisk ▸ h)
        · cases h
      have hlive : w.Live (.deleting rows b approved) b := .inr (.inr (by simp [PassStage.deletes]))
      simp [World.owed, hgone, hlive, PassStage.claims, PassAct.account]
    · exact owed_add_le hact (by simp [PassStage.deletes]) (by simp [PassStage.claims, hab]) rfl
  | call rows b approved turn hturn =>
    -- the claim is given up for the call
    have hle : w'.owed (.working rows approved) a ≤ w.owed (.working rows approved) a :=
      owed_le (fun h => (live_of hact (by simp [PassStage.deletes]) h).resolve_right (by simp)) id
    have hclaim : w.owed (.claimed rows b approved) a =
        w.owed (.working rows approved) a + if b = a then 1 else 0 := by
      simp [World.owed, World.Live, PassStage.claims, PassStage.deletes]
    rw [hclaim, PassAct.account, hturn]
    by_cases hab : b = a <;> simp [hab, PassAct.recorded] <;> omega
  | callApart turn hturn => exact owed_add_le hact (fun h => .inr (.inr h)) id hturn
  | delete rows b approved happroved hrow =>
    refine owed_add_le hact (fun h => ?_) (by simp [PassStage.claims]) rfl
    obtain rfl : b = a := by simpa [PassStage.deletes] using h
    exact .inl (hfits hguard hrow)
  | muddled => exact hfits.elim
  | fetch | sweep | expire | swept | serve | drop | keep | ended | close | muddle =>
    exact owed_add_le hact (by simp [PassStage.deletes]) (by simp [PassStage.claims]) rfl
  | other | commit | record =>
    exact owed_add_le hact (fun h => .inr (.inr h)) id rfl

/-- An act of another task is paid for. -/
theorem owed_other {act : PassAct} {g h h' : PassStage} (a : ApprovalId)
    (hh : h.reconciles = false) (hstep : PassStep h act h') (hact : PassChange act w w') :
    w'.owed g a + act.account.toList.count a ≤
      w.owed g a + (act.recorded.toList.map (·.approvalId)).count a := by
  refine owed_add_le hact (fun hdeletes => .inr (.inr hdeletes)) id ?_
  cases hstep <;> first | rfl | assumption | cases hh

/-- What is owed does not grow, and neither calls nor rows are added to the trace. -/
theorem PayInv.still {g g' : PassStage} (h : PayInv g w)
    (htrace : resumed w'.trace = resumed w.trace)
    (hrecorded : recordedRows w'.trace = recordedRows w.trace)
    (hlive : ∀ a, w'.Live g' a → w.Live g a)
    (hclaims : ∀ a, g'.claims a = true → g.claims a = true) : PayInv g' w' := by
  intro a
  rw [htrace, hrecorded]
  exact (Nat.add_le_add_right (owed_le (hlive a) (hclaims a)) _).trans (h a)

/-- Every run keeps the balance. -/
def payFocus (config : MatrixDispatcher.Config) (allow : World → Step → Prop) :
    (passInvariant config allow).Focus .reconcile where
  inv := PayInv
  own := by
    intro G w w' e a r g' hpass hinv _ hexec hnext b
    have hpay := owed_step b (hpass.fits _) (PassStage.step_cases hnext) (exec_pass hexec)
    have := hinv b
    rw [exec_resumed hexec, exec_passRecorded hexec, List.count_append, List.map_append,
      List.count_append]
    omega
  other := by
    intro G w w' t e a r g' ht hpass _ hinv _ hexec hnext b
    have hg : (G t).reconciles = false := Bool.eq_false_iff.mpr fun h => ht (hpass.alone t h)
    have hpay := owed_other (g := G .reconcile) b hg (PassStage.step_cases hnext) (exec_pass hexec)
    have := hinv b
    rw [exec_resumed hexec, exec_passRecorded hexec, List.count_append, List.map_append,
      List.count_append]
    omega
  finish hinv _ := hinv.still rfl rfl
    (fun _ h => h.imp_right fun h => h.imp_right fun h => by cases h) fun _ h => by cases h
  env := by
    intro g w w' a hinv _ henv
    obtain ⟨m, -, hmoved⟩ := env_eq henv
    obtain ⟨htrace, hsame⟩ := moved_same hmoved
    have hdb : w'.db = w.db := hsame .db (by decide) (by decide) (by decide) (by decide)
    have hdisk : w'.disk = w.disk := hsame .disk (by decide) (by decide) (by decide) (by decide)
    refine hinv.still (by rw [htrace]) (by rw [htrace]) (fun a h => ?_) fun _ => id
    rwa [World.Live, World.queue, hdb, hdisk] at h
  enter := by
    intro w w' fiber a hgood hinv hstart
    obtain ⟨n, request, henter, hruns, rfl⟩ := (passCoverage config).start_good hgood hstart
    rw [henter]
    refine hinv.still rfl rfl (fun a h => ?_) fun a h => ?_
    · exact h.imp_right fun h => h.imp_right fun h => by cases request <;> cases h
    · cases request <;> cases h
  start := by
    intro g w w' t fiber a _ hinv hstart
    obtain ⟨n, request, -, -, -, rfl⟩ := start_eq hstart
    exact hinv
  crash := by
    intro g w w' a hinv hcrash
    obtain ⟨-, rfl⟩ := crash_eq hcrash
    -- what was not committed is lost, and so is a claim
    refine hinv.still rfl rfl (fun a h => ?_) fun a h => by cases h
    rcases h with h | h | h
    · exact .inr (.inl h)
    · exact .inr (.inl h)
    · cases h

/-- The table and the trace of a fresh world are empty. -/
theorem PayInv.initial : PayInv .absent World.initial := fun _ => Nat.le_refl 0

/-- A session is resumed at most once on account of an approval, over the whole run. -/
theorem resumed_once (hkeys : (config.agents.map Prod.fst).Nodup)
    {c : Machine.Config Tid Eff Eff.Ret World} (h : Reaches config ticking c) :
    (resumed c.world.trace).Nodup := by
  have hone := recorded_once (oneRoom_of_nodup hkeys) h
  obtain ⟨G, -, -, hinv⟩ :=
    ((passInvariant config ticking).extend (payFocus config ticking).extension).reachable h
      (passCoverage config).good_initial ⟨.initial, .initial⟩
  refine List.nodup_iff_count_le_one.mpr fun a => ?_
  calc (resumed c.world.trace).count a
      ≤ _ := Nat.le_add_left _ _
    _ ≤ ((recordedRows c.world.trace).map (·.approvalId)).count a := hinv a
    _ ≤ 1 := List.nodup_iff_count_le_one.mp hone a

theorem resumed_once_approved : ∃ c, Reaches oneAgent ticking c ∧
    resumed c.world.trace = [lit "a1"] ∧ (resumed c.world.trace).Nodup := by
  obtain ⟨c, h, hgoal⟩ := reaches_of_play oneAgent (approving ++ reconciling 15)
    (fun c => resumed c.world.trace == [lit "a1"]) ticking_of_ticks (by decide +kernel)
  exact ⟨c, h, by simpa using hgoal, resumed_once (by decide) h⟩

end MatrixDispatcher
