import MatrixDispatcher.Safety.Reconcile
import MatrixDispatcher.Safety.Resume
import Mathlib.Data.Set.Card

/-!
# Passes that overlap

Any number of reconcile passes that run side by side on one database. Each of them works from rows
that it read before it awaited the registry, and the `DELETE` that claims a row does not say
whether there was one.

* `overlapping` — the machine that starts a pass at any time.
* `claimsRow` — the row that a pass claims is in the table.
* `resumed_once_per_row` — under this condition every row pays for one resume at most.
* `resumed_twice` — without it a row may be resumed twice.
-/

namespace MatrixDispatcher

open Coro Py

variable {config : MatrixDispatcher.Config} {w w' : World}

/-! ## The machine -/

/-- One pass as a task. -/
def passFiber (config : MatrixDispatcher.Config) : Fiber Eff Eff.Ret :=
  Fiber.once do let _ ← (reconcileOnce config).run

/-- Passes side by side, together with the other programs. Only handlers have numbers, so the pass
with number `n` runs under the name of handler `n`. -/
def overlapping (config : MatrixDispatcher.Config) : Machine Tid Eff Eff.Ret Answer World where
  awaits := Eff.awaits
  exec := exec
  env
    | .move m, w => w.moved m
    | _, _ => none
  start
    | .pick n, w => some (.handler n, passFiber config, w)
    | _, _ => none
  crash _ _ := none

/-- The configurations that passes reach on the world `w`, if all steps are allowed. -/
abbrev Overlaps (config : MatrixDispatcher.Config) (allow : World → Step → Prop) (w : World)
    (c : Machine.Config Tid Eff Eff.Ret World) : Prop :=
  (overlapping config).Reachable allow (.ofWorld { w with trace := [] }) c

/-- A pass claims only rows that are still in the table. -/
def claimsRow (w : World) : Step → Prop
  | .effect _ (.sync (.execute (.deletePendingApproval a .claim))) _ => a ∈ w.queue
  | _ => True

/-- Passes keep their discipline. -/
def overlappingSupervision (config : MatrixDispatcher.Config) :
    Supervision (overlapping config) passMonitor where
  enter _ _ := .outside
  good _ := True
  exec _ _ _ := trivial
  env _ _ := trivial
  start := by
    intro w w' t fiber a _ hstart
    cases a with
    | pick n =>
      cases hstart
      refine ⟨rfl, .once ?_, trivial⟩
      exact Monitor.Follows.bind (pass_reconcileOnce (.inl rfl)) fun _ g hg => ⟨hg.calm, .inr hg⟩
    | _ => cases hstart
  crash _ _ := trivial

/-! ## Passes that hold a claim -/

/-- The pass has deleted the row of the approval, and has not resumed its session. -/
def PassStage.holds (a : ApprovalId) (g : PassStage) : Bool := g.deletes a || g.claims a

/-- The passes that have deleted the row of the approval, and have not resumed its session. -/
def holders (a : ApprovalId) (G : Tid → PassStage) : Set Tid := {t | (G t).holds a = true}

/-- One of the passes goes on. -/
theorem holders_update {a : ApprovalId} {G : Tid → PassStage} (h : (holders a G).Finite) (t : Tid)
    (g : PassStage) :
    (holders a (Function.update G t g)).Finite ∧
      (holders a (Function.update G t g)).ncard + (if (G t).holds a then 1 else 0) =
        (holders a G).ncard + (if g.holds a then 1 else 0) := by
  -- Apart from `t`, the holders are the same.
  have hrest : ∀ u, u ∈ holders a G \ {t} ↔ u ≠ t ∧ u ∈ holders a (Function.update G t g) := by
    intro u
    by_cases hu : u = t
    · simp [hu]
    · simp [holders, hu]
  -- The others are counted once, and `t` before and after.
  have hcard : (holders a G \ {t}).ncard + (if (G t).holds a then 1 else 0) =
      (holders a G).ncard := by
    split
    · next hold => exact Set.ncard_sdiff_singleton_add_one hold h
    · next hold =>
      have hnot : t ∉ holders a G := hold
      rw [Set.sdiff_singleton_eq_self hnot, Nat.add_zero]
  by_cases hg : g.holds a = true
  · have hupdate : holders a (Function.update G t g) = insert t (holders a G \ {t}) := by
      ext u
      rw [Set.mem_insert_iff, hrest]
      by_cases hu : u = t
      · simp [hu, holders, hg]
      · simp [hu]
    rw [hupdate, Set.ncard_insert_of_notMem (by simp) h.sdiff, if_pos hg]
    exact ⟨h.sdiff.insert t, by omega⟩
  · have hupdate : holders a (Function.update G t g) = holders a G \ {t} := by
      ext u
      rw [hrest]
      by_cases hu : u = t
      · simp [hu, holders, hg]
      · simp [hu]
    rw [hupdate, if_neg hg]
    exact ⟨h.sdiff, hcard⟩

/-- The table has a row of the approval. -/
def World.rowsOf (w : World) (a : ApprovalId) : Nat := if a ∈ w.queue then 1 else 0

theorem World.rowsOf_le (h : ∀ a, a ∈ w'.queue → a ∈ w.queue) (a : ApprovalId) :
    w'.rowsOf a ≤ w.rowsOf a := by
  rw [rowsOf, rowsOf]
  split
  · next hmem => rw [if_pos (h a hmem)]
  · exact Nat.zero_le _

/-- An act is paid for: by the row that it deletes, by the claim that it gives up, or by the row
that it records. -/
theorem holds_step {act : PassAct} {g g' : PassStage} (a : ApprovalId) (hmuddled : g ≠ .muddled)
    (hclaim : ∀ b, act = .delete b .claim → b ∈ w.queue) (happart : g ≠ .apart)
    (hstep : PassStep g act g') (hact : PassChange act w w') :
    w'.rowsOf a + (if g'.holds a then 1 else 0) + act.account.toList.count a ≤
      w.rowsOf a + (if g.holds a then 1 else 0) +
        (act.recorded.toList.map (·.approvalId)).count a := by
  have hle : (∀ row, act ≠ .record row) → act ≠ .close → w'.rowsOf a ≤ w.rowsOf a := by
    intro hrecord hclose
    refine World.rowsOf_le (fun b hb => ?_) a
    cases act with
    | delete b site => exact ((PassAct.mem_queue_delete hact).mp hb).1
    | record row => exact absurd rfl (hrecord row)
    | close => exact absurd rfl hclose
    | _ =>
      rw [World.queue, hact.queue] at hb
      exact hb
  have hstill : (∀ row, act ≠ .record row) → act ≠ .close → act.account = none →
      (g'.holds a = true → g.holds a = true) →
      w'.rowsOf a + (if g'.holds a then 1 else 0) + act.account.toList.count a ≤
        w.rowsOf a + (if g.holds a then 1 else 0) +
          (act.recorded.toList.map (·.approvalId)).count a := by
    intro hrecord hclose haccount hholds
    have hrows := hle hrecord hclose
    have hifs : (if g'.holds a then 1 else 0) ≤ (if g.holds a then 1 else 0) := by
      split
      · next hold => rw [if_pos (hholds hold)]
      · exact Nat.zero_le _
    rw [haccount]
    simpa using Nat.le_add_right_of_le (Nat.add_le_add hrows hifs)
  cases hstep with
  | delete rows b approved happroved hrow =>
    by_cases hab : b = a
    · -- the row goes, and the pass holds its claim
      subst hab
      have hgone : b ∉ w'.queue := fun h => ((PassAct.mem_queue_delete hact).mp h).2 rfl
      simp [World.rowsOf, hgone, hclaim b rfl, PassAct.account, PassStage.holds,
        PassStage.deletes, PassStage.claims]
    · exact hstill (by simp) (by simp) rfl (by simp [PassStage.holds, PassStage.deletes,
        PassStage.claims, hab])
  | call rows b approved turn hturn =>
    -- the claim is given up for the call
    have hrows := hle (by simp) (by simp)
    by_cases hab : b = a <;>
      simp [PassStage.holds, PassStage.deletes, PassStage.claims, hab, PassAct.account, hturn,
        PassAct.recorded, hrows]
  | record g row hg =>
    have hrow : w'.rowsOf a ≤ w.rowsOf a + ([row].map (·.approvalId)).count a := by
      by_cases hab : row.approvalId = a
      · rw [World.rowsOf, World.rowsOf]
        split <;> simp [hab]
      · refine Nat.le_add_right_of_le ?_
        rw [World.rowsOf, World.rowsOf]
        split
        · next hmem =>
          rw [if_pos (((PassAct.mem_queue_record hact).mp hmem).resolve_right fun h => hab h.symm)]
        · exact Nat.zero_le _
    simp only [PassAct.account, PassAct.recorded, Option.toList, List.count_nil] at hrow ⊢
    omega
  | muddled => exact absurd rfl hmuddled
  | callApart | close => exact absurd rfl happart
  | other | commit => exact hstill (by simp) (by simp) rfl id
  | claim | keep | fetch | muddle | sweep | expire | swept | serve | drop | ended =>
    exact hstill (by simp) (by simp) rfl
      (by simp [PassStage.holds, PassStage.deletes, PassStage.claims])

/-! ## The balance of a run -/

/-- No pass was handed two rows of one approval, and the rows of the first world and those that
were recorded pay for the rows in the table, the claims and the calls. -/
structure Balanced (w₀ : World) (G : Tid → PassStage) (w : World) : Prop where
  sound : ∀ t, G t ≠ .muddled ∧ G t ≠ .apart
  finite : ∀ a, (holders a G).Finite
  paid : ∀ a, w.rowsOf a + (holders a G).ncard + (resumed w.trace).count a ≤
    w₀.rowsOf a + ((recordedRows w.trace).map (·.approvalId)).count a

/-- A pass that holds no claim starts, or ends. -/
theorem Balanced.update {w₀ : World} {G : Tid → PassStage} {t : Tid} {g : PassStage}
    (h : Balanced w₀ G w) (hsound : g ≠ .muddled ∧ g ≠ .apart) (hholds : ∀ a, g.holds a = false) :
    Balanced w₀ (Function.update G t g) w where
  sound u := by
    by_cases hu : u = t
    · subst hu
      rwa [Function.update_self]
    · rw [Function.update_of_ne hu]
      exact h.sound u
  finite a := (holders_update (h.finite a) t g).1
  paid a := by
    have hcard := (holders_update (h.finite a) t g).2
    have hpaid := h.paid a
    rw [hholds a, if_neg Bool.false_ne_true] at hcard
    omega

/-- The table hands out each approval once. -/
theorem PassStage.sound_of_step {act : PassAct} {g g' : PassStage} (hstep : PassStep g act g')
    (hact : PassChange act w w') (hsound : g ≠ .muddled ∧ g ≠ .apart) :
    g' ≠ .muddled ∧ g' ≠ .apart := by
  cases hstep with
  | muddle rows hnodup =>
    rw [hact.guard.2] at hnodup
    exact absurd w.db.pendingApprovals.nodup hnodup
  | other | commit | record => exact hsound
  | muddled => exact absurd rfl hsound.1
  | callApart | close => exact absurd rfl hsound.2
  | _ => exact ⟨nofun, nofun⟩

/-- Every run in which passes claim rows keeps the balance. -/
def balance (config : MatrixDispatcher.Config) (w₀ : World) :
    Invariant (overlappingSupervision config) claimsRow where
  inv := Balanced w₀
  effect := by
    intro G w w' t e a r g' _ hinv _ hallow hexec hnext
    have hact : PassChange (PassAct.of e r) w w' := exec_pass hexec
    have hstep := PassStage.step_cases hnext
    have hclaim : ∀ b, PassAct.of e r = .delete b .claim → b ∈ w.queue := by
      intro b hb
      obtain rfl := eq_of_delete hb
      exact hallow
    refine ⟨fun u => ?_, fun b => (holders_update (hinv.finite b) t g').1, fun b => ?_⟩
    · by_cases hu : u = t
      · subst hu
        rw [Function.update_self]
        exact PassStage.sound_of_step hstep hact (hinv.sound u)
      · rw [Function.update_of_ne hu]
        exact hinv.sound u
    · have hpay := holds_step b (hinv.sound t).1 hclaim (hinv.sound t).2 hstep hact
      have hcard := (holders_update (hinv.finite b) t g').2
      have hpaid := hinv.paid b
      rw [exec_resumed hexec, exec_passRecorded hexec, List.count_append, List.map_append,
        List.count_append]
      omega
  finish _ hinv _ := hinv.update ⟨nofun, nofun⟩ fun _ => rfl
  env := by
    intro G w w' a _ hinv _ henv
    cases a with
    | move m =>
      obtain ⟨htrace, hsame⟩ := moved_same henv
      have hdb : w'.db = w.db := hsame .db (by decide) (by decide) (by decide) (by decide)
      refine ⟨hinv.sound, hinv.finite, fun b => ?_⟩
      rw [World.rowsOf, World.queue, hdb, htrace]
      exact hinv.paid b
    | _ => cases henv
  start := by
    intro G w w' t fiber a _ hinv _ hstart _
    cases a with
    | pick n =>
      cases hstart
      exact hinv.update ⟨nofun, nofun⟩ fun _ => rfl
    | _ => cases hstart
  crash _ _ _ hcrash := by cases hcrash

/-! ## Two passes on one row -/

/-- The world in which an approval of the one agent has landed. -/
def oneApproved : World where
  __ := World.initial
  pool := true
  db :=
    { Tables.empty with
      sessions := Table.empty.insertOrReplace
        ⟨lit "$1", lit "!room", lit "agent", lit "5e55", 0, 0⟩
      pendingApprovals := Table.empty.insertOrReplace
        ⟨lit "a1", lit "$1", lit "5e55", lit "!room", lit "Bash", 0⟩ }
  approvals := Table.empty.insertOrReplace
    ⟨lit "a1", lit "agent", some (lit "Bash"), 0, .approved, none, none⟩

/-- `claimsRow`, evaluated. -/
def isRowClaimed (w : World) : Step → Bool
  | .effect _ (.sync (.execute (.deletePendingApproval a .claim))) _ => decide (a ∈ w.queue)
  | _ => true

theorem claimsRow_of_check (w : World) (e : Step) (h : isRowClaimed w e = true) :
    claimsRow w e := by
  rw [claimsRow.eq_def]
  split
  · exact of_decide_eq_true h
  · trivial

/-- What a scenario of passes reaches on `oneApproved`, where no child can be started. -/
theorem exists_overlap {allow : World → Step → Prop} (check : World → Step → Bool)
    {goal : Machine.Config Tid Eff Eff.Ret World → Bool}
    (hcheck : ∀ w e, check w e = true → allow w e) (cues : List Cue)
    (h : ((overlapping oneAgent).play noBinary (fun w e => check w e = true)
      (.ofWorld { oneApproved with trace := [] }) cues).any goal = true) :
    ∃ c, Overlaps oneAgent allow oneApproved c ∧ goal c = true :=
  Machine.exists_reachable hcheck h

/-- As long as passes claim rows that are in the table, every row of an approval (the one that the
table has at first, and those that are recorded) pays for one call of `resume_claude` at most, and
the one that is in the table has not been used for it. -/
theorem resumed_once_per_row (a : ApprovalId) {c : Machine.Config Tid Eff Eff.Ret World}
    (h : Overlaps config claimsRow w c) :
    (resumed c.world.trace).count a + c.world.rowsOf a ≤
      w.rowsOf a + ((recordedRows c.world.trace).map (·.approvalId)).count a := by
  have hinit : Balanced w (fun _ => .absent) { w with trace := [] } := by
    have hnone : ∀ a, holders a (fun _ => .absent) = ∅ := fun a =>
      Set.eq_empty_iff_forall_notMem.mpr fun _ => Bool.false_ne_true
    refine ⟨fun _ => ⟨nofun, nofun⟩, fun a => ?_, fun a => ?_⟩
    · rw [hnone]
      exact Set.finite_empty
    · rw [hnone, Set.ncard_empty]
      exact Nat.le_refl _
  obtain ⟨G, -, hinv⟩ := (balance config w).reachable h trivial hinit
  have := hinv.paid a
  omega

/-- One pass resumes the session; another one starts when the row is gone. -/
theorem resumed_once_per_row_approved : ∃ c, Overlaps oneAgent claimsRow oneApproved c ∧
    resumed c.world.trace = [lit "a1"] ∧
    (resumed c.world.trace).count (lit "a1") + c.world.rowsOf (lit "a1") ≤
      oneApproved.rowsOf (lit "a1") +
        ((recordedRows c.world.trace).map (·.approvalId)).count (lit "a1") := by
  obtain ⟨c, h, hgoal⟩ : ∃ c, Overlaps oneAgent claimsRow oneApproved c ∧
      (resumed c.world.trace == [lit "a1"]) = true :=
    exists_overlap isRowClaimed claimsRow_of_check
      [.step (.start (.pick 0)), .go (.handler 0) 13, .step (.start (.pick 1)), .go (.handler 1) 3]
      (by decide +kernel)
  exact ⟨c, h, by simpa using hgoal, resumed_once_per_row _ h⟩

/-- Two passes read the row and its state before either of them claims it. Both resume the
session. -/
theorem resumed_twice : ¬ ∀ c, Overlaps oneAgent (fun _ _ => True) oneApproved c →
    (resumed c.world.trace).count (lit "a1") ≤
      oneApproved.rowsOf (lit "a1") +
        ((recordedRows c.world.trace).map (·.approvalId)).count (lit "a1") := by
  intro hall
  obtain ⟨c, h, hgoal⟩ : ∃ c, Overlaps oneAgent (fun _ _ => True) oneApproved c ∧
      (resumed c.world.trace == [lit "a1", lit "a1"] && (recordedRows c.world.trace).isEmpty) =
        true :=
    exists_overlap (fun _ _ => true) (fun _ _ _ => trivial)
      [.step (.start (.pick 0)), .step (.start (.pick 1)), .go (.handler 0) 7, .go (.handler 1) 7,
        .go (.handler 0) 15, .go (.handler 1) 6]
      (by decide +kernel)
  obtain ⟨hresumed, hrecorded⟩ := Bool.and_eq_true_iff.mp hgoal
  have hle := hall c h
  rw [eq_of_beq hresumed, List.isEmpty_iff.mp hrecorded] at hle
  exact absurd hle (by decide +kernel)

end MatrixDispatcher
