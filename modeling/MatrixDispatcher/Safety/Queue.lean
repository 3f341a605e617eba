import MatrixDispatcher.Discipline.PassEffect

/-!
# Passes and the queue

The rows that a pass has read and not dealt with are still in `pending_approvals`, in every run:
only the reconcile loop deletes rows, and it is one task.

* `PassStage.Fits` — what a stage promises about the table.
* `PassInv` — every task's stage fits; `passInvariant` — every run keeps it.
-/

namespace MatrixDispatcher

open Coro

variable {config : MatrixDispatcher.Config} {G : Tid → PassStage} {w w' : World}

/-- The approvals that have a row on the connection. -/
def World.queue (w : World) : List ApprovalId := approvalsOf w.db.pendingApprovals.rows

/-- The rows are in the table, as far as the connection can tell. -/
def World.Queued (w : World) (rows : List PendingRow) : Prop :=
  w.dbOpen = true → approvalsOf rows ⊆ w.queue

/-- The rows are those of the table. -/
def World.Holds (w : World) (rows : List PendingRow) : Prop :=
  w.dbOpen = true ∧ rows = w.db.pendingApprovals.rows

theorem World.Holds.queued {rows : List PendingRow} (h : w.Holds rows) : w.Queued rows := by
  intro _ a ha
  rw [h.2] at ha
  exact ha

theorem mem_approvalsOf_without {rows : List PendingRow} {a b : ApprovalId} :
    b ∈ approvalsOf (without rows a) ↔ b ∈ approvalsOf rows ∧ b ≠ a := by
  constructor
  · intro h
    obtain ⟨row, hrow, rfl⟩ := List.mem_map.mp h
    obtain ⟨hmem, hne⟩ := mem_without.mp hrow
    exact ⟨List.mem_map_of_mem hmem, hne⟩
  · rintro ⟨h, hne⟩
    obtain ⟨row, hrow, rfl⟩ := List.mem_map.mp h
    exact List.mem_map_of_mem (mem_without.mpr ⟨hrow, hne⟩)

/-- What the delete statement leaves. -/
theorem rows_deleteWhere (w : World) (a : ApprovalId) :
    (w.db.pendingApprovals.deleteWhere fun row => row.approvalId == a).rows =
      without w.db.pendingApprovals.rows a := by
  refine List.filter_congr fun row _ => ?_
  by_cases h : row.approvalId = a <;> simp [h]

namespace PassAct

/-- The approvals on the connection after the rows of an approval are deleted. -/
theorem mem_queue_delete {a b : ApprovalId} {site : DeleteSite}
    (h : PassChange (.delete a site) w w') : b ∈ w'.queue ↔ b ∈ w.queue ∧ b ≠ a := by
  rw [World.queue, h.queue, PassAct.queue, rows_deleteWhere, mem_approvalsOf_without]
  exact Iff.rfl

/-- The approvals on the connection after a row is recorded. -/
theorem mem_queue_record {row : PendingRow} {b : ApprovalId}
    (h : PassChange (.record row) w w') : b ∈ w'.queue ↔ b ∈ w.queue ∨ b = row.approvalId := by
  simp only [World.queue, approvalsOf, h.queue, PassAct.queue, List.mem_map, ← Table.mem_def,
    Table.mem_insertOrReplace]
  constructor
  · rintro ⟨r, ⟨hmem, -⟩ | rfl, rfl⟩
    · exact .inl ⟨r, hmem, rfl⟩
    · exact .inr rfl
  · rintro (⟨r, hmem, rfl⟩ | rfl)
    · by_cases heq : r.approvalId = row.approvalId
      · exact ⟨row, .inr rfl, heq.symm⟩
      · exact ⟨r, .inl ⟨hmem, heq⟩, rfl⟩
    · exact ⟨row, .inr rfl, rfl⟩

end PassAct

namespace PassStage

/-- What a stage promises about the table. -/
def Fits (w : World) : PassStage → Prop
  | fetched rows | sweeping _ rows => w.Holds rows
  | live rows | working rows _ => w.Queued rows
  | deleting rows a _ => w.Queued rows ∧ a ∉ approvalsOf rows ∧ a ∉ w.queue
  | claimed rows a _ => w.Queued rows ∧ a ∉ approvalsOf rows
  | muddled => False
  | absent | apart | outside => True

/-- The table and the connection do not change. -/
theorem Fits.same {g : PassStage} (h : g.Fits w)
    (hqueue : w'.db.pendingApprovals = w.db.pendingApprovals) (hopen : w'.dbOpen = w.dbOpen) :
    g.Fits w' := by
  have hholds : ∀ {rows}, w.Holds rows → w'.Holds rows := fun ⟨h₁, h₂⟩ =>
    ⟨hopen.trans h₁, by rw [hqueue, h₂]⟩
  have hall : w'.queue = w.queue := by rw [World.queue, World.queue, hqueue]
  have hqueued : ∀ {rows}, w.Queued rows → w'.Queued rows := fun h h₁ => by
    rw [hall]
    exact h (hopen ▸ h₁)
  cases g with
  | fetched rows | sweeping now rows => exact hholds h
  | live rows | working rows _ => exact hqueued h
  | deleting rows a _ => exact ⟨hqueued h.1, h.2.1, hall ▸ h.2.2⟩
  | claimed rows a _ => exact ⟨hqueued h.1, h.2⟩
  | _ => exact h

/-- While a stage may stand, rows may come in and the connection may be closed. -/
theorem Fits.grow {g : PassStage} (h : g.Fits w) (hg : g.isAtomic = false)
    (hqueue : w'.dbOpen = true → w.dbOpen = true ∧ w.queue ⊆ w'.queue) : g.Fits w' := by
  have hqueued : ∀ {rows}, w.Queued rows → w'.Queued rows := fun h h₁ =>
    List.Subset.trans (h (hqueue h₁).1) (hqueue h₁).2
  cases g with
  | fetched _ | sweeping _ _ | deleting _ _ _ => cases hg
  | live rows | working rows _ => exact hqueued h
  | claimed rows a _ => exact ⟨hqueued h.1, h.2⟩
  | _ => exact h

/-- A stage that is not one of the reconcile loop promises nothing. -/
theorem Fits.of_apart {g : PassStage} (h : g.reconciles = false) : g.Fits w := by
  cases g <;> first | exact trivial | cases h

/-- An act of a task keeps what its own stage promises. -/
theorem Fits.step {g g' : PassStage} {act : PassAct} (h : g.Fits w) (hstep : PassStep g act g')
    (hact : PassChange act w w') : g'.Fits w' := by
  have hguard := hact.guard
  -- A deletion takes one approval out of the queue, and leaves the others.
  have hkeep : ∀ {rows a}, (∀ b, b ∈ w'.queue ↔ b ∈ w.queue ∧ b ≠ a) → w.dbOpen = true →
      w.Queued rows → w'.Queued (without rows a) := by
    intro rows a hqueue hopen hrows _ b hb
    obtain ⟨hmem, hne⟩ := mem_approvalsOf_without.mp hb
    exact (hqueue b).mpr ⟨hrows hopen hmem, hne⟩
  cases hstep with
  | muddled => exact h
  | muddle rows hnodup =>
    refine absurd ?_ hnodup
    rw [hguard.2]
    exact w.db.pendingApprovals.nodup
  | fetch rows hnodup => exact ⟨hact.isOpen.trans hguard.1, by rw [hact.queue, hguard.2]; rfl⟩
  | other | commit | sweep => exact h.same hact.queue hact.isOpen
  | record _ row hcalm =>
    refine h.grow hcalm fun hopen => ⟨hact.isOpen.symm.trans hopen, fun b hb => ?_⟩
    exact (PassAct.mem_queue_record hact).mpr (.inl hb)
  | expire now rows row hrow hage =>
    refine ⟨hact.isOpen.trans hguard, ?_⟩
    rw [hact.queue, PassAct.queue, rows_deleteWhere, h.2]
  | swept now rows ids hids =>
    exact World.Holds.queued ⟨hact.isOpen.trans h.1, by rw [hact.queue]; exact h.2⟩
  | serve rows states =>
    exact Fits.same (g := .live rows) h hact.queue hact.isOpen
  -- The claim: the row leaves the queue before the runner is called.
  | delete rows a approved happroved hrow =>
    have hqueue : ∀ b, b ∈ w'.queue ↔ _ := fun b => PassAct.mem_queue_delete hact
    refine ⟨hkeep hqueue hguard h, ?_, ?_⟩
    · exact fun hmem => (mem_approvalsOf_without.mp hmem).2 rfl
    · exact fun hmem => ((hqueue a).mp hmem).2 rfl
  | drop rows a approved site hsite hrow =>
    exact hkeep (fun b => PassAct.mem_queue_delete hact) hguard h
  | claim rows a approved =>
    obtain ⟨hqueued, hnot, -⟩ := Fits.same h hact.queue hact.isOpen
    exact ⟨hqueued, hnot⟩
  | keep => exact (Fits.same h hact.queue hact.isOpen).1
  | call => exact (Fits.same h hact.queue hact.isOpen).1
  | callApart | close | ended => exact trivial

/-- An act of another task keeps what a stage promises, if that task makes no passes. -/
theorem Fits.step_other {g h h' : PassStage} {act : PassAct} (hfits : g.Fits w)
    (hg : g.isAtomic = false) (hh : h.reconciles = false) (hstep : PassStep h act h')
    (hact : PassChange act w w') : g.Fits w' := by
  refine hfits.grow hg fun hopen => ?_
  have hsame : act.queue w = w.db.pendingApprovals → act.isOpen w = w.dbOpen →
      w.dbOpen = true ∧ w.queue ⊆ w'.queue := fun hqueue hisOpen => by
    refine ⟨(hact.isOpen.trans hisOpen).symm.trans hopen, ?_⟩
    rw [World.queue, World.queue, hact.queue, hqueue]
    exact List.Subset.refl _
  cases hstep with
  | other | commit | callApart => exact hsame rfl rfl
  | record _ row _ =>
    exact ⟨hact.isOpen.symm.trans hopen, fun b hb => (PassAct.mem_queue_record hact).mpr (.inl hb)⟩
  | close =>
    have hclosed : w'.dbOpen = false := hact.isOpen
    simp [hclosed] at hopen
  | ended _ hover => simp [hh] at hover
  | _ => cases hh

/-- A task that makes no passes does not begin to make them. -/
theorem reconciles_step {g g' : PassStage} {act : PassAct} (hstep : PassStep g act g')
    (h : g'.reconciles = true) : g.reconciles = true := by
  cases hstep <;> first | rfl | exact h | assumption

end PassStage

/-- The stages of the tasks fit the table, and only the reconcile loop makes passes. -/
structure PassInv (G : Tid → PassStage) (w : World) : Prop where
  alone : ∀ t, (G t).reconciles = true → t = .reconcile
  fits : ∀ t, (G t).Fits w

namespace PassInv

variable {t : Tid} {g' : PassStage}

/-- A task goes on to a stage that fits, and the others still fit. -/
theorem move (h : PassInv G w) (halone : g'.reconciles = true → t = .reconcile)
    (hfits : g'.Fits w') (hothers : ∀ u, u ≠ t → (G u).Fits w') :
    PassInv (Function.update G t g') w' where
  alone u hu := by
    by_cases hut : u = t
    · subst hut
      exact halone (by rwa [Function.update_self] at hu)
    · rw [Function.update_of_ne hut] at hu
      exact h.alone u hu
  fits u := by
    by_cases hut : u = t
    · subst hut
      rwa [Function.update_self]
    · rw [Function.update_of_ne hut]
      exact hothers u hut

/-- Acts of passes keep the invariant. -/
theorem step {act : PassAct} (h : PassInv G w) (hatomic : ∀ u, u ≠ t → (G u).isAtomic = false)
    (hstep : PassStep (G t) act g') (hact : PassChange act w w') :
    PassInv (Function.update G t g') w' := by
  refine h.move (fun hg' => h.alone t (PassStage.reconciles_step hstep hg'))
    ((h.fits t).step hstep hact) fun u hut => ?_
  by_cases ht : (G t).reconciles = true
  · -- the reconcile loop is alone, so the other task promises nothing
    refine .of_apart (Bool.eq_false_iff.mpr fun hu => hut ?_)
    exact (h.alone u hu).trans (h.alone t ht).symm
  · exact (h.fits u).step_other (hatomic u hut) (by simpa using ht) hstep hact

end PassInv

/-- Every run keeps the invariant, whatever happens in it. -/
def passInvariant (config : MatrixDispatcher.Config) (allow : World → Step → Prop) :
    Invariant (passCoverage config).supervision allow where
  inv := PassInv
  effect _ hinv hatomic _ hexec hnext :=
    hinv.step hatomic (PassStage.step_cases hnext) (exec_pass hexec)
  finish := by
    intro G w t _ hinv hfinal
    show PassInv (Function.update G t .absent) w
    exact hinv.move (by simp [PassStage.reconciles]) trivial fun u _ => hinv.fits u
  env := by
    intro G w w' a _ hinv _ henv
    obtain ⟨m, -, hmoved⟩ := env_eq henv
    have hdb : w'.db = w.db :=
      (moved_same hmoved).2 .db (by decide) (by decide) (by decide) (by decide)
    have hopen : w'.dbOpen = w.dbOpen :=
      (moved_same hmoved).2 .dbOpen (by decide) (by decide) (by decide) (by decide)
    exact ⟨hinv.alone, fun t => (hinv.fits t).same (by rw [hdb]) hopen⟩
  start := by
    intro G w w' t fiber a hgood hinv _ hstart habsent
    obtain ⟨n, request, henter, hruns, rfl⟩ := (passCoverage config).start_good hgood hstart
    rw [henter]
    refine hinv.move ?_ ?_ fun u _ => (hinv.fits u).same rfl rfl
    · cases request <;> cases t <;>
        first
          | exact fun _ => rfl
          | exact fun h => Bool.noConfusion h
          | exact Bool.noConfusion hruns
    · cases request <;> exact trivial
  crash := by
    intro G w w' a _ hinv _ hcrash
    exact ⟨by simp [passMonitor, PassStage.reconciles], fun _ => trivial⟩

theorem PassInv.initial : PassInv (fun _ => .absent) World.initial :=
  ⟨by simp [PassStage.reconciles], fun _ => trivial⟩

end MatrixDispatcher
