import MatrixDispatcher.Safety.Recording
import MatrixDispatcher.Safety.RoomLock

/-!
# Approvals and the turns they come from

A recorded row names the session, the thread and the room of the turn in which its approval was
minted. The dispatcher knows the agent and a time window only; that this is enough rests on the
room lock, which keeps the turns of an agent apart.

* `mintedByChildren` — the assumption on who mints approvals.
* `MintedIn` — the approval comes from the child of a turn.
* `recorded_correlates` — every recorded row names the turn its approval comes from.
-/

namespace MatrixDispatcher

open Coro

variable {config : MatrixDispatcher.Config} {G : Tid → TurnStage} {w w' : World}

theorem TurnStage.turn?_of_child? {g : TurnStage} {turn : Turn} {pid : Pid}
    (h : g.child? = some (turn, pid)) : g.turn? = some turn := by
  cases g <;> cases h <;> rfl

theorem TurnStage.room?_of_turn? {g : TurnStage} {turn : Turn} (h : g.turn? = some turn) :
    g.room? = some turn.roomId := by
  cases g <;> cases h <;> rfl

/-- Approvals of an agent are minted by children of the agent while they run. -/
def mintedByChildren (w : World) : Step → Prop
  | .env (.move (.mint a)) => ∃ pid child, a.mintedBy = some pid ∧ w.procs[pid]? = some child ∧
      child.status = .alive ∧ child.agentId = a.agentId
  | _ => True

/-- Runs without restart and shutdown, under the assumptions on approvals. -/
def correlating (w : World) (e : Step) : Prop :=
  beforeShutdown w e ∧ ticking w e ∧ mintedByChildren w e

/-- `mintedByChildren`, evaluated. -/
def isMintedByChild (w : World) : Step → Bool
  | .env (.move (.mint a)) => a.mintedBy.any fun pid => (w.procs[pid]?).any fun child =>
      decide (child.status = .alive) && decide (child.agentId = a.agentId)
  | _ => true

theorem mintedByChildren_of_check (w : World) (e : Step) (h : isMintedByChild w e = true) :
    mintedByChildren w e := by
  rw [mintedByChildren.eq_def]
  split
  · obtain ⟨pid, hpid, h⟩ := (Option.any_eq_true ..).mp h
    obtain ⟨child, hchild, h⟩ := (Option.any_eq_true ..).mp h
    obtain ⟨hstatus, hagent⟩ := Bool.and_eq_true_iff.mp h
    exact ⟨pid, child, hpid, hchild, of_decide_eq_true hstatus, of_decide_eq_true hagent⟩
  · trivial

/-- `correlating`, evaluated. -/
def correlates (w : World) (e : Step) : Bool :=
  isBeforeShutdown e && ticks w e && isMintedByChild w e

theorem correlating_of_correlates (w : World) (e : Step) (h : correlates w e = true) :
    correlating w e := by
  rw [correlates, Bool.and_eq_true, Bool.and_eq_true] at h
  exact ⟨beforeShutdown_of_check w e h.1.1, ticking_of_ticks w e h.1.2,
    mintedByChildren_of_check w e h.2⟩

/-- The approval was minted by the child of the turn. -/
def MintedIn (w : World) (a : Approval) (turn : Turn) : Prop :=
  ∃ pid child, a.mintedBy = some pid ∧ w.procs[pid]? = some child ∧ child.turn = turn

/-- Children that exist stay the children of their turns. -/
def ProcsKept (w w' : World) : Prop :=
  ∀ (pid : Pid) p, w.procs[pid]? = some p → ∃ p', w'.procs[pid]? = some p' ∧ p'.turn = p.turn

theorem ProcsSame.procsKept (h : ProcsSame w w') : ProcsKept w w' := fun pid p hp => by
  obtain ⟨p', hp', -, hturn, -⟩ := h.kept pid p hp
  exact ⟨p', hp', hturn⟩

theorem MintedIn.mono {a : Approval} {turn : Turn} (hkept : ProcsKept w w')
    (h : MintedIn w a turn) : MintedIn w' a turn := by
  obtain ⟨pid, child, hby, hpid, rfl⟩ := h
  obtain ⟨child', hpid', hturn⟩ := hkept pid child hpid
  exact ⟨pid, child', hby, hpid', hturn⟩

/-- The row names the turn that its approval comes from. -/
def Correlated (w : World) (row : PendingRow) : Prop :=
  ∃ a ∈ w.minted, a.approvalId = row.approvalId ∧ ∃ turn, MintedIn w a turn ∧
    turn.sessionId = row.sessionId ∧ turn.threadRootId = row.threadRootId ∧
    turn.roomId = row.roomId

/-- What is known of the approvals in the window of a turn. -/
structure CorrelationInv (config : MatrixDispatcher.Config) (G : Tid → TurnStage) (w : World) :
    Prop where
  agent : ∀ (pid : Pid) child, w.procs[pid]? = some child → child.status = .alive →
    child.agentId = child.turn.agentName
  timed : ∀ t room start, G t = .timed room start →
    ∀ a ∈ w.minted, config.agentOf room = some a.agentId → a.createdAt < start
  window : ∀ t room start turn, (G t).window? = some (room, start) → (G t).turn? = some turn →
    ∀ a ∈ w.minted, a.agentId = turn.agentName → start ≤ a.createdAt → MintedIn w a turn
  found : ∀ t start turn id, G t = .queried start turn (some id) →
    ∃ a ∈ w.minted, a.approvalId = id ∧ MintedIn w a turn
  recorded : ∀ row ∈ recordedRows w.trace, Correlated w row

namespace CorrelationInv

variable {t : Tid} {g' : TurnStage}

theorem Correlated.mono {row : PendingRow} (hkept : ProcsKept w w') (hminted : w.minted ⊆ w'.minted)
    (h : Correlated w row) : Correlated w' row := by
  obtain ⟨a, ha, hid, turn, hturn, hrow⟩ := h
  exact ⟨a, hminted ha, hid, turn, hturn.mono hkept, hrow⟩

/-- A task goes on; a window that it opens is empty as yet. -/
theorem move (h : CorrelationInv config G w) (hkept : ProcsKept w w')
    (hagent : ∀ (pid : Pid) child, w'.procs[pid]? = some child → child.status = .alive →
      child.agentId = child.turn.agentName)
    (hminted : w'.minted = w.minted)
    (htimed : ∀ room start, g' = .timed room start → G t = .timed room start ∨
      ∀ a ∈ w.minted, a.createdAt < start)
    (hwindow : ∀ room start turn, g'.window? = some (room, start) → g'.turn? = some turn →
      (G t).window? = some (room, start) ∧ (G t).turn? = some turn ∨
        G t = .timed room start ∧ config.agentOf room = some turn.agentName)
    (hfound : ∀ start turn id, g' = .queried start turn (some id) →
      ∃ a ∈ w.minted, a.approvalId = id ∧ MintedIn w a turn)
    (hrecorded : ∀ row ∈ recordedRows w'.trace, row ∈ recordedRows w.trace ∨ Correlated w row) :
    CorrelationInv config (Function.update G t g') w' := by
  constructor
  case agent => exact hagent
  case timed =>
    intro u room start hu
    rw [hminted]
    by_cases hut : u = t
    · subst hut
      rw [Function.update_self] at hu
      rcases htimed room start hu with hold | hnew
      · exact h.timed u room start hold
      · exact fun a ha _ => hnew a ha
    · rw [Function.update_of_ne hut] at hu
      exact h.timed u room start hu
  case window =>
    intro u room start turn hu hturn a ha hname hstart
    rw [hminted] at ha
    refine MintedIn.mono hkept ?_
    by_cases hut : u = t
    · subst hut
      rw [Function.update_self] at hu hturn
      rcases hwindow room start turn hu hturn with ⟨hold, hturn'⟩ | ⟨hg, hroom⟩
      · exact h.window u room start turn hold hturn' a ha hname hstart
      · have hlt := h.timed u room start hg a ha (by rw [hroom, hname])
        exact absurd hstart (not_le.mpr hlt)
    · rw [Function.update_of_ne hut] at hu hturn
      exact h.window u room start turn hu hturn a ha hname hstart
  case found =>
    intro u start turn id hu
    -- What the registry has named was minted in the turn, and still is.
    have hold : ∃ a ∈ w.minted, a.approvalId = id ∧ MintedIn w a turn := by
      by_cases hut : u = t
      · subst hut
        rw [Function.update_self] at hu
        exact hfound start turn id hu
      · rw [Function.update_of_ne hut] at hu
        exact h.found u start turn id hu
    obtain ⟨a, ha, hid, hin⟩ := hold
    exact ⟨a, hminted ▸ ha, hid, hin.mono hkept⟩
  case recorded =>
    intro row hrow
    refine Correlated.mono hkept (hminted ▸ List.Subset.refl _) ?_
    rcases hrecorded row hrow with hold | hnew
    · exact h.recorded row hold
    · exact hnew

/-- The world changes without a new approval, and no task goes on. -/
theorem moved (h : CorrelationInv config G w) (hprocs : ProcsSame w w')
    (hminted : w'.minted = w.minted) (htrace : w'.trace = w.trace) :
    CorrelationInv config G w' := by
  have hmove := h.move (t := .main) hprocs.procsKept
    (fun pid child hpid halive => h.agent pid child (hprocs.alive pid child hpid halive) halive)
    hminted (fun _ _ => .inl) (fun _ _ _ hwindow hturn => .inl ⟨hwindow, hturn⟩) (h.found .main)
    (by rw [htrace]; exact fun _ => .inl)
  rwa [Function.update_eq_self] at hmove

/-- A child of an agent mints an approval: only the turn of the child sees it in its window. -/
theorem mint (hone : OneRoom config) (hlock : LockInv G w) (hchild : ChildInv G w)
    (hrecord : RecordInv config G w) (h : CorrelationInv config G w) {a : Approval} {pid : Pid}
    {child : Proc} (hby : a.mintedBy = some pid) (hpid : w.procs[pid]? = some child)
    (halive : child.status = .alive) (hname : child.agentId = a.agentId)
    (hprocs : w'.procs = w.procs) (hminted : w'.minted = w.minted ++ [a.mint])
    (htrace : w'.trace = w.trace) : CorrelationInv config G w' := by
  have hkept : ProcsKept w w' := (ProcsSame.of_eq hprocs).procsKept
  have hstage := hchild.alive pid child hpid halive
  have hroom := TurnStage.room?_of_child? hstage
  have hturn : (G child.starter).turn? = some child.turn := TurnStage.turn?_of_child? hstage
  have hchildAgent : config.agentOf child.turn.roomId = some a.agentId := by
    rw [hrecord.agents _ _ hturn, ← hname, h.agent pid child hpid halive]
  -- whoever is in a turn of the agent is the starter of the child
  have hstarter : ∀ {u room}, (G u).room? = some room → config.agentOf room = some a.agentId →
      u = child.starter := by
    intro u room hu hagent
    obtain rfl := hone hagent hchildAgent
    exact hlock.unique hu hroom
  have hmem : ∀ {b}, b ∈ w'.minted → b ∈ w.minted ∨ b = a.mint := by
    intro b hb
    simpa [hminted] using hb
  constructor
  case agent =>
    rw [hprocs]
    exact h.agent
  case timed =>
    intro u room start hu b hb hagent
    rcases hmem hb with hb | rfl
    · exact h.timed u room start hu b hb hagent
    · obtain rfl := hstarter (by rw [hu]; rfl) hagent
      rw [hu] at hstage
      cases hstage
  case window =>
    intro u room start turn hu hturn' b hb hbname hstart
    rcases hmem hb with hb | rfl
    · exact (h.window u room start turn hu hturn' b hb hbname hstart).mono hkept
    · have hagent : config.agentOf turn.roomId = some a.agentId := by
        rw [hrecord.agents u turn hturn', ← hbname]
        rfl
      obtain rfl := hstarter (TurnStage.room?_of_turn? hturn') hagent
      rw [hturn] at hturn'
      obtain rfl := Option.some.inj hturn'
      exact ⟨pid, child, hby, by rw [hprocs]; exact hpid, rfl⟩
  case found =>
    intro u start turn id hu
    obtain ⟨b, hb, hid, hin⟩ := h.found u start turn id hu
    exact ⟨b, hminted ▸ List.mem_append_left _ hb, hid, hin.mono hkept⟩
  case recorded =>
    intro row hrow
    rw [htrace] at hrow
    exact Correlated.mono hkept (hminted ▸ List.subset_append_left _ _) (h.recorded row hrow)

/-- Acts of turns keep the invariant. -/
theorem step {act : TurnAct} (hrecord : RecordInv config G w) (h : CorrelationInv config G w)
    (hstep : TurnStep config (G t) act g') (hact : TurnChange t act w w')
    (htick : ∀ now, act = .clock now → w.clock < now) (hminted : w'.minted = w.minted)
    (hrecorded : recordedRows w'.trace = act.recorded.toList ++ recordedRows w.trace) :
    CorrelationInv config (Function.update G t g') w' := by
  have hguard := hact.guard
  have hprocs := hact.procs
  have htimed := h.timed t
  have hfound := h.found t
  generalize hg : G t = g at hstep htimed hfound
  -- Without a new record, the recorded rows are those before.
  have hold : act.recorded = none →
      ∀ row ∈ recordedRows w'.trace, row ∈ recordedRows w.trace ∨ Correlated w row := by
    intro hnone row hrow
    rw [hrecorded, hnone] at hrow
    exact .inl hrow
  have hsame : ∀ (_ : w'.procs = w.procs) (pid : Pid) child, w'.procs[pid]? = some child →
      child.status = .alive → child.agentId = child.turn.agentName := by
    intro heq pid child hpid
    rw [heq] at hpid
    exact h.agent pid child hpid
  cases hstep with
  -- The window opens behind everything that was minted so far.
  | clock room now =>
    have hnow := htick now rfl
    refine h.move (ProcsSame.of_eq hprocs).procsKept (hsame hprocs) hminted ?_
      (by simp [TurnStage.turn?]) (by simp) (hold rfl)
    rintro _ _ ⟨⟩
    exact .inr fun a ha => (hrecord.minted a ha).trans_lt hnow
  | call start turn hagent =>
    refine h.move (ProcsSame.of_eq hprocs).procsKept (hsame hprocs) hminted (by simp) ?_ (by simp)
      (hold rfl)
    rintro _ _ _ ⟨⟩ ⟨⟩
    exact .inr ⟨hg, hagent⟩
  -- The new child is that of the turn, and the others are as before.
  | launch start turn pid =>
    obtain ⟨argv, cwd, heq⟩ := hprocs
    have hget : ∀ {pid : Pid} {child}, w'.procs[pid]? = some child →
        w.procs[pid]? = some child ∨ child = ⟨t, turn, argv, cwd, turn.agentName, .alive⟩ := by
      intro pid child hpid
      rw [heq] at hpid
      by_cases hlt : pid < w.procs.length
      · rw [List.getElem?_append_left hlt] at hpid
        exact .inl hpid
      · rw [List.getElem?_append_right (not_lt.mp hlt)] at hpid
        exact .inr (List.mem_singleton.mp (List.mem_of_getElem? hpid))
    refine h.move (fun pid p hp => ⟨p, ?_, rfl⟩) (fun pid child hpid halive => ?_) hminted (by simp)
      ?_ (by simp) (hold rfl)
    · rw [heq, List.getElem?_append_left (List.getElem?_eq_some_iff.mp hp).1, hp]
    · rcases hget hpid with hpid | rfl
      · exact h.agent pid child hpid halive
      · rfl
    · rw [hg]
      exact fun room start' turn' hwindow hturn => .inl ⟨hwindow, hturn⟩
  | query start turn found =>
    refine h.move (ProcsSame.of_eq hprocs).procsKept (hsame hprocs) hminted (by simp) ?_ ?_
      (hold rfl)
    · rw [hg]
      exact fun room start' turn' hwindow hturn => .inl ⟨hwindow, hturn⟩
    · rintro _ _ id ⟨⟩
      obtain ⟨a, hlatest, rfl⟩ := Option.map_eq_some_iff.mp hguard.symm
      obtain ⟨hmem, hagent, -, hsince⟩ := latestPending_spec hlatest
      exact ⟨a.mint, List.mem_map_of_mem hmem, rfl, h.window t turn.roomId start turn
        (by rw [hg]; rfl) (by rw [hg]; rfl) a.mint (List.mem_map_of_mem hmem) hagent hsince⟩
  -- The row that is recorded is of the approval that the registry named.
  | record start turn row hsession hthread hroom =>
    refine h.move (ProcsSame.of_eq hprocs).procsKept (hsame hprocs) hminted (by simp)
      (by simp [TurnStage.window?]) (by simp) ?_
    intro row' hrow'
    rw [hrecorded] at hrow'
    rcases List.mem_append.mp hrow' with hnew | hrow'
    · obtain rfl : row' = row := by simpa [TurnAct.recorded] using hnew
      obtain ⟨a, ha, hid, hin⟩ := hfound start turn _ rfl
      exact .inr ⟨a, ha, hid, turn, hin, hsession.symm, hthread.symm, hroom.symm⟩
    · exact .inl hrow'
  | leave start turn pid outcome fate g' hfate hgone heq =>
    subst heq
    refine h.move (ProcsSame.of_eq hprocs).procsKept (hsame hprocs) hminted ?_ ?_ ?_ (hold rfl)
    · split <;> simp
    · split
      · rw [hg]
        exact fun room start' turn' hwindow hturn => .inl ⟨hwindow, hturn⟩
      · simp [TurnStage.window?]
    · split <;> simp
  | other | interrupt | create | miss =>
    refine h.move (ProcsSame.of_eq hprocs).procsKept (hsame hprocs) hminted ?_ ?_ hfound (hold rfl)
    · rw [hg]
      exact fun room start heq => .inl heq
    · rw [hg]
      exact fun room start turn hwindow hturn => .inl ⟨hwindow, hturn⟩
  | register | gone | lost | pop =>
    refine h.move (ProcsSame.of_eq hprocs).procsKept (hsame hprocs) hminted (by simp) ?_ (by simp)
      (hold rfl)
    rw [hg]
    exact fun room start turn hwindow hturn => .inl ⟨hwindow, hturn⟩
  | _ =>
    exact h.move (ProcsSame.of_eq hprocs).procsKept (hsame hprocs) hminted (by simp)
      (by simp [TurnStage.window?]) (by simp) (hold rfl)

end CorrelationInv

/-- What the correlation rests on. -/
def correlationBase (hone : OneRoom config) :
    Invariant (turnCoverage config).supervision correlating :=
  ((roomInvariant config).restrict fun _ _ h => h.1).inter
    ((recordInvariant hone).restrict fun _ _ h => h.2.1)

/-- Every run without restart and shutdown keeps the invariant. -/
def correlationExtension (hone : OneRoom config) : (correlationBase hone).Extension where
  inv := CorrelationInv config
  effect := by
    intro G w w' t e a r g' _ hbase _ hinv _ hallow hexec hnext
    exact hinv.step hbase.2.2 (TurnStage.step_cases hnext) (exec_turn hexec)
      (fun now => tick_of_clock hallow.2.1 hexec) (exec_minted hexec) (exec_recorded hexec)
  finish := by
    intro G w t _ hinv hfinal
    show CorrelationInv config (Function.update G t .absent) w
    exact hinv.move (ProcsSame.of_eq rfl).procsKept hinv.agent rfl (by simp)
      (by simp [TurnStage.window?]) (by simp) fun _ => .inl
  env := by
    intro G w w' a hbase _ hinv hallow henv
    obtain ⟨m, rfl, hmoved⟩ := env_eq henv
    obtain ⟨htrace, -⟩ := moved_same hmoved
    rcases moved_minted hmoved with ⟨a, rfl, hminted, -⟩ | ⟨hminted, -⟩
    · obtain ⟨pid, child, hby, hpid, halive, hname⟩ := hallow.2.2
      rw [World.moved] at hmoved
      split at hmoved <;> cases hmoved
      exact hinv.mint hone hbase.1.1 hbase.1.2 hbase.2.2 hby hpid halive hname rfl hminted rfl
    · exact hinv.moved (.moved hmoved) hminted htrace
  start := by
    intro G w w' t fiber a hgood _ hinv _ hstart habsent
    obtain ⟨n, request, henter, hruns, rfl⟩ := (turnCoverage config).start_good hgood hstart
    rw [henter]
    refine hinv.move (ProcsSame.of_eq rfl).procsKept hinv.agent rfl ?_ ?_ ?_ fun _ => .inl <;>
      cases request <;> simp [turnCoverage, TurnStage.window?]
  crash := by
    intro G w w' a _ _ hallow _
    exact hallow.1.elim

/-- Every row that is ever recorded names the session, the thread and the room of the turn whose
child minted the approval. -/
theorem recorded_correlates (hkeys : (config.agents.map Prod.fst).Nodup)
    {c : Machine.Config Tid Eff Eff.Ret World} (h : Reaches config correlating c)
    {row : PendingRow} (hrow : Obs.recorded row ∈ c.world.trace) :
    ∃ a ∈ c.world.approvals, a.approvalId = row.approvalId ∧
      ∃ pid child, a.mintedBy = some pid ∧ c.world.procs[pid]? = some child ∧
        child.turn.sessionId = row.sessionId ∧ child.turn.threadRootId = row.threadRootId ∧
        child.turn.roomId = row.roomId := by
  have hone : OneRoom config := oneRoom_of_nodup hkeys
  have hinit : CorrelationInv config (fun _ => .absent) World.initial := by
    refine ⟨?_, by simp, by simp [TurnStage.window?], by simp, ?_⟩ <;>
      simp [World.initial, recordedRows]
  obtain ⟨G, -, -, hinv⟩ := ((correlationBase hone).extend (correlationExtension hone)).reachable h
    (turnCoverage config).good_initial
    ⟨⟨⟨.idle fun _ => rfl, .initial⟩, .idle fun _ => rfl, .initial⟩, hinit⟩
  obtain ⟨a, ha, hid, turn, ⟨pid, child, hby, hpid, rfl⟩, hrow⟩ :=
    hinv.recorded row (mem_recordedRows.mpr hrow)
  obtain ⟨b, hb, rfl⟩ := List.mem_map.mp ha
  exact ⟨b, hb, hid, pid, child, hby, hpid, hrow⟩

theorem recorded_correlates_gating : ∃ c row, Reaches oneAgent correlating c ∧
    Obs.recorded row ∈ c.world.trace ∧
    ∃ a ∈ c.world.approvals, a.approvalId = row.approvalId ∧
      ∃ pid child, a.mintedBy = some pid ∧ c.world.procs[pid]? = some child ∧
        child.turn.sessionId = row.sessionId ∧ child.turn.threadRootId = row.threadRootId ∧
        child.turn.roomId = row.roomId := by
  obtain ⟨c, h, hgoal⟩ := reaches_of_play oneAgent gating
    (fun c => !(recordedRows c.world.trace).isEmpty) correlating_of_correlates (by decide +kernel)
  obtain ⟨row, hrow⟩ := List.exists_mem_of_ne_nil _ (by simpa using hgoal)
  have hrow := mem_recordedRows.mp hrow
  exact ⟨c, row, h, hrow, recorded_correlates (by decide) h hrow⟩

end MatrixDispatcher
