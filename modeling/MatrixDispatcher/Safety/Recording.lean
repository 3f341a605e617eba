import MatrixDispatcher.Safety.Locks

/-!
# Approvals and turn windows

A turn reads the clock under the room lock and later asks for a pending approval created since.
If approvals and turns are stamped by one strictly increasing clock and every agent has one room,
the windows of an agent's turns are disjoint, also across restarts, so no approval is found by two
turns.

* `World.minted` — the approvals, without what changes in them.
* `ticking` — the assumption on the clock.
* `RecordInv` — turns still open began after every approval that was recorded.
* `recorded_once` — an approval is recorded at most once in a whole run.
-/

namespace MatrixDispatcher

open Coro

variable {config : MatrixDispatcher.Config} {G : Tid → TurnStage} {w w' : World}

/-! ## Approvals as they were minted -/

/-- An approval as it was minted, without what changes in it. -/
def Approval.mint (a : Approval) : Approval := { a with sessionId := none, state := .pending }

/-- The approvals as they were minted. -/
def World.minted (w : World) : List Approval := w.approvals.rows.map Approval.mint

theorem World.minted_unique {a b : Approval} (ha : a ∈ w.minted) (hb : b ∈ w.minted)
    (h : a.approvalId = b.approvalId) : a = b := by
  have hnodup : (w.minted.map (·.approvalId)).Nodup := by
    rw [World.minted, List.map_map]
    exact w.approvals.nodup
  exact List.inj_on_of_nodup_map hnodup ha hb h

/-- No act changes what was minted. -/
theorem exec_minted {t : Tid} {a : Answer} {e : Eff} {r : e.Ret}
    (h : exec t a e w = some (r, w')) : w'.minted = w.minted := by
  have hstamps := congrArg (List.map Approval.mint) (exec_stamps h)
  rwa [List.map_map, List.map_map] at hstamps

/-- A move of the surroundings mints an approval, or nothing was minted. -/
theorem moved_minted {m : Move} (h : w.moved m = some w') :
    (∃ a, m = .mint a ∧ w'.minted = w.minted ++ [a.mint] ∧ w'.clock = a.createdAt) ∨
      (w'.minted = w.minted ∧ w'.clock = w.clock) := by
  cases m with
  -- The only move that mints; the others leave the rows of the registry or change a state.
  | mint a =>
    rw [World.moved] at h
    split at h <;> cases h
    refine .inl ⟨a, rfl, ?_, rfl⟩
    simp [World.minted, Table.insertNew]
  | setState a state =>
    rw [World.moved] at h
    split at h <;> cases h
    refine .inr ⟨?_, rfl⟩
    refine Table.map_update ?_ ?_ <;> exact fun _ => rfl
  | exit pid rc out err =>
    rw [World.moved.eq_def] at h
    dsimp only at h
    split at h <;> cases h
    exact .inr ⟨rfl, rfl⟩
  | interrupt =>
    rw [World.moved] at h
    split at h <;> cases h
    exact .inr ⟨rfl, rfl⟩

/-- The approval that is found is a pending one of the agent, and not older than `since`. -/
theorem latestPending_spec {approvals : List Approval} {agent : AgentName} {since : Time}
    {a : Approval} (h : latestPending approvals agent since = some a) :
    a ∈ approvals ∧ a.agentId = agent ∧ a.state = .pending ∧ since ≤ a.createdAt := by
  have hmem := mem_of_latestBy h
  simp only [List.mem_filter, Bool.and_eq_true, beq_iff_eq, decide_eq_true_eq] at hmem
  exact ⟨hmem.1, hmem.2.1.1, hmem.2.1.2, hmem.2.2⟩

/-! ## Windows -/

namespace TurnStage

/-- The turn that the task is in. -/
def turn? : TurnStage → Option Turn
  | called _ turn | launched _ turn _ | registered _ turn _ _ | popped _ turn _ _
  | ended _ turn | queried _ turn _ | recorded _ turn => some turn
  | _ => none

/-- The window in which the turn of a task looks for an approval: its room and its start. It is
closed when an approval is recorded. -/
def window? : TurnStage → Option (RoomId × Time)
  | timed room start => some (room, start)
  | called start turn | launched start turn _ | registered start turn _ _
  | popped start turn _ _ | ended start turn | queried start turn _ => some (turn.roomId, start)
  | _ => none

theorem room?_of_window? {g : TurnStage} {room : RoomId} {start : Time}
    (h : g.window? = some (room, start)) : g.room? = some room := by
  cases g <;> cases h <;> rfl

end TurnStage

/-- Every agent has one room. -/
def OneRoom (config : MatrixDispatcher.Config) : Prop :=
  ∀ {room room' agent}, config.agentOf room = some agent → config.agentOf room' = some agent →
    room = room'

/-- A configuration in which no two entries have one name gives every agent one room. -/
theorem oneRoom_of_nodup (h : (config.agents.map Prod.fst).Nodup) : OneRoom config := by
  have hentry : ∀ {room agent}, config.agentOf room = some agent →
      ∃ cfg, (agent, cfg) ∈ config.agents ∧ cfg.roomId = room := by
    intro room agent hagent
    obtain ⟨⟨agent', cfg⟩, hfind, rfl⟩ := Option.map_eq_some_iff.mp hagent
    refine ⟨cfg, List.mem_reverse.mp (List.mem_of_find?_eq_some hfind), ?_⟩
    simpa using List.find?_some hfind
  intro room room' agent hroom hroom'
  obtain ⟨cfg, hmem, rfl⟩ := hentry hroom
  obtain ⟨cfg', hmem', rfl⟩ := hentry hroom'
  have := List.inj_on_of_nodup_map h hmem hmem' rfl
  rw [(Prod.mk.inj this).2]

/-- Approvals and turns are stamped by one strictly increasing clock. -/
def ticking (w : World) : Step → Prop
  | .env (.move (.mint a)) => w.clock < a.createdAt
  | .effect _ (.sync .utcnow) (.clock now) => w.clock < now
  | _ => True

/-- `ticking`, evaluated. -/
def ticks (w : World) : Step → Bool
  | .env (.move (.mint a)) => decide (w.clock < a.createdAt)
  | .effect _ (.sync .utcnow) (.clock now) => decide (w.clock < now)
  | _ => true

theorem ticking_of_ticks (w : World) (e : Step) (h : ticks w e = true) : ticking w e := by
  rw [ticking.eq_def]
  split
  · exact of_decide_eq_true h
  · exact of_decide_eq_true h
  · trivial

/-- What the assumption on the clock says about the acts of turns. -/
theorem tick_of_clock {t : Tid} {a : Answer} {e : Eff} {r : e.Ret} {now : Time}
    (hallow : ticking w (.effect t e a)) (h : exec t a e w = some (r, w'))
    (hclock : TurnAct.of e r = .clock now) : w.clock < now := by
  obtain rfl : e = .sync .utcnow := by
    have horigin := TurnAct.origin_of e r
    rwa [hclock] at horigin
  obtain rfl : r = now := TurnAct.clock.inj hclock
  cases a <;> cases h
  exact hallow

/-- What is known of approvals, open windows and recorded rows. -/
structure RecordInv (config : MatrixDispatcher.Config) (G : Tid → TurnStage) (w : World) :
    Prop where
  minted : ∀ a ∈ w.minted, a.createdAt ≤ w.clock
  agents : ∀ t turn, (G t).turn? = some turn → config.agentOf turn.roomId = some turn.agentName
  found : ∀ t start turn id, G t = .queried start turn (some id) →
    ∃ a ∈ w.minted, a.approvalId = id ∧ a.agentId = turn.agentName ∧ start ≤ a.createdAt
  closed : ∀ row ∈ recordedRows w.trace, ∃ a ∈ w.minted, a.approvalId = row.approvalId ∧
    ∀ t room start, (G t).window? = some (room, start) → config.agentOf room = some a.agentId →
      a.createdAt < start
  once : ((recordedRows w.trace).map (·.approvalId)).Nodup

namespace RecordInv

variable {t : Tid} {g' : TurnStage}

/-- A task goes on without recording anything; a window that it opens starts now. -/
theorem move (h : RecordInv config G w) (hminted : w'.minted = w.minted)
    (hclock : w.clock ≤ w'.clock) (hrecorded : recordedRows w'.trace = recordedRows w.trace)
    (hturn : ∀ turn, g'.turn? = some turn → config.agentOf turn.roomId = some turn.agentName)
    (hfound : ∀ start turn id, g' = .queried start turn (some id) →
      ∃ a ∈ w.minted, a.approvalId = id ∧ a.agentId = turn.agentName ∧ start ≤ a.createdAt)
    (hwindow : ∀ room start, g'.window? = some (room, start) →
      (G t).window? = some (room, start) ∨ w.clock < start) :
    RecordInv config (Function.update G t g') w' := by
  constructor
  case minted =>
    intro a ha
    rw [hminted] at ha
    exact (h.minted a ha).trans hclock
  case agents =>
    intro u turn hu
    by_cases hut : u = t
    · subst hut
      rw [Function.update_self] at hu
      exact hturn turn hu
    · rw [Function.update_of_ne hut] at hu
      exact h.agents u turn hu
  case found =>
    intro u start turn id hu
    rw [hminted]
    by_cases hut : u = t
    · subst hut
      rw [Function.update_self] at hu
      exact hfound start turn id hu
    · rw [Function.update_of_ne hut] at hu
      exact h.found u start turn id hu
  case closed =>
    intro row hrow
    rw [hrecorded] at hrow
    -- A recorded approval is older than every window: than the old ones as before, than a new one
    -- by the clock.
    obtain ⟨a, ha, hid, hopen⟩ := h.closed row hrow
    refine ⟨a, hminted ▸ ha, hid, fun u room start hu hagent => ?_⟩
    by_cases hut : u = t
    · subst hut
      rw [Function.update_self] at hu
      rcases hwindow room start hu with hold | hnew
      · exact hopen u room start hold hagent
      · exact (h.minted a ha).trans_lt hnew
    · rw [Function.update_of_ne hut] at hu
      exact hopen u room start hu hagent
  case once =>
    rw [hrecorded]
    exact h.once

/-- The world changes, and no task goes on. -/
theorem moved (h : RecordInv config G w) (hminted : w.minted ⊆ w'.minted)
    (hclock : ∀ a ∈ w'.minted, a.createdAt ≤ w'.clock)
    (hrecorded : recordedRows w'.trace = recordedRows w.trace) : RecordInv config G w' := by
  refine ⟨hclock, h.agents, fun t start turn id hg => ?_, fun row hrow => ?_, by
    rw [hrecorded]; exact h.once⟩
  · obtain ⟨a, ha, hfound⟩ := h.found t start turn id hg
    exact ⟨a, hminted ha, hfound⟩
  · rw [hrecorded] at hrow
    obtain ⟨a, ha, hclosed⟩ := h.closed row hrow
    exact ⟨a, hminted ha, hclosed⟩

/-- A row is recorded. -/
theorem record (hlock : LockInv G w) (hone : OneRoom config) (h : RecordInv config G w)
    {start : Time} {turn : Turn} {row : PendingRow}
    (hg : G t = .queried start turn (some row.approvalId)) (hminted : w'.minted = w.minted)
    (hclock : w'.clock = w.clock)
    (hrecorded : recordedRows w'.trace = row :: recordedRows w.trace) :
    RecordInv config (Function.update G t (.recorded start turn)) w' := by
  obtain ⟨a, ha, hid, hagent, hstart⟩ := h.found t start turn row.approvalId hg
  have hroom : config.agentOf turn.roomId = some turn.agentName :=
    h.agents t turn (by rw [hg]; rfl)
  constructor
  case minted =>
    rw [hminted, hclock]
    exact h.minted
  case agents =>
    intro u turn' hu
    by_cases hut : u = t
    · subst hut
      obtain rfl : turn = turn' := by simpa [TurnStage.turn?] using hu
      exact hroom
    · rw [Function.update_of_ne hut] at hu
      exact h.agents u turn' hu
  case found =>
    intro u start' turn' id hu
    rw [hminted]
    by_cases hut : u = t
    · subst hut
      simp at hu
    · rw [Function.update_of_ne hut] at hu
      exact h.found u start' turn' id hu
  case closed =>
    intro row' hrow'
    rw [hrecorded] at hrow'
    -- the window of the recording task is closed, and no other task has one in its room
    have hclosed : ∀ {b : Approval}, (∀ u room start, u ≠ t → (G u).window? = some (room, start) →
        config.agentOf room = some b.agentId → b.createdAt < start) →
        ∀ u room start', (Function.update G t (.recorded start turn) u).window? =
          some (room, start') → config.agentOf room = some b.agentId → b.createdAt < start' := by
      intro b hb u room start' hu hagent'
      by_cases hut : u = t
      · subst hut
        simp [TurnStage.window?] at hu
      · rw [Function.update_of_ne hut] at hu
        exact hb u room start' hut hu hagent'
    rcases List.mem_cons.mp hrow' with rfl | hold
    · refine ⟨a, hminted ▸ ha, hid, hclosed fun u room start' hut hu hagent' => ?_⟩
      rw [hagent] at hagent'
      obtain rfl := hone hagent' hroom
      exact absurd (hlock.unique (TurnStage.room?_of_window? hu) (by rw [hg]; rfl)) hut
    · obtain ⟨b, hb, hbid, hopen⟩ := h.closed row' hold
      exact ⟨b, hminted ▸ hb, hbid, hclosed fun u room start' _ => hopen u room start'⟩
  case once =>
    rw [hrecorded, List.map_cons, List.nodup_cons]
    refine ⟨fun hmem => ?_, h.once⟩
    -- if the approval had been recorded before, the window would have started after it
    obtain ⟨row', hrow', heq⟩ := List.mem_map.mp hmem
    obtain ⟨b, hb, hbid, hopen⟩ := h.closed row' hrow'
    obtain rfl := World.minted_unique ha hb (hid.trans (heq.symm.trans hbid.symm))
    have hlt := hopen t turn.roomId start (by rw [hg]; rfl) (by rw [hagent, hroom])
    exact absurd hlt (not_lt.mpr hstart)

/-- Acts of turns keep the invariant. -/
theorem step {act : TurnAct} (hlock : LockInv G w) (hone : OneRoom config)
    (h : RecordInv config G w) (hstep : TurnStep config (G t) act g')
    (hact : TurnChange t act w w') (htick : ∀ now, act = .clock now → w.clock < now)
    (hminted : w'.minted = w.minted)
    (hrecorded : recordedRows w'.trace = act.recorded.toList ++ recordedRows w.trace) :
    RecordInv config (Function.update G t g') w' := by
  have hclock := hact.clock
  have hguard := hact.guard
  have hturn := h.agents t
  have hfound := h.found t
  generalize hg : G t = g at hstep hturn hfound
  cases hstep with
  -- The turn opens its window at this reading.
  | clock room now =>
    have hnow := htick now rfl
    refine h.move hminted (hclock ▸ hnow.le) hrecorded (by simp [TurnStage.turn?]) (by simp) ?_
    rintro _ _ ⟨⟩
    exact .inr hnow
  | call start turn hagent =>
    refine h.move hminted hclock.ge hrecorded ?_ (by simp) ?_
    · rintro _ ⟨⟩
      exact hagent
    · rw [hg]
      exact fun room start' hwindow => .inl hwindow
  -- The registry names an approval of the window.
  | query start turn found =>
    refine h.move hminted hclock.ge hrecorded hturn ?_ ?_
    · rintro _ _ id ⟨⟩
      obtain ⟨a, hlatest, rfl⟩ := Option.map_eq_some_iff.mp hguard.symm
      obtain ⟨hmem, hagent, -, hsince⟩ := latestPending_spec hlatest
      exact ⟨a.mint, List.mem_map_of_mem hmem, rfl, hagent, hsince⟩
    · rw [hg]
      exact fun room start' hwindow => .inl hwindow
  | record start turn row => exact h.record hlock hone hg hminted hclock hrecorded
  -- A turn that is left with a result keeps its window until it asks.
  | leave start turn pid outcome fate g' hfate hgone heq =>
    subst heq
    refine h.move hminted hclock.ge hrecorded ?_ ?_ ?_
    · split
      · exact hturn
      · simp [TurnStage.turn?]
    · split <;> simp
    · split
      · rw [hg]
        exact fun room start' hwindow => .inl hwindow
      · simp [TurnStage.window?]
  | other | interrupt | create | miss =>
    refine h.move hminted hclock.ge hrecorded hturn hfound ?_
    rw [hg]
    exact fun room start hwindow => .inl hwindow
  | launch | register | gone | lost | pop =>
    refine h.move hminted hclock.ge hrecorded hturn (by simp) ?_
    rw [hg]
    exact fun room start hwindow => .inl hwindow
  | _ =>
    exact h.move hminted hclock.ge hrecorded (by simp [TurnStage.turn?]) (by simp)
      (by simp [TurnStage.window?])

end RecordInv

/-- Every run under a ticking clock keeps the invariant. -/
def recordExtension (hone : OneRoom config) : (lockInvariant config ticking).Extension where
  inv := RecordInv config
  effect := by
    intro G w w' t e a r g' _ hlock _ hinv _ hallow hexec hnext
    exact hinv.step hlock hone (TurnStage.step_cases hnext) (exec_turn hexec)
      (fun now => tick_of_clock hallow hexec) (exec_minted hexec) (exec_recorded hexec)
  finish := by
    intro G w t _ hinv hfinal
    show RecordInv config (Function.update G t .absent) w
    exact hinv.move rfl le_rfl rfl (by simp [TurnStage.turn?]) (by simp)
      (by simp [TurnStage.window?])
  env := by
    intro G w w' a _ _ hinv hallow henv
    obtain ⟨m, rfl, hmoved⟩ := env_eq henv
    have hrecorded : recordedRows w'.trace = recordedRows w.trace := by
      rw [(moved_same hmoved).1]
    rcases moved_minted hmoved with ⟨a, rfl, hminted, hclock⟩ | ⟨hminted, hclock⟩
    · refine hinv.moved (hminted ▸ List.subset_append_left _ _) ?_ hrecorded
      have hnow : w.clock < a.createdAt := hallow
      intro b hb
      rw [hminted, List.mem_append, List.mem_singleton] at hb
      rw [hclock]
      rcases hb with hb | rfl
      · exact ((hinv.minted b hb).trans_lt hnow).le
      · exact le_rfl
    · refine hinv.moved (hminted ▸ List.Subset.refl _) ?_ hrecorded
      rw [hminted, hclock]
      exact hinv.minted
  start := by
    intro G w w' t fiber a hgood _ hinv _ hstart habsent
    obtain ⟨n, request, henter, hruns, rfl⟩ := (turnCoverage config).start_good hgood hstart
    rw [henter]
    refine hinv.move rfl le_rfl rfl ?_ ?_ ?_ <;> cases request <;>
      simp [turnCoverage, TurnStage.turn?, TurnStage.window?]
  crash := by
    intro G w w' a _ hinv _ hcrash
    obtain ⟨-, rfl⟩ := crash_eq hcrash
    -- no window survives the process; the approvals and the clock do
    change RecordInv config (fun _ => .absent) w.crashed
    refine ⟨hinv.minted, by simp [TurnStage.turn?], by simp, fun row hrow => ?_, hinv.once⟩
    obtain ⟨a, ha, hid, -⟩ := hinv.closed row hrow
    exact ⟨a, ha, hid, by simp [TurnStage.window?]⟩

/-- The invariant of runs under a ticking clock. -/
def recordInvariant (hone : OneRoom config) :
    Invariant (turnCoverage config).supervision ticking :=
  (lockInvariant config ticking).extend (recordExtension hone)

/-- A fresh world satisfies it. -/
theorem RecordInv.initial : RecordInv config (fun _ => .absent) World.initial := by
  refine ⟨?_, by simp [TurnStage.turn?], by simp, ?_, ?_⟩ <;>
    simp [World.initial, World.minted, Table.empty, recordedRows]

/-- An approval is recorded at most once in a whole run. -/
theorem recorded_once (hone : OneRoom config) {c : Machine.Config Tid Eff Eff.Ret World}
    (h : Reaches config ticking c) :
    ((recordedRows c.world.trace).map (·.approvalId)).Nodup := by
  obtain ⟨G, -, -, hinv⟩ := (recordInvariant hone).reachable h
    (turnCoverage config).good_initial ⟨.idle fun _ => rfl, .initial⟩
  exact hinv.once

end MatrixDispatcher
