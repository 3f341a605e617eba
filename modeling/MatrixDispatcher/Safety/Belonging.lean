import MatrixDispatcher.Safety.Recording
import MatrixDispatcher.Safety.SessionLock

/-!
# Sessions are resumed where they belong

A reply is looked up by its event id alone, in tables that all rooms share, and is then handled
with the agent, the directory and the lock of the room that it arrived in. The two rooms may
differ. An approval is resumed in the room that its turn ran in.

* `ownRooms` — every session that a task finds is one of the room of its message.
* `CallInv` — every recorded row is that of a turn for which the runner was called.
* `resumed_at_home` — under `ownRooms`, a session is resumed where it belongs.
* `resumed_at_home_naming` — the same where messages name events of their own room: the rows of the
  tables say that the session is one of that room.
-/

namespace MatrixDispatcher

open Py Coro Machine

variable {config : MatrixDispatcher.Config} {allow : World → Step → Prop}
  {G : Tid → TurnStage} {w w' : World}

/-! ## The trace -/

/-- What was observed stays observed. -/
theorem trace_mono {c₀ c : Machine.Config Tid Eff Eff.Ret World}
    (h : (dispatcher config).Reachable allow c₀ c) : c₀.world.trace ⊆ c.world.trace := by
  refine Reachable.keeps (I := fun w => c₀.world.trace ⊆ w.trace) h (List.Subset.refl _)
    ?_ ?_ ?_ ?_
  · intro c t e a r w _ _ _ hexec ih
    rw [exec_trace hexec]
    exact List.subset_append_of_subset_right _ ih
  · intro w w' a _ henv ih
    obtain ⟨m, -, hmoved⟩ := env_eq henv
    rw [(moved_same hmoved).1]
    exact ih
  · intro w w' t fiber a _ hstart ih
    obtain ⟨n, request, -, -, -, rfl⟩ := start_eq hstart
    exact ih
  · intro w w' a _ hcrash ih
    obtain ⟨-, rfl⟩ := crash_eq hcrash
    exact List.subset_cons_of_subset _ ih

/-! ## Recorded rows -/

/-- The runner was called for this turn. -/
def Called (w : World) (turn : Turn) : Prop := ∃ t, Obs.marked t (.runnerCall turn) ∈ w.trace

theorem Called.mono {turn : Turn} (htrace : w.trace ⊆ w'.trace) (h : Called w turn) :
    Called w' turn := h.imp fun _ h => htrace h

/-- The row is that of a turn for which the runner was called. -/
def RowOfTurn (w : World) (row : PendingRow) : Prop :=
  ∃ turn, Called w turn ∧ turn.sessionId = row.sessionId ∧
    turn.threadRootId = row.threadRootId ∧ turn.roomId = row.roomId

/-- The turns of tasks and of recorded rows are those for which the runner was called. -/
structure CallInv (G : Tid → TurnStage) (w : World) : Prop where
  turn : ∀ t turn, (G t).turn? = some turn → Called w turn
  recorded : ∀ row ∈ recordedRows w.trace, RowOfTurn w row

/-- A task comes into a turn by calling the runner. -/
theorem TurnStep.turn? {g g' : TurnStage} {act : TurnAct} (h : TurnStep config g act g')
    {turn : Turn} (hturn : g'.turn? = some turn) : g.turn? = some turn ∨ act = .call turn := by
  cases h with
  | call start turn' =>
    cases hturn
    exact .inr rfl
  | leave start turn' pid outcome fate g' hfate hgone heq =>
    subst heq
    split at hturn
    · exact .inl hturn
    · cases hturn
  | _ => first | exact .inl hturn | cases hturn

/-- A row is recorded by a task in the turn that it names. -/
theorem TurnStep.recorded {g g' : TurnStage} {act : TurnAct} (h : TurnStep config g act g')
    {row : PendingRow} (hrow : act.recorded = some row) :
    ∃ turn, g.turn? = some turn ∧ turn.sessionId = row.sessionId ∧
      turn.threadRootId = row.threadRootId ∧ turn.roomId = row.roomId := by
  cases h with
  | record start turn row' hsession hthread hroom =>
    cases hrow
    exact ⟨turn, rfl, hsession.symm, hthread.symm, hroom.symm⟩
  | _ => cases hrow

namespace CallInv

/-- Tasks change to stages whose turns are known. -/
theorem move {t : Tid} {g' : TurnStage} (h : CallInv G w) (htrace : w.trace ⊆ w'.trace)
    (hturn : ∀ turn, g'.turn? = some turn → Called w' turn)
    (hrecorded : ∀ row ∈ recordedRows w'.trace, row ∈ recordedRows w.trace ∨ RowOfTurn w row) :
    CallInv (Function.update G t g') w' := by
  have hrow : ∀ {row}, RowOfTurn w row → RowOfTurn w' row := fun ⟨turn, hcalled, hrest⟩ =>
    ⟨turn, hcalled.mono htrace, hrest⟩
  refine ⟨fun u turn hu => ?_, fun row hmem => hrow ((hrecorded row hmem).elim (h.recorded row) id)⟩
  by_cases hut : u = t
  · subst hut
    rw [Function.update_self] at hu
    exact hturn turn hu
  · rw [Function.update_of_ne hut] at hu
    exact (h.turn u turn hu).mono htrace

theorem step {t : Tid} {a : Answer} {e : Eff} {r : e.Ret} {g' : TurnStage} (h : CallInv G w)
    (hexec : exec t a e w = some (r, w')) (hstep : TurnStep config (G t) (TurnAct.of e r) g') :
    CallInv (Function.update G t g') w' := by
  have htrace : w.trace ⊆ w'.trace := by
    rw [exec_trace hexec]
    exact List.subset_append_right _ _
  refine h.move htrace (fun turn hturn => ?_) fun row hrow => ?_
  · rcases hstep.turn? hturn with hold | hcall
    · exact (h.turn t turn hold).mono htrace
    · obtain rfl : e = .sync (.mark (.runnerCall turn)) := by
        have horigin := TurnAct.origin_of e r
        rwa [hcall] at horigin
      exact ⟨t, by rw [exec_trace hexec]; exact List.mem_cons_self⟩
  · rw [exec_recorded hexec] at hrow
    rcases List.mem_append.mp hrow with hnew | hold
    · obtain ⟨turn, hturn, hrest⟩ := hstep.recorded (Option.mem_toList.mp hnew)
      exact .inr ⟨turn, h.turn t turn hturn, hrest⟩
    · exact .inl hold

end CallInv

/-- In every run, recorded rows are those of turns for which the runner was called. -/
def callInvariant (config : MatrixDispatcher.Config) (allow : World → Step → Prop) :
    Invariant (turnCoverage config).supervision allow where
  inv := CallInv
  effect := by
    intro G w w' t e a r g' _ hinv _ _ hexec hnext
    exact hinv.step hexec (TurnStage.step_cases hnext)
  finish := by
    intro G w t _ hinv _
    exact hinv.move (List.Subset.refl _) nofun fun _ => .inl
  env := by
    intro G w w' a _ hinv _ henv
    obtain ⟨m, -, hmoved⟩ := env_eq henv
    have htrace : w'.trace = w.trace := (moved_same hmoved).1
    have hsub : w.trace ⊆ w'.trace := htrace ▸ List.Subset.refl _
    have hmove : CallInv (Function.update G .main (G .main)) w' :=
      hinv.move hsub (fun turn hturn => (hinv.turn .main turn hturn).mono hsub)
      fun row hrow => .inl (htrace ▸ hrow)
    rwa [Function.update_eq_self] at hmove
  start := by
    intro G w w' t fiber a hgood hinv _ hstart _
    obtain ⟨n, request, henter, -, rfl⟩ := (turnCoverage config).start_good hgood hstart
    rw [henter]
    refine hinv.move (List.Subset.refl _) (fun turn hturn => ?_) fun _ => .inl
    cases request <;> cases hturn
  crash := by
    intro G w w' a _ hinv _ hcrash
    obtain ⟨-, rfl⟩ := crash_eq hcrash
    refine ⟨nofun, fun row hrow => ?_⟩
    obtain ⟨turn, hcalled, hrest⟩ := hinv.recorded row hrow
    exact ⟨turn, hcalled.mono (List.subset_cons_self _ _), hrest⟩

/-! ## Where sessions are resumed -/

/-- Sessions that task `t` finds are those of the room of its message. -/
def ownRooms (t : Tid) (w : World) : Step → Prop
  | .effect u (.sync (.execute (.getSessionByEvent e))) _ => u = t → ∀ args row,
    w.Runs t (.handle args) → w.db.getSessionByEvent e = some row → row.roomId = args.roomId
  | _ => True

/-- On the way to `c`, task `t` looked up this event and found this session. -/
def FoundBefore (config : MatrixDispatcher.Config) (allow : World → Step → Prop)
    (c : Machine.Config Tid Eff Eff.Ret World) (t : Tid) (e : EventId) (row : SessionRow) : Prop :=
  ∃ c₁, Reaches config allow c₁ ∧ (dispatcher config).Reachable allow c₁ c ∧
    c₁.About t (.sync (.execute (.getSessionByEvent e))) ∧
    c₁.world.db.getSessionByEvent e = some row

/-- The ledger that knows nothing. -/
def openLedger : Ledger where
  fresh _ := True
  placed _ _ := True
  located _ _ := True
  found _ _ _ _ := True
  known _ := True
  join _ _ _ := trivial
  move _ _ _ := trivial

/-- The ledger of what task `t` finds under `ownRooms`. -/
def ownLedger (t : Tid) : Ledger where
  __ := openLedger
  found u args _ row := u = t → row.roomId = args.roomId

/-- The ledger of events that are in one room each. -/
def placeLedger (place : EventId → RoomId) : Ledger where
  __ := openLedger
  located e room := place e = room
  join := @place_root place
  move _ _ _ := trivial

theorem openLedger_governs : openLedger.Governs config allow where
  minted _ := trivial
  listed _ _ _ := trivial
  placed _ _ := trivial
  posted _ := trivial
  accepts _ h := ⟨h, trivial, fun _ _ => trivial⟩
  found _ _ _ := trivial
  known _ _ := trivial

theorem ownLedger_governs (t : Tid) : (ownLedger t).Governs config (ownRooms t) where
  minted _ := trivial
  listed _ _ _ := trivial
  placed _ _ := trivial
  posted _ := trivial
  accepts _ h := ⟨h, trivial, fun _ _ => trivial⟩
  found hown hruns hrow := fun ht => hown ht _ _ (ht ▸ hruns) hrow
  known _ _ := trivial

theorem placeLedger_governs {place : EventId → RoomId} :
    (placeLedger place).Governs config (naming place) where
  minted _ := trivial
  listed _ _ _ := trivial
  placed _ _ := trivial
  posted h := h
  accepts h hagent := ⟨hagent, h.1, h.2⟩
  found _ _ _ := trivial
  known _ _ := trivial

/-- The ledger of what tasks found, and of what was recorded, on the way to `c`, with what another
ledger knows. -/
def historyLedger (config : MatrixDispatcher.Config) (allow : World → Step → Prop) (L : Ledger)
    (c : Machine.Config Tid Eff Eff.Ret World) : Ledger where
  __ := L
  found t args e row := L.found t args e row ∧ FoundBefore config allow c t e row
  known row := L.known row ∧ Obs.recorded row ∈ c.world.trace

theorem historyLedger_governs {L : Ledger} (hgoverns : L.Governs config allow)
    (c : Machine.Config Tid Eff Eff.Ret World) :
    (historyLedger config allow L c).Governs config
      ((dispatcher config).Past allow (.ofWorld World.initial) c) where
  minted h := hgoverns.minted h.1
  listed h := hgoverns.listed h.1
  placed h := hgoverns.placed h.1
  posted h := hgoverns.posted h.1
  accepts h hagent :=
    have haccepts := hgoverns.accepts h.1 hagent
    ⟨hagent, haccepts.located, haccepts.named⟩
  found := by
    rintro w t args e a row ⟨hallow, c₁, l, c₂, rfl, hevent, hreach, hstep, hrest⟩ hruns hrow
    obtain ⟨rfl, habout⟩ := Machine.about_of_event hevent hstep
    exact ⟨hgoverns.found hallow hruns hrow, c₁, hreach,
      Reachable.trans (.step _ .refl (hevent ▸ hallow) hstep) hrest, habout, hrow⟩
  known := by
    rintro w t a row ⟨hallow, c₁, l, c₂, rfl, hevent, hreach, hstep, hrest⟩ hrow
    exact ⟨hgoverns.known hallow hrow,
      trace_mono (Reachable.trans (.step _ .refl (hevent ▸ hallow) hstep) hrest) hrow⟩

/-- Where task `t` resumes a session with this turn in this directory. -/
inductive AtHome (config : MatrixDispatcher.Config) (allow : World → Step → Prop)
    (c : Machine.Config Tid Eff Eff.Ret World) (t : Tid) (turn : Turn) (cwd : Str) : Prop
  /-- For a reply: in the room and with the agent of the session that was found. -/
  | reply (args : HandlerArgs) (e : EventId) (row : SessionRow)
    (hruns : c.world.Runs t (.handle args)) (hfound : FoundBefore config allow c t e row)
    (hroom : args.roomId = turn.roomId ∧ row.roomId = turn.roomId)
    (hagent : row.agent = turn.agentName) (hsession : row.sessionId = turn.sessionId)
  /-- For an approval: in the room of the turn that it was asked for in, and with the agent, the
  directory and the lock of that room. -/
  | approval (row : PendingRow) (cfg : AgentCfg) (ht : t = .reconcile)
    (hrecorded : Obs.recorded row ∈ c.world.trace) (haccount : turn.account = some row.approvalId)
    (hsession : row.sessionId = turn.sessionId) (hturn : RowOfTurn c.world row)
    (hroom : row.roomId = turn.roomId)
    (hagent : config.roomToAgent turn.roomId = some (turn.agentName, cfg))
    (hdir : cfg.projectDir = some cwd) (hlock : (c.world.locks turn.roomId).owner = some t)

/-- A session is resumed where it belongs, if what is known of the session that a message finds says
that it is one of the room of the message. -/
theorem atHome_of_launch {L : Ledger} (hgoverns : L.Governs config allow)
    {c : Machine.Config Tid Eff Eff.Ret World} {t : Tid} (h : Reaches config allow c)
    {argv : List Str} {cwd : Str} {agent : AgentName} {turn : Turn}
    (habout : c.About t (.await (.exec argv cwd agent turn)))
    (hrunner : turn.runner = .resumeClaude)
    (hroom : ∀ args e row, (historyLedger config allow L c).Finds config t args e row →
      row.roomId = args.roomId) : AtHome config allow c t turn cwd := by
  obtain ⟨request, hruns, -, hpromises⟩ :=
    Ledger.about (historyLedger_governs hgoverns c) h.past habout
  obtain ⟨hcalls, rfl, -⟩ := hpromises
  cases request with
  | main | cleanup => exact hcalls.elim
  | handle args =>
    obtain ⟨hcalls, rfl⟩ := hcalls
    cases hcalls with
    | reply e row hfinds =>
      have hhome := hroom args e row hfinds
      refine .reply args e row hruns hfinds.found.2 ⟨rfl, hhome⟩ ?_ rfl
      -- the row has the agent of its room, and so has the message
      have hrow := hfinds.entered.agent
      have hargs := hfinds.agent
      rw [hhome, hargs] at hrow
      exact (Option.some.inj hrow).symm
    | spawn session => cases hrunner
  | reconcile =>
    obtain rfl : t = .reconcile := hruns
    cases hcalls with
    | mk row agent cfg dir hwaits hknown hagent hdir =>
      have hinit : CallInv (fun _ => .absent) World.initial := ⟨nofun, nofun⟩
      obtain ⟨G, -, hcall⟩ := (callInvariant config allow).reachable h
        (turnCoverage config).good_initial hinit
      exact .approval row cfg rfl hknown.2 rfl rfl
        (hcall.recorded row (mem_recordedRows.mpr hknown.2)) rfl hagent hdir
        (owner_of_launch h habout)

/-- A session is only resumed where it belongs, if the session that the task finds is one of the
room of its message. -/
theorem resumed_at_home {c : Machine.Config Tid Eff Eff.Ret World} {t : Tid}
    (h : Reaches config (ownRooms t) c) {argv : List Str} {cwd : Str} {agent : AgentName}
    {turn : Turn} (habout : c.About t (.await (.exec argv cwd agent turn)))
    (hrunner : turn.runner = .resumeClaude) : AtHome config (ownRooms t) c t turn cwd :=
  atHome_of_launch (ownLedger_governs t) h habout hrunner fun _ _ _ hfinds => hfinds.found.1 rfl

/-- The same where every message names an event of its own room, if any: that the row is one of the
room is then known from the tables. -/
theorem resumed_at_home_naming {place : EventId → RoomId}
    {c : Machine.Config Tid Eff Eff.Ret World} {t : Tid} (h : Reaches config (naming place) c)
    {argv : List Str} {cwd : Str} {agent : AgentName} {turn : Turn}
    (habout : c.About t (.await (.exec argv cwd agent turn)))
    (hrunner : turn.runner = .resumeClaude) : AtHome config (naming place) c t turn cwd :=
  -- the thread root of the row is in the room of the row and in that of the message
  atHome_of_launch placeLedger_governs h habout hrunner fun _ _ _ hfinds =>
    hfinds.entered.located.symm.trans hfinds.located

/-- `ownRooms`, evaluated. -/
def isOwnRoom (w : World) : Step → Bool
  | .effect (.handler n) (.sync (.execute (.getSessionByEvent e))) _ =>
    (w.argsOf n).all fun args => (w.db.getSessionByEvent e).all fun row =>
      decide (row.roomId = args.roomId)
  | _ => true

theorem ownRooms_of_check {t : Tid} (w : World) (e : Step) (h : isOwnRoom w e = true) :
    ownRooms t w e := by
  rw [ownRooms.eq_def]
  split
  · rintro rfl args row ⟨n, rfl, hargs⟩ hrow
    rw [isOwnRoom, hargs, Option.all_some, hrow, Option.all_some] at h
    exact of_decide_eq_true h
  · trivial

/-- A reply in the room of the session. -/
theorem resumed_at_home_replying : ∃ c t argv cwd agent turn, Reaches oneAgent (ownRooms t) c ∧
    c.About t (.await (.exec argv cwd agent turn)) ∧ turn.runner = .resumeClaude ∧
    AtHome oneAgent (ownRooms t) c t turn cwd := by
  obtain ⟨c, h, hgoal⟩ := reaches_of_play oneAgent
    (spawning ++ [.move (.exit 0 0 (lit "ok") []), .go (.handler 0) 16] ++
      batch (lit "t2") (lit "!room") [messageOf (lit "$2") (lit "go on") (replyTo (lit "$1"))] ++
      handling 1 2 13)
    (fun c => meets c (.handler 1) (isLaunch fun turn => decide (turn.runner = .resumeClaude)))
    (ownRooms_of_check (t := .handler 1)) (by decide +kernel)
  obtain ⟨e, habout, he⟩ := about_of_meets hgoal
  obtain ⟨argv, cwd, agent, turn, rfl, hturn⟩ := eq_of_isLaunch he
  have hrunner := of_decide_eq_true hturn
  exact ⟨c, _, argv, cwd, agent, turn, h, habout, hrunner, resumed_at_home h habout hrunner⟩

/-- A reply in another room that names an event of the session's room: it is resumed there, with the
agent of that room. -/
theorem resumed_abroad : ∃ c₁ c row argv cwd agent turn, Reaches twoAgents (fun _ _ => True) c₁ ∧
    c₁.About (.handler 1) (.sync (.execute (.getSessionByEvent (lit "$1")))) ∧
    c₁.world.db.getSessionByEvent (lit "$1") = some row ∧
    (dispatcher twoAgents).Reachable (fun _ _ => True) c₁ c ∧
    c.About (.handler 1) (.await (.exec argv cwd agent turn)) ∧ turn.runner = .resumeClaude ∧
    turn.sessionId = row.sessionId ∧ turn.roomId ≠ row.roomId ∧ turn.agentName ≠ row.agent := by
  obtain ⟨c₁, h₁, hgoal⟩ := reaches_of_play twoAgents
    (spawning ++ [.move (.exit 0 0 (lit "ok") []), .go (.handler 0) 16] ++
      batch (lit "t2") (lit "!other") [messageOf (lit "$2") (lit "go on") (replyTo (lit "$1"))] ++
      handling 1 2 1)
    (fun c₁ => meets c₁ (.handler 1) (isLookup (lit "$1")) &&
      (c₁.world.db.getSessionByEvent (lit "$1")).any fun row : SessionRow =>
        ((dispatcher twoAgents).play usualAnswer (fun _ _ => true = true) c₁
          [.go (.handler 1) 12]).any fun c => meets c (.handler 1) (isLaunch fun turn =>
            decide (turn.runner = .resumeClaude ∧ turn.sessionId = row.sessionId ∧
              turn.roomId ≠ row.roomId ∧ turn.agentName ≠ row.agent)))
    (fun _ _ (_ : true = true) => trivial) (by decide +kernel)
  obtain ⟨hmeets, hrest⟩ := Bool.and_eq_true_iff.mp hgoal
  obtain ⟨row, hrow, hplay⟩ := (Option.any_eq_true ..).mp hrest
  obtain ⟨c, hreach, hgoal⟩ := Machine.exists_reachable
    (fun _ _ (_ : true = true) => trivial) hplay
  obtain ⟨e₁, habout₁, he₁⟩ := about_of_meets hmeets
  obtain rfl := eq_of_isLookup he₁
  obtain ⟨e, habout, he⟩ := about_of_meets hgoal
  obtain ⟨argv, cwd, agent, turn, rfl, hturn⟩ := eq_of_isLaunch he
  exact ⟨c₁, c, row, argv, cwd, agent, turn, h₁, habout₁, hrow, hreach, habout,
    of_decide_eq_true hturn⟩

end MatrixDispatcher
