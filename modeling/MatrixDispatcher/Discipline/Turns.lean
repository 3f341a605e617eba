import MatrixDispatcher.Discipline.Rules
import MatrixDispatcher.Dispatcher

/-!
# The discipline of turns

In which order a task takes the room lock, reads the clock, calls the runner, starts and leaves
its child, asks the registry for a pending approval and records it.

* `TurnAct` — what an effect and its response mean for a turn.
* `TurnStage.step` — the automaton; a stage that holds a lock names its room.
* `turnMonitor` — the monitor made of the two, and `turnSupervision`: every task of the
  dispatcher follows it.

Sessions and posts do not occur here; their programs are plain.
-/

namespace MatrixDispatcher

open Py Coro

/-- What an effect and its response mean for the turn of a task. -/
inductive TurnAct where
  | tryLock (roomId : RoomId) (got : Bool)
  | waitLock (roomId : RoomId) (got : Bool)
  | release (roomId : RoomId)
  | clock (now : Time)
  | call (turn : Turn)
  | launch (agentId : AgentName) (turn : Turn) (pid : Pid)
  /-- The task is cancelled before it goes on. -/
  | interrupt
  | register (roomId : RoomId) (pid : Pid)
  /-- The child is known to have exited. -/
  | gone (pid : Pid)
  /-- The task is cancelled while it waits for the child. -/
  | lost (pid : Pid)
  | pop (roomId : RoomId)
  | leave (roomId : RoomId) (pid : Pid) (outcome : Outcome)
  | query (agentId : AgentName) (since : Time) (found : Option ApprovalId)
  | record (row : PendingRow)
  | look (roomId : RoomId) (found : Option Pid)
  | signal (roomId : RoomId) (pid : Pid)
  | create (args : HandlerArgs)
  /-- The shutdown begins. -/
  | closing
  /-- Other tasks are cancelled. -/
  | cancel
  | other

namespace TurnAct

/-- What a synchronous effect means. -/
def ofSync : (e : SyncEff) → e.Ret → TurnAct
  | .lockTry room, got => .tryLock room got
  | .lockRelease room, _ => .release room
  | .utcnow, now => .clock now
  | .execute (.insertPendingApproval row), .ok _ => .record row
  | .activeGet room, found => .look room found
  | .activeSet room pid, _ => .register room pid
  | .activePop room, _ => .pop room
  | .kill pid, .error _ => .gone pid
  | .sendSignal room pid, _ => .signal room pid
  | .createTask (.handle args), _ => .create args
  | .cancelTask _, _ => .cancel
  | .mark (.runnerCall turn), _ => .call turn
  | .mark (.leftRun room pid outcome), _ => .leave room pid outcome
  | .mark .closing, _ => .closing
  | _, _ => .other

/-- What an awaited operation means. `communicate` fails with a timeout or as it is cancelled,
and `wait` only as it is cancelled. -/
def ofAwait : (e : AwaitEff) → Except Exn e.Val → TurnAct
  | .lockWait room, .ok _ => .waitLock room true
  | .lockWait room, .error _ => .waitLock room false
  | .fetchPending agent since, .ok found => .query agent since (found.map (·.approvalId))
  | .exec _ _ agent turn, .ok pid => .launch agent turn pid
  | .pause, .error _ => .interrupt
  | .communicate pid _, .ok _ => .gone pid
  | .communicate _ _, .error .timeoutError => .other
  | .communicate pid _, .error _ => .lost pid
  | .wait pid, .error .cancelledError => .lost pid
  | .wait pid, _ => .gone pid
  | .gather, _ => .cancel
  | _, _ => .other

/-- What an effect means. -/
def of : (e : Eff) → e.Ret → TurnAct
  | .sync e, r => ofSync e r
  | .await e, r => ofAwait e r

end TurnAct

/-- What a task knows of its child. -/
inductive Fate where
  | unknown
  | gone
  /-- The task was cancelled, and the child may live on. -/
  | lost
  deriving DecidableEq

/-- How far the turn of a task has come. -/
inductive TurnStage where
  /-- The task does not run. -/
  | absent
  /-- `main`, which never takes a room lock. -/
  | system
  /-- `main` is shutting down. -/
  | closing
  | idle
  /-- `!cancel` has just read the registered child of the room. -/
  | saw (roomId : RoomId) (pid : Pid)
  | waiting (roomId : RoomId)
  | locked (roomId : RoomId)
  /-- `turn_start` is read. -/
  | timed (roomId : RoomId) (start : Time)
  | called (start : Time) (turn : Turn)
  | launched (start : Time) (turn : Turn) (pid : Pid)
  | registered (start : Time) (turn : Turn) (pid : Pid) (fate : Fate)
  | popped (start : Time) (turn : Turn) (pid : Pid) (fate : Fate)
  /-- `_run_claude` was left with a result. -/
  | ended (start : Time) (turn : Turn)
  /-- `_run_claude` was left with an exception. -/
  | failed (roomId : RoomId)
  | queried (start : Time) (turn : Turn) (found : Option ApprovalId)
  | recorded (start : Time) (turn : Turn)

namespace TurnStage

/-- The room whose lock the task holds. -/
def room? : TurnStage → Option RoomId
  | locked room | timed room _ | failed room => some room
  | called _ turn | launched _ turn _ | registered _ turn _ _ | popped _ turn _ _
  | ended _ turn | queried _ turn _ | recorded _ turn => some turn.roomId
  | _ => none

/-- The room for whose lock the task waits. -/
def waits? : TurnStage → Option RoomId
  | waiting room => some room
  | _ => none

/-- The child that the task has started in this turn and has not left yet. -/
def child? : TurnStage → Option (Turn × Pid)
  | launched _ turn pid | registered _ turn pid _ | popped _ turn pid _ => some (turn, pid)
  | _ => none

/-- The registration that the task has made and not taken back. -/
def registered? : TurnStage → Option (RoomId × Pid)
  | registered _ turn pid _ => some (turn.roomId, pid)
  | _ => none

/-- The child that the task has registered in this turn, and what it knows of it. -/
def fate? : TurnStage → Option (Pid × Fate)
  | registered _ _ pid fate | popped _ _ pid fate => some (pid, fate)
  | _ => none

/-- The task has read a process and not made use of it yet. -/
def isAtomic : TurnStage → Bool
  | saw _ _ => true
  | _ => false

/-- The task may give up the processor, and it has no child. -/
def Calm (g : TurnStage) : Prop := g.isAtomic = false ∧ g.child? = none

/-- The task holds the lock of the room, and it has no child. -/
def Holds (room : RoomId) (g : TurnStage) : Prop := g.room? = some room ∧ g.child? = none

instance (room : RoomId) (g : TurnStage) : Decidable (g.Holds room) :=
  inferInstanceAs (Decidable (_ ∧ _))

/-- The automaton of turns. -/
def step (config : MatrixDispatcher.Config) : TurnStage → TurnAct → Option TurnStage
  | g, .other => some g
  | .launched _ turn _, .interrupt => some (.failed turn.roomId)
  | g, .interrupt => some g
  | .system, .closing => some .closing
  | .closing, .signal _ _ => some .closing
  | .closing, .cancel => some .closing
  | .system, .create args =>
    if config.agentOf args.roomId = some args.agentName then some .system else none
  | .idle, .look room (some pid) => some (.saw room pid)
  | .idle, .look _ none => some .idle
  | .saw room pid, .signal room' pid' => if room' = room ∧ pid' = pid then some .idle else none
  | .idle, .tryLock room true => some (.locked room)
  | .idle, .tryLock room false => some (.waiting room)
  | .waiting room, .waitLock room' true => if room' = room then some (.locked room) else none
  | .waiting room, .waitLock room' false => if room' = room then some .idle else none
  | .locked room, .clock now => some (.timed room now)
  | .timed room start, .call turn =>
    if turn.roomId = room ∧ config.agentOf room = some turn.agentName then
      some (.called start turn)
    else none
  | .called start turn, .launch agent turn' pid =>
    if agent = turn.agentName ∧ turn' = turn then some (.launched start turn pid) else none
  | .launched start turn pid, .register room pid' =>
    if room = turn.roomId ∧ pid' = pid then some (.registered start turn pid .unknown) else none
  | .registered start turn pid .unknown, .gone pid' =>
    if pid' = pid then some (.registered start turn pid .gone) else none
  | .registered start turn pid .unknown, .lost pid' =>
    if pid' = pid then some (.registered start turn pid .lost) else none
  | .registered start turn pid fate, .pop room =>
    if room = turn.roomId then some (.popped start turn pid fate) else none
  | .popped start turn pid fate, .leave room pid' outcome =>
    if room = turn.roomId ∧ pid' = pid ∧ fate ≠ .unknown ∧ (outcome ≠ .raised → fate = .gone) then
      some (if outcome = .result then .ended start turn else .failed room)
    else none
  | .ended start turn, .query agent since found =>
    if agent = turn.agentName ∧ since = start then some (.queried start turn found) else none
  | .queried start turn found, .record row =>
    if found = some row.approvalId ∧ row.sessionId = turn.sessionId ∧
        row.threadRootId = turn.threadRootId ∧ row.roomId = turn.roomId then
      some (.recorded start turn)
    else none
  | g, .release room => if Holds room g then some .idle else none
  | _, _ => none

end TurnStage

/-! ## The steps of the automaton, one by one -/

/-- The transitions of `TurnStage.step`. -/
inductive TurnStep (config : MatrixDispatcher.Config) : TurnStage → TurnAct → TurnStage → Prop
  | other (g) : TurnStep config g .other g
  | abandon (start turn pid) :
    TurnStep config (.launched start turn pid) .interrupt (.failed turn.roomId)
  | interrupt (g) (h : ∀ start turn pid, g ≠ .launched start turn pid) :
    TurnStep config g .interrupt g
  | close : TurnStep config .system .closing .closing
  | terminate (room pid) : TurnStep config .closing (.signal room pid) .closing
  | cancel : TurnStep config .closing .cancel .closing
  | create (args) (h : config.agentOf args.roomId = some args.agentName) :
    TurnStep config .system (.create args) .system
  | see (room pid) : TurnStep config .idle (.look room (some pid)) (.saw room pid)
  | miss (room) : TurnStep config .idle (.look room none) .idle
  | signal (room pid) : TurnStep config (.saw room pid) (.signal room pid) .idle
  | take (room) : TurnStep config .idle (.tryLock room true) (.locked room)
  | queue (room) : TurnStep config .idle (.tryLock room false) (.waiting room)
  | wake (room) : TurnStep config (.waiting room) (.waitLock room true) (.locked room)
  | giveUp (room) : TurnStep config (.waiting room) (.waitLock room false) .idle
  | clock (room now) : TurnStep config (.locked room) (.clock now) (.timed room now)
  | call (start turn) (h : config.agentOf turn.roomId = some turn.agentName) :
    TurnStep config (.timed turn.roomId start) (.call turn) (.called start turn)
  | launch (start turn pid) : TurnStep config (.called start turn)
      (.launch turn.agentName turn pid) (.launched start turn pid)
  | register (start turn pid) : TurnStep config (.launched start turn pid)
      (.register turn.roomId pid) (.registered start turn pid .unknown)
  | gone (start turn pid) : TurnStep config (.registered start turn pid .unknown) (.gone pid)
      (.registered start turn pid .gone)
  | lost (start turn pid) : TurnStep config (.registered start turn pid .unknown) (.lost pid)
      (.registered start turn pid .lost)
  | pop (start turn pid fate) : TurnStep config (.registered start turn pid fate)
      (.pop turn.roomId) (.popped start turn pid fate)
  | leave (start turn pid outcome fate g') (hfate : fate ≠ .unknown)
      (hgone : outcome ≠ .raised → fate = .gone)
      (h : g' = if outcome = .result then .ended start turn else .failed turn.roomId) :
    TurnStep config (.popped start turn pid fate) (.leave turn.roomId pid outcome) g'
  | query (start turn found) : TurnStep config (.ended start turn)
      (.query turn.agentName start found) (.queried start turn found)
  | record (start) (turn : Turn) (row : PendingRow) (hsession : row.sessionId = turn.sessionId)
      (hthread : row.threadRootId = turn.threadRootId) (hroom : row.roomId = turn.roomId) :
    TurnStep config (.queried start turn (some row.approvalId)) (.record row)
      (.recorded start turn)
  | release (g : TurnStage) (room) (h : g.Holds room) : TurnStep config g (.release room) .idle

namespace TurnStage

/-- Every transition of the automaton is one of those. -/
theorem step_cases {config : MatrixDispatcher.Config} {g g' : TurnStage} {act : TurnAct}
    (h : g.step config act = some g') : TurnStep config g act g' := by
  rw [step.eq_def] at h
  split at h
  case h_3 =>
    rename_i hne
    cases h
    exact .interrupt _ fun start turn pid heq => hne start turn pid heq
  case h_26 => cases h
  -- what is left either has no condition, or one that names what the two sides share
  all_goals first
    | (cases h
       constructor)
    | skip
  all_goals
    split at h
    case isFalse => cases h
    case isTrue hif => ?_
  all_goals cases h
  · exact .create _ hif
  · obtain ⟨rfl, rfl⟩ := hif
    exact .signal _ _
  · subst hif
    exact .wake _
  · subst hif
    exact .giveUp _
  · obtain ⟨rfl, hagent⟩ := hif
    exact .call _ _ hagent
  · obtain ⟨rfl, rfl⟩ := hif
    exact .launch _ _ _
  · obtain ⟨rfl, rfl⟩ := hif
    exact .register _ _ _
  · subst hif
    exact .gone _ _ _
  · subst hif
    exact .lost _ _ _
  · subst hif
    exact .pop _ _ _ _
  · obtain ⟨rfl, rfl, hfate, hgone⟩ := hif
    exact .leave _ _ _ _ _ _ hfate hgone rfl
  · obtain ⟨rfl, rfl⟩ := hif
    exact .query _ _ _
  · obtain ⟨rfl, hsession, hthread, hroom⟩ := hif
    exact .record _ _ _ hsession hthread hroom
  · exact .release _ _ hif

end TurnStage

/-- The monitor of turns under a configuration. -/
def turnMonitor (config : MatrixDispatcher.Config) : Monitor Eff Eff.Ret TurnStage where
  next g e r := g.step config (TurnAct.of e r)
  atomic := TurnStage.isAtomic
  final g := g = .idle ∨ g = .system ∨ g = .closing
  idle := .absent
  atomic_idle := rfl

end MatrixDispatcher
