import MatrixDispatcher.Discipline.Rules
import MatrixDispatcher.Discipline.Footprint

/-!
# The discipline of the poll loop

In which order `main` reads the stored token, syncs, stores the new token and dispatches messages.

* `expected` — the handlers that a batch of timelines asks for.
* `PollAct` — what an effect and its response mean for the poll loop.
* `PollStage.step` — the automaton; after a sync, a stage keeps the token it was made with, the
  next token and the handlers that are still to be dispatched.
* `pollMonitor` — the monitor made of the two. The other tasks stay `apart`.
-/

namespace MatrixDispatcher

open Py Coro

/-- Every agent has the `project_dir` that the loop asks for. -/
def Config.WellFormed (config : MatrixDispatcher.Config) : Prop :=
  ∀ entry ∈ config.agents, entry.2.projectDir.isSome = true

instance (config : MatrixDispatcher.Config) : Decidable config.WellFormed :=
  inferInstanceAs (Decidable (∀ entry ∈ config.agents, _))

/-! ## The handlers of a batch -/

/-- The handler of one event of a timeline. -/
def expectedEvent (config : MatrixDispatcher.Config) (roomId : RoomId) (agentName : AgentName)
    (cfg : AgentCfg) (projectDir : Str) : TimelineEvent → Option HandlerArgs
  | .text event => some (handlerArgs config roomId agentName cfg projectDir event)
  | .other => none

/-- The handlers of one room. -/
def expectedRoom (config : MatrixDispatcher.Config) (room : RoomId × List TimelineEvent) :
    List HandlerArgs :=
  match config.roomToAgent room.1 with
  | none => []
  | some (agentName, cfg) =>
    match cfg.projectDir with
    | none => []
    | some projectDir => room.2.filterMap (expectedEvent config room.1 agentName cfg projectDir)

/-- The handlers of a batch. -/
def expected (config : MatrixDispatcher.Config) (rooms : Rooms) : List HandlerArgs :=
  rooms.flatMap (expectedRoom config)

/-! ## The automaton -/

/-- What an effect and its response mean for the poll loop. -/
inductive PollAct where
  | read (found : Option Token)
  | synced (since : Option Token) (result : SyncResult)
  | write (token : Token)
  /-- The statement that writes the token failed. -/
  | refused
  | commit (done : Bool)
  | dispatch (args : HandlerArgs)
  | closing
  /-- The database is closed. -/
  | close
  | other

namespace PollAct

/-- What a synchronous effect means. -/
def ofSync : (e : SyncEff) → e.Ret → PollAct
  | .execute .getSince, .ok found => .read found
  | .execute (.setSince token _), .ok _ => .write token
  | .execute (.setSince _ _), .error _ => .refused
  | .commit, .ok _ => .commit true
  | .commit, .error _ => .commit false
  | .createTask (.handle args), _ => .dispatch args
  | .closeDb, _ => .close
  | .mark .closing, _ => .closing
  | _, _ => .other

/-- What an effect means. -/
def of : (e : Eff) → e.Ret → PollAct
  | .sync e, r => ofSync e r
  | .await (.sync since), .ok result => .synced since result
  | _, _ => .other

end PollAct

/-- How far `main` has come. -/
inductive PollStage where
  /-- The task does not run. -/
  | absent
  /-- A task other than `main`. -/
  | apart
  /-- The stored token is not read. -/
  | boot
  /-- There is no stored token. -/
  | seeding
  /-- The priming sync has brought a token, which is not written. -/
  | seeded (next : Token)
  /-- That token is written, but not committed. -/
  | seedWritten (next : Token)
  /-- The loop is about to sync. -/
  | ready (since : Option Token)
  /-- A sync with `since` has brought a batch, whose token is not written. -/
  | got (since : Option Token) (next : Token) (todo : List HandlerArgs)
  /-- That token is written, but not committed. -/
  | written (since : Option Token) (next : Token) (todo : List HandlerArgs)
  /-- The token is stored; the handlers `todo` are to be dispatched. -/
  | stored (since : Option Token) (next : Token) (todo : List HandlerArgs)
  /-- The token could not be stored, and the batch is given up. -/
  | lost (since : Option Token) (next : Token) (todo : List HandlerArgs)
  /-- `main` shuts down. -/
  | closed

namespace PollStage

/-- The stage is one of `main`. -/
def polls : PollStage → Bool
  | absent | apart => false
  | _ => true

/-- A token is written, but not committed. -/
def dirty : PollStage → Bool
  | seedWritten _ | written _ _ _ => true
  | _ => false

/-- The token of the next sync, if the loop may come to it. A batch is left unfinished only if the
configuration makes the dispatch raise. -/
def head? (config : MatrixDispatcher.Config) : PollStage → Option (Option Token)
  | ready since => some since
  | stored _ next todo => if todo = [] ∨ ¬config.WellFormed then some (some next) else none
  | lost _ next _ => some (some next)
  | _ => none

/-- The stage after a sync of the loop. -/
def fetched (config : MatrixDispatcher.Config) (since : Option Token) : SyncResult → PollStage
  | .response next rooms => .got since next (expected config rooms)
  | .error => .ready since

open Classical in
/-- The automaton of the poll loop. -/
noncomputable def step (config : MatrixDispatcher.Config) : PollStage → PollAct → Option PollStage
  | g, .other => some g
  | .seedWritten next, .commit true => some (.ready (some next))
  | .seedWritten next, .commit false => some (.seeded next)
  | .written since next todo, .commit true => some (.stored since next todo)
  | .written since next todo, .commit false => some (.lost since next todo)
  | g, .commit _ => some g
  | .boot, .read none => some .seeding
  | .boot, .read (some since) => some (.ready (some since))
  | .seeding, .synced none (.response next _) => some (.seeded next)
  | .seeding, .synced none .error => some (.ready none)
  | .seeded next, .write token => if token = next then some (.seedWritten next) else none
  | .seeded next, .refused => some (.seeded next)
  | .got since next todo, .write token =>
    if token = next then some (.written since next todo) else none
  | .got since next todo, .refused => some (.lost since next todo)
  | .stored since next (args :: todo), .dispatch args' =>
    if args' = args then some (.stored since next todo) else none
  | g, .synced since result =>
    if g.head? config = some since then some (fetched config since result) else none
  | .closed, .close => some .closed
  | g, .closing => if g.polls then some .closed else none
  | _, _ => none

end PollStage

/-! ## The steps of the automaton, one by one -/

/-- The transitions of `PollStage.step`. -/
inductive PollStep (config : MatrixDispatcher.Config) : PollStage → PollAct → PollStage → Prop
  | other (g) : PollStep config g .other g
  | seed (next) : PollStep config (.seedWritten next) (.commit true) (.ready (some next))
  | unseed (next) : PollStep config (.seedWritten next) (.commit false) (.seeded next)
  | store (since next todo) :
    PollStep config (.written since next todo) (.commit true) (.stored since next todo)
  | lose (since next todo) :
    PollStep config (.written since next todo) (.commit false) (.lost since next todo)
  | commit (g done) (h : g.dirty = false) : PollStep config g (.commit done) g
  | cold : PollStep config .boot (.read none) .seeding
  | warm (since) : PollStep config .boot (.read (some since)) (.ready (some since))
  | prime (next rooms) :
    PollStep config .seeding (.synced none (.response next rooms)) (.seeded next)
  | unprimed : PollStep config .seeding (.synced none .error) (.ready none)
  | seedWrite (next) : PollStep config (.seeded next) (.write next) (.seedWritten next)
  | seedRefused (next) : PollStep config (.seeded next) .refused (.seeded next)
  | write (since next todo) :
    PollStep config (.got since next todo) (.write next) (.written since next todo)
  | refused (since next todo) :
    PollStep config (.got since next todo) .refused (.lost since next todo)
  | dispatch (since next args todo) :
    PollStep config (.stored since next (args :: todo)) (.dispatch args) (.stored since next todo)
  | synced (g : PollStage) (since result) (h : g.head? config = some since) :
    PollStep config g (.synced since result) (.fetched config since result)
  | close : PollStep config .closed .close .closed
  | closing (g : PollStage) (h : g.polls = true) : PollStep config g .closing .closed

namespace PollStage

variable {config : MatrixDispatcher.Config}

/-- Every transition of the automaton is one of those. -/
theorem step_cases {g g' : PollStage} {act : PollAct} (h : g.step config act = some g') :
    PollStep config g act g' := by
  rw [step.eq_def] at h
  split at h
  case h_6 =>
    rename_i done hseed hunseed hstore hlose
    cases h
    refine .commit _ _ ?_
    cases g with
    | seedWritten next =>
      cases done
      · exact (hunseed next rfl rfl).elim
      · exact (hseed next rfl rfl).elim
    | written since next todo =>
      cases done
      · exact (hlose since next todo rfl rfl).elim
      · exact (hstore since next todo rfl rfl).elim
    | _ => rfl
  case h_19 => cases h
  all_goals first
    | (cases h
       constructor)
    | skip
  all_goals
    split at h
    case isFalse => cases h
    case isTrue hif => ?_
  all_goals cases h
  · exact hif ▸ .seedWrite _
  · exact hif ▸ .write _ _ _
  · exact hif ▸ .dispatch _ _ _ _
  · exact .synced _ _ _ hif
  · exact .closing _ hif

end PollStage

/-- The monitor of the poll loop. -/
noncomputable def pollMonitor (config : MatrixDispatcher.Config) :
    Monitor Eff Eff.Ret PollStage where
  next g e r := g.step config (PollAct.of e r)
  atomic _ := false
  final g := g = .apart ∨ g = .boot ∨ g = .closed
  idle := .absent
  atomic_idle := rfl

end MatrixDispatcher
