import MatrixDispatcher.Safety.Argv
import MatrixDispatcher.Safety.Batches
import MatrixDispatcher.Safety.Belonging
import MatrixDispatcher.Safety.Mirrors
import MatrixDispatcher.Safety.Order
import MatrixDispatcher.Safety.Retention

/-!
# Where sessions come from

The sender of a message is looked at in one place, at the start of its handler, while the runner is
also called long after that: for a reply, whose session is read from the tables, and for an
approval, which the reconcile loop finds there, in this process or in one that was started since.
Whatever the order of these steps is, a session that the runner is called for was made by the
handler of a message that the trusted sender sent to the root of a room.

* `Configured` — the agent and the directory are those that the configuration has for the room.
* `Taken` — the homeserver has shown the message, and its handler trusts the configured sender.
* `Created` — such a message of the trusted sender made the session.
* `Origins` — the sessions and approvals of the tables, the calls of the runner and its children
  have such an origin; `originContracts` says that each task keeps it so.
* `runner_call_created` — in every run, the runner is called for created sessions only.
* `children_confined` — in every run, each child works for one, in the directory and under the name
  of the agent of its room.
-/

namespace MatrixDispatcher

open Py Coro Machine Contract

variable {config : MatrixDispatcher.Config} {w w' : World} {t : Tid}

/-! ## Messages -/

/-- The agent and the directory are those that the configuration has for the room. -/
def Configured (config : MatrixDispatcher.Config) (room : RoomId) (agent : AgentName) (dir : Str) :
    Prop :=
  ∃ cfg, config.roomToAgent room = some (agent, cfg) ∧ cfg.projectDir = some dir

/-- The handler of the message works as configured and trusts the configured sender, and the
homeserver has shown the message in the timeline of its room. -/
structure Taken (config : MatrixDispatcher.Config) (w : World) (args : HandlerArgs) : Prop where
  configured : Configured config args.roomId args.agentName args.projectDir
  trusts : args.trustedSender = config.trustedSender.getD []
  shown : ∃ since next rooms events, Obs.synced since (.response next rooms) ∈ w.trace ∧
    (args.roomId, events) ∈ rooms ∧ TimelineEvent.text args.event ∈ events

theorem Taken.mono {args : HandlerArgs} (htrace : w.trace ⊆ w'.trace) (h : Taken config w args) :
    Taken config w' args := by
  obtain ⟨since, next, rooms, events, hmem, hrest⟩ := h.shown
  exact ⟨h.configured, h.trusts, since, next, rooms, events, htrace hmem, hrest⟩

/-- The latest batch of a trace is that of a sync. -/
theorem synced_of_lastBatch {trace : List Obs} : ∀ {b : Batch}, lastBatch trace = some b →
    Obs.synced b.since (.response b.next b.rooms) ∈ trace := by
  fun_induction lastBatch trace with
  | case1 | case2 | case3 => simp
  | case4 since next rooms trace =>
    intro b h
    obtain rfl := Option.some.inj h
    exact List.mem_cons_self
  | case5 args trace ih =>
    intro b h
    obtain ⟨b', hb', rfl⟩ := Option.map_eq_some_iff.mp h
    exact List.mem_cons_of_mem _ (ih (b := b') hb')
  | case6 o trace _ _ _ _ ih =>
    intro b h
    exact List.mem_cons_of_mem _ (ih h)

/-- A message that `main` is about to dispatch. -/
theorem taken_of_dispatch {allow : World → Step → Prop}
    {c : Machine.Config Tid Eff Eff.Ret World} (h : Reaches config allow c) {args : HandlerArgs}
    (habout : c.About t (.sync (.createTask (.handle args)))) : Taken config c.world args := by
  obtain ⟨G, -, ⟨halone, hagrees⟩, -, hnext⟩ :=
    ((pollInvariant config allow).extend (batchFocus config allow).extension).about h
      (pollCoverage config).good_initial ⟨fun _ h => Bool.noConfusion h, trivial⟩ habout
  obtain ⟨g', hg'⟩ := hnext ()
  have hstep := PollStage.step_cases hg'
  -- only `main` dispatches
  have ht : t = .main := by
    by_contra ht
    have hpolls : (G t).polls = false := Bool.eq_false_iff.mpr fun h => ht (halone t h)
    rcases PollStage.act_of_apart hpolls hstep with heq | ⟨_, heq⟩ <;> cases heq
  subst ht
  replace hagrees : Agrees config c.world.trace (G .main) := hagrees
  generalize G .main = g at hstep hagrees
  cases hstep with
  | dispatch since next _ todo =>
    obtain ⟨⟨rooms, done, hlast, hexpected⟩, -⟩ := hagrees
    have hargs : args ∈ expected config rooms := by
      rw [hexpected]
      exact List.mem_append_right _ List.mem_cons_self
    obtain ⟨room, hroom, agent, cfg, dir, event, hagent, hdir, hevent, rfl⟩ := mem_expected.mp hargs
    exact ⟨⟨cfg, hagent, hdir⟩, rfl, since, next, rooms, room.2, synced_of_lastBatch hlast,
      hroom, hevent⟩

/-! ## Sessions -/

/-- On the way to `c`, the handler of a message that the trusted sender sent to the root of a room
inserted this session, with the message as the thread root. -/
def Created (config : MatrixDispatcher.Config) (c : Machine.Config Tid Eff Eff.Ret World)
    (root : EventId) (session : SessionId) : Prop :=
  ∃ c₁ c₂ n a args now, Reaches config (fun _ _ => True) c₁ ∧
    c₁.About (.handler n)
      (.sync (.execute (.insertSession root args.roomId args.agentName session now))) ∧
    (dispatcher config).step c₁ (.task (.handler n) a) = some c₂ ∧
    (dispatcher config).Reachable (fun _ _ => True) c₂ c ∧
    ⟨root, args.roomId, args.agentName, session, now, now⟩ ∈ c₂.world.db.sessions ∧
    c₁.world.argsOf n = some args ∧ Taken config c₁.world args ∧
    args.event.eventId = root ∧ args.event.sender = config.trustedSender.getD [] ∧
    extractThreadRoot args.event = .ok none

/-- The turn is for a created session, with the agent and the directory of its room. -/
structure Rightful (config : MatrixDispatcher.Config) (c : Machine.Config Tid Eff Eff.Ret World)
    (turn : Turn) (cwd : Str) : Prop where
  created : Created config c turn.threadRootId turn.sessionId
  configured : Configured config turn.roomId turn.agentName cwd

/-- What a task may do with sessions on the way to `c`. -/
def originTerms (config : MatrixDispatcher.Config) (c : Machine.Config Tid Eff Eff.Ret World) :
    Request → SessionTerms
  | .handle args => {
      looks _ := True
      inserts root room agent _ := root = args.event.eventId ∧ room = args.roomId ∧
        agent = args.agentName ∧ args.event.sender = args.trustedSender ∧
        extractThreadRoot args.event = .ok none
      records root session _ := Created config c root session
      calls := Rightful config c
      aliases _ _ := True
      creates _ := False
      minted _ := True
      listed _ := True
      inserted root _ _ session := Created config c root session
      found _ row := Created config c row.threadRootId row.sessionId
      recent _ _ := True
      pending _ := True
      posted _ _ := True }
  | .reconcile => {
      looks _ := False
      inserts _ _ _ _ := False
      records root session _ := Created config c root session
      calls := Rightful config c
      aliases _ _ := True
      creates _ := False
      minted _ := True
      listed _ := True
      inserted _ _ _ _ := True
      found _ _ := True
      recent _ _ := True
      pending row := Created config c row.threadRootId row.sessionId
      posted _ _ := True }
  | _ => {
      looks _ := False
      inserts _ _ _ _ := False
      records _ _ _ := False
      calls _ _ := False
      aliases _ _ := False
      creates _ := True
      minted _ := True
      listed _ := True
      inserted _ _ _ _ := True
      found _ _ := True
      recent _ _ := True
      pending _ := True
      posted _ _ := True }

variable {c : Machine.Config Tid Eff Eff.Ret World}

theorem originTerms_fits {args : HandlerArgs} (h : args.event.sender = args.trustedSender)
    (hconfigured : Configured config args.roomId args.agentName args.projectDir) :
    (originTerms config c (.handle args)).Fits args where
  looks _ _ := trivial
  reply _ _ _ hfound := ⟨⟨hfound, hconfigured⟩, hfound, fun _ _ => trivial⟩
  spawn _ hroot _ := ⟨⟨rfl, rfl, rfl, h, hroot⟩, fun hcreated =>
    ⟨⟨hcreated, hconfigured⟩, hcreated, fun _ _ => trivial⟩⟩
  mirror _ hroot _ := ⟨⟨rfl, rfl, rfl, h, hroot⟩, fun _ _ _ => trivial⟩
  list _ _ _ _ := trivial

/-- The handler of a message of another sender does nothing. -/
theorem handler_keeps_of_untrusted {C : SessionTerms} {args : HandlerArgs}
    (h : args.event.sender ≠ args.trustedSender) : C.contract.Binds (handlerFiber args) := by
  refine Binds.once (Keeps.of_performs ?_)
  have hsilent : PerformsE C.promises (do await .start; handleEvent args) := by
    rw [handleEvent, if_pos h]
    exact performsE_bind (performsE_await trivial) fun _ => performsE_pure _
  exact Performs.bind hsilent fun _ => ⟨trivial, fun _ => trivial⟩

/-- Every task keeps its terms. -/
theorem originTerms_bind {request : Request}
    (htaken : ∀ args, request = .handle args → Taken config w args) :
    (originTerms config c request).contract.Binds (taskOf config request) := by
  cases request with
  | main => exact main_keeps fun _ _ => trivial
  | cleanup => exact cleanup_keeps
  | reconcile =>
    exact reconcile_keeps fun row hrow =>
      ⟨fun _ cfg _ hagent hdir => ⟨hrow, cfg, hagent, hdir⟩, hrow, fun _ _ => trivial⟩
  | handle args =>
    by_cases h : args.event.sender = args.trustedSender
    · exact handler_keeps (originTerms_fits h (htaken args rfl).configured)
    · exact handler_keeps_of_untrusted h

/-! ## Runs -/

/-- The rows of the tables are those of created sessions. -/
structure Rooted (config : MatrixDispatcher.Config) (c : Machine.Config Tid Eff Eff.Ret World)
    (db : Tables) : Prop where
  sessions : ∀ row ∈ db.sessions, Created config c row.threadRootId row.sessionId
  pending : ∀ row ∈ db.pendingApprovals, Created config c row.threadRootId row.sessionId

/-- What is asked of the tasks is known, and what they have done is for created sessions. -/
structure Origins (config : MatrixDispatcher.Config) (c : Machine.Config Tid Eff Eff.Ret World)
    (w : World) : Prop where
  numbered : w.Numbered
  taken : ∀ t args, (t, Request.handle args) ∈ w.inbox → Taken config w args
  db : Rooted config c w.db
  disk : Rooted config c w.disk
  calls : ∀ t turn, Obs.marked t (.runnerCall turn) ∈ w.trace →
    Created config c turn.threadRootId turn.sessionId
  children : ∀ p ∈ w.procs, Rightful config c p.turn p.cwd ∧ p.agentId = p.turn.agentName ∧
    p.argv = p.turn.argv

/-- The steps on the way to `c`. -/
abbrev onTheWay (config : MatrixDispatcher.Config) (c : Machine.Config Tid Eff Eff.Ret World) :
    World → Step → Prop :=
  (dispatcher config).Past (fun _ _ => True) (.ofWorld World.initial) c

/-- What must be known of a statement for the rows to be those of created sessions afterwards. -/
def Rooted.Admits (config : MatrixDispatcher.Config)
    (c : Machine.Config Tid Eff Eff.Ret World) : Stmt → Prop
  | .insertSession root _ _ session _ => Created config c root session
  | .insertPendingApproval row => Created config c row.threadRootId row.sessionId
  | _ => True

/-- The approvals after a statement are those before it, but for one that it inserts. -/
theorem approvals_of_exec {s : Stmt} {v : s.Ret} {db db' : Tables} (h : s.exec db = .ok (v, db'))
    {row : PendingRow} (hrow : row ∈ db'.pendingApprovals) :
    row ∈ db.pendingApprovals ∨ s = .insertPendingApproval row := by
  rcases (exec_tables h).2 with hsame | ⟨new, rfl⟩ | ⟨a, site, rfl⟩
  · exact .inl (hsame ▸ hrow)
  · cases h
    rcases Table.mem_insertOrReplace.mp hrow with ⟨hold, -⟩ | rfl
    · exact .inl hold
    · exact .inr rfl
  · cases h
    exact .inl (Table.mem_deleteWhere.mp hrow).1

theorem Rooted.exec {db db' : Tables} {s : Stmt} {v : s.Ret} (h : Rooted config c db)
    (hadmits : Rooted.Admits config c s) (hexec : s.exec db = .ok (v, db')) :
    Rooted config c db' where
  sessions row hrow := by
    rcases row_of_exec hexec hrow with ⟨old, hold, hroot, -, hsession⟩ | ⟨agent, now, rfl⟩
    · rw [← hroot, ← hsession]
      exact h.sessions old hold
    · exact hadmits
  pending row hrow := by
    rcases approvals_of_exec hexec hrow with hold | rfl
    · exact h.pending row hold
    · exact hadmits

/-- A session that is found is one of the table. -/
theorem Rooted.getSessionByEvent {db : Tables} (h : Rooted config c db) {e : EventId}
    {row : SessionRow} (hrow : db.getSessionByEvent e = some row) :
    Created config c row.threadRootId row.sessionId :=
  h.sessions row (Table.find?_eq_some.mp (find?_of_getSessionByEvent hrow)).1

section

variable {a : Answer} {e : Eff} {r : e.Ret} {request : Request}

/-- What is known of a task that runs a request. -/
structure Tasked (config : MatrixDispatcher.Config) (w : World) (t : Tid) (request : Request) :
    Prop where
  runs : w.Runs t request
  taken : ∀ args, request = .handle args → Taken config w args

/-- A session that a handler inserts is created, if the statement succeeds. -/
theorem created_of_insert (hallow : onTheWay config c w (.effect t e a))
    (htask : Tasked config w t request) (hpromises : (originTerms config c request).promises e)
    (hexec : exec t a e w = some (r, w')) {root : EventId} {room : RoomId} {agent : AgentName}
    {session : SessionId} {now : Int}
    (heff : e = .sync (.execute (.insertSession root room agent session now))) {v : Unit}
    (hres : Stmt.exec w.db (.insertSession root room agent session now) = .ok (v, w'.db)) :
    Created config c root session := by
  subst heff
  cases request with
  | handle args =>
    obtain ⟨rfl, rfl, rfl, hsender, hthread⟩ := hpromises
    obtain ⟨n, rfl, hargs⟩ := htask.runs
    have htaken := htask.taken args rfl
    obtain ⟨-, c₁, l, c₂, rfl, hevent, hreach, hstep, hrest⟩ := hallow
    obtain ⟨rfl, habout⟩ := Machine.about_of_event hevent hstep
    refine ⟨c₁, c₂, n, a, args, now, hreach, habout, hstep, hrest, ?_, hargs, htaken, rfl,
      hsender.trans htaken.trusts, hthread⟩
    -- the step of the run is the one that is looked at
    have hchange := Machine.change_of_step hstep
    rw [hevent] at hchange
    cases hchange with
    | effect _ hexec' =>
      have hsame : c₂.world = w' := (Prod.mk.inj (Option.some.inj (hexec'.symm.trans hexec))).2
      rw [Stmt.exec, Tables.insertSession] at hres
      split at hres
      case isFalse => cases hres
      rw [hsame, ← (Prod.mk.inj (Except.ok.inj hres)).2]
      exact List.mem_append_right _ List.mem_cons_self
  | _ => exact hpromises.elim

/-- What a task executes keeps the tables rooted. -/
theorem admits_of_execute {s : Stmt} {v : s.Ret}
    (hallow : onTheWay config c w (.effect t (.sync (.execute s)) a))
    (htask : Tasked config w t request)
    (hpromises : (originTerms config c request).promises (.sync (.execute s)))
    {r : (Eff.sync (.execute s)).Ret} (hexec : exec t a (.sync (.execute s)) w = some (r, w'))
    (hres : s.exec w.db = .ok (v, w'.db)) : Rooted.Admits config c s := by
  cases s with
  | insertSession root room agent session now =>
    exact created_of_insert hallow htask hpromises hexec rfl hres
  | insertPendingApproval row =>
    cases request with
    | handle args | reconcile => exact hpromises
    | _ => exact hpromises.elim
  | _ => trivial

/-- A task can rely on the responses it gets. -/
theorem originTerms_relies (hallow : onTheWay config c w (.effect t e a))
    (hinv : Origins config c w) (htask : Tasked config w t request)
    (hpromises : (originTerms config c request).promises e)
    (hexec : exec t a e w = some (r, w')) : (originTerms config c request).relies e r := by
  unfold SessionTerms.relies
  split
  · cases request <;> trivial
  · cases request <;> exact fun _ _ _ => trivial
  -- The insertion succeeded, so the session has a row from now on.
  · next root room agent session now v =>
    cases request with
    | handle args =>
      obtain ⟨⟨r', w''⟩, hquiet, heq⟩ := Option.map_eq_some_iff.mp hexec
      cases heq
      rcases execStmt_eq hquiet with ⟨_, hr, -⟩ | ⟨v', db, -, hw, hres, -⟩
      · cases hr
      · subst hw
        exact created_of_insert hallow htask hpromises hexec rfl hres
    | _ => trivial
  -- The row that was found is one of the table.
  · next e row =>
    cases request with
    | handle args =>
      obtain ⟨db, hres⟩ := Ledger.exec_of_execute hexec
      exact hinv.db.getSessionByEvent (Prod.mk.inj (Except.ok.inj hres)).1
    | _ => trivial
  · cases request <;> exact fun _ _ => trivial
  -- So are the rows that the loop reads.
  · next rows =>
    obtain ⟨db, hres⟩ := Ledger.exec_of_execute hexec
    cases hres
    intro row hrow
    cases request with
    | reconcile => exact hinv.db.pending row hrow
    | _ => trivial
  · cases request <;> trivial
  · trivial

/-- The tables of a process that goes on stay rooted. -/
theorem Origins.exec (hallow : onTheWay config c w (.effect t e a)) (hinv : Origins config c w)
    (htask : Tasked config w t request) (hpromises : (originTerms config c request).promises e)
    (hexec : exec t a e w = some (r, w')) : Origins config c w' := by
  -- Nothing is taken out of the trace, so what was shown stays so.
  have htrace : w.trace ⊆ w'.trace := by
    rw [exec_trace hexec]
    exact List.subset_append_right _ _
  obtain ⟨hdb, hdisk⟩ := Ledger.tables_of_exec hexec
  refine ⟨hinv.numbered.exec hexec, fun u args hitem => ?_, ?_, ?_, fun u turn hmark => ?_,
    fun p hp => ?_⟩
  · rcases exec_inbox hexec with heq | ⟨request', u', rfl, -, heq⟩
    · exact (hinv.taken u args (heq ▸ hitem)).mono htrace
    rw [heq] at hitem
    rcases List.mem_append.mp hitem with hold | hnew
    · exact (hinv.taken u args hold).mono htrace
    -- The new request is that of this effect.
    obtain ⟨rfl, rfl⟩ := Prod.mk.inj (List.mem_singleton.mp hnew)
    -- A new message is created where it was shown.
    obtain ⟨-, c₁, l, c₂, rfl, hevent, hreach, hstep, -⟩ := hallow
    obtain ⟨rfl, habout⟩ := Machine.about_of_event hevent hstep
    exact (taken_of_dispatch hreach habout).mono htrace
  · rcases hdb with heq | heq | ⟨s, v, rfl, hres, -⟩
    · exact heq ▸ hinv.db
    · exact heq ▸ hinv.disk
    · exact hinv.db.exec (admits_of_execute hallow htask hpromises hexec hres) hres
  · rcases hdisk with heq | heq
    · exact heq ▸ hinv.disk
    · exact heq ▸ hinv.db
  · rcases call_of_exec hexec hmark with hold | ⟨rfl, hcall⟩
    · exact hinv.calls u turn hold
    obtain rfl : e = .sync (.mark (.runnerCall turn)) := by
      have horigin := TurnAct.origin_of e r
      rwa [hcall] at horigin
    -- The task has promised the call.
    obtain ⟨cwd, hcalls⟩ := hpromises
    cases request with
    | handle args | reconcile => exact hcalls.created
    | _ => exact hcalls.elim
  · rcases procs_of_exec hexec with hsame | ⟨argv, cwd, agent, turn, rfl, hprocs⟩
    · exact hinv.children p (hsame ▸ hp)
    rw [hprocs] at hp
    rcases List.mem_append.mp hp with hold | hnew
    · exact hinv.children p hold
    obtain rfl := List.mem_singleton.mp hnew
    -- A new child is started as the task has promised.
    obtain ⟨hcalls, hargv, hagent⟩ := hpromises
    cases request with
    | handle args | reconcile => exact ⟨hcalls, hagent, hargv⟩
    | _ => exact hcalls.elim

end

/-- Every task keeps its terms, on the way to `c`. -/
def originContracts (config : MatrixDispatcher.Config)
    (c : Machine.Config Tid Eff Eff.Ret World) :
    Contracts (dispatcher config) (onTheWay config c) (Tid × Request) where
  contract role := (originTerms config c role.2).contract
  plays w t role := role.1 = t ∧ Tasked config w t role.2
  inv := Origins config c
  effect := by
    rintro w w' t a ⟨_, request⟩ e r hinv ⟨rfl, htask⟩ hpromises hallow hexec
    refine ⟨originTerms_relies hallow hinv htask hpromises hexec,
      hinv.exec hallow htask hpromises hexec, ?_⟩
    rintro u role ⟨hu, hrole⟩
    refine ⟨hu, hrole.runs.mono (prefix_dispatchedArgs hexec), fun args heq => ?_⟩
    refine (hrole.taken args heq).mono ?_
    rw [exec_trace hexec]
    exact List.subset_append_right _ _
  env := by
    intro w w' a hinv _ henv
    obtain ⟨m, -, hmoved⟩ := env_eq henv
    obtain ⟨htrace, hsame⟩ := moved_same hmoved
    have hdb : w'.db = w.db := hsame .db (by decide) (by decide) (by decide) (by decide)
    have hdisk : w'.disk = w.disk := hsame .disk (by decide) (by decide) (by decide) (by decide)
    have hinbox : w'.inbox = w.inbox :=
      hsame .inbox (by decide) (by decide) (by decide) (by decide)
    have hsub : w.trace ⊆ w'.trace := htrace ▸ List.Subset.refl _
    refine ⟨⟨hinv.numbered.moved hmoved, fun u args hitem =>
      (hinv.taken u args (hinbox ▸ hitem)).mono hsub, hdb ▸ hinv.db, hdisk ▸ hinv.disk,
      fun u turn hmark => hinv.calls u turn (htrace ▸ hmark), fun p hp => ?_⟩, ?_⟩
    · obtain ⟨p', hp', status, rfl⟩ := procs_of_moved hmoved hp
      exact hinv.children p' hp'
    · rintro u role ⟨hu, hrole⟩
      exact ⟨hu, hrole.runs.mono ⟨[], by rw [List.append_nil, htrace]⟩,
        fun args heq => (hrole.taken args heq).mono hsub⟩
  start := by
    intro w w' t fiber a hinv _ hstart
    obtain ⟨n, request, rfl, hitem, rfl, rfl⟩ := start_eq hstart
    have hmem := List.mem_of_getElem? hitem
    have hruns : ∀ {u request}, w.Runs u request →
        World.Runs { w with inbox := w.inbox.eraseIdx n } u request := fun {u request} h => by
      cases request <;> exact h
    have htaken : ∀ {args}, Taken config w args →
        Taken config { w with inbox := w.inbox.eraseIdx n } args :=
      fun h => ⟨h.configured, h.trusts, h.shown⟩
    have hrequest : ∀ args, request = .handle args → Taken config w args := by
      rintro args rfl
      exact hinv.taken t args hmem
    refine ⟨⟨(t, request), ⟨rfl, hruns (hinv.numbered.inbox _ hmem), ?_⟩,
      originTerms_bind hrequest⟩,
      ⟨hinv.numbered.started n, ?_, hinv.db, hinv.disk, hinv.calls, hinv.children⟩, ?_⟩
    · exact fun args heq => htaken (hrequest args heq)
    · intro u args hitem'
      exact htaken (hinv.taken u args (List.eraseIdx_subset hitem'))
    · rintro u role ⟨hu, hrole⟩
      exact ⟨hu, hruns hrole.runs, fun args heq => htaken (hrole.taken args heq)⟩
  crash := by
    intro w w' a hinv _ hcrash
    obtain ⟨-, rfl⟩ := crash_eq hcrash
    refine ⟨hinv.numbered.crashed, fun u args hitem => ?_, hinv.disk, hinv.disk,
      fun u turn hmark => ?_, hinv.children⟩
    · obtain ⟨-, hrequest⟩ := Prod.mk.inj (List.mem_singleton.mp hitem)
      cases hrequest
    · rcases List.mem_cons.mp hmark with heq | hold
      · cases heq
      · exact hinv.calls u turn hold

/-- In every run, what is in the tables and what was done has its origin. -/
theorem origins_of_reaches (h : Reaches config (fun _ _ => True) c) :
    Origins config c c.world := by
  have hempty : Rooted config c .empty :=
    ⟨fun _ hrow => (List.not_mem_nil hrow).elim, fun _ hrow => (List.not_mem_nil hrow).elim⟩
  have hinit : Origins config c World.initial := by
    refine ⟨.initial, fun u args hitem => ?_, hempty, hempty, fun u turn hmark => ?_,
      fun p hp => (List.not_mem_nil hp).elim⟩
    · obtain ⟨-, hrequest⟩ := Prod.mk.inj (List.mem_singleton.mp hitem)
      cases hrequest
    · cases hmark
  exact ((Roles.kept_ofWorld (P := (originContracts config c).roles) hinit).reachable h.past).inv

/-- The runner is called for no session but one that the handler of a message made which the
trusted sender sent to the root of a room. -/
theorem runner_call_created (h : Reaches config (fun _ _ => True) c) {turn : Turn}
    (hcall : Obs.marked t (.runnerCall turn) ∈ c.world.trace) :
    Created config c turn.threadRootId turn.sessionId :=
  (origins_of_reaches h).calls t turn hcall

/-- The runner is called on account of the approval. -/
def Obs.isCallOn (a : ApprovalId) : Obs → Bool
  | .marked _ (.runnerCall turn) => decide (turn.account = some a)
  | _ => false

/-- The process dies with an approved request on file; the next one finds it and resumes the
session, which is that of the first message. -/
theorem runner_call_created_restarted : ∃ c t turn, Reaches oneAgent (fun _ _ => True) c ∧
    Obs.marked t (.runnerCall turn) ∈ c.world.trace ∧ turn.account = some (lit "a1") ∧
    Created oneAgent c turn.threadRootId turn.sessionId := by
  obtain ⟨c, h, hgoal⟩ := reaches_of_play oneAgent
    (approving ++ [.step (.crash .done), .step (.start (.pick 0)), .go .main 7] ++ reconciling 15)
    (fun c => c.world.trace.head?.any (Obs.isCallOn (lit "a1")))
    (fun _ _ (_ : true = true) => trivial) (by decide +kernel)
  obtain ⟨o, hhead, hcall⟩ := (Option.any_eq_true ..).mp hgoal
  rw [Obs.isCallOn.eq_def] at hcall
  split at hcall
  · next t turn =>
    have hmem := List.mem_of_mem_head? hhead
    exact ⟨c, t, turn, h, hmem, of_decide_eq_true hcall, runner_call_created h hmem⟩
  · cases hcall

/-- Every child that was ever started works on a created session, in the directory and under the
name of the agent that the configuration has for its room, and has the command line of a turn. -/
theorem children_confined (h : Reaches config (fun _ _ => True) c) {p : Proc}
    (hp : p ∈ c.world.procs) :
    Created config c p.turn.threadRootId p.turn.sessionId ∧
      Configured config p.turn.roomId p.agentId p.cwd ∧ p.argv = p.turn.argv := by
  obtain ⟨hrightful, hagent, hargv⟩ := (origins_of_reaches h).children p hp
  exact ⟨hrightful.created, hagent ▸ hrightful.configured, hargv⟩

/-- The child of a reply. -/
theorem children_confined_replying : ∃ c p, Reaches oneAgent (fun _ _ => True) c ∧
    p ∈ c.world.procs ∧ p.turn.runner = .resumeClaude ∧
    Created oneAgent c p.turn.threadRootId p.turn.sessionId ∧
    Configured oneAgent p.turn.roomId p.agentId p.cwd ∧ p.argv = p.turn.argv := by
  obtain ⟨c, h, hgoal⟩ := reaches_of_play oneAgent (gating ++ replying 1)
    (fun c => c.world.procs.any fun p : Proc => decide (p.turn.runner = .resumeClaude))
    (fun _ _ (_ : true = true) => trivial) (by decide +kernel)
  obtain ⟨p, hp, hrunner⟩ := List.any_eq_true.mp hgoal
  exact ⟨c, p, h, hp, of_decide_eq_true hrunner, children_confined h hp⟩

end MatrixDispatcher
