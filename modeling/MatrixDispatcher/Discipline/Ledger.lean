import MatrixDispatcher.Discipline.Sessions
import MatrixDispatcher.Discipline.Supervise

/-!
# The ledger of sessions

Facts about session ids, events and rows that hold when they come into the dispatcher and are
passed on unchanged: through the tables, across restarts, into the command lines of children.

* `World.argsOf` — the message of a handler; handlers are numbered in the order of dispatch.
* `Ledger` — the facts; `Ledger.Governs` — what a filter on runs must say for them to hold where
  they come in.
* `Ledger.Sound` — the facts about the rows of the tables.
* `Ledger.contracts` — every task keeps its terms.
-/

namespace MatrixDispatcher

open Py Coro

variable {config : MatrixDispatcher.Config} {w w' : World}

/-! ## The messages of handlers -/

/-- The messages that were dispatched, in the order of their handlers. -/
def dispatchedArgs (trace : List Obs) : List HandlerArgs :=
  (trace.filterMap fun o =>
    match o with
    | .dispatched args => some args
    | _ => none).reverse

/-- The message of a handler. -/
def World.argsOf (w : World) (n : Nat) : Option HandlerArgs := (dispatchedArgs w.trace)[n]?

/-- Task `t` runs the request. -/
def World.Runs (w : World) (t : Tid) : Request → Prop
  | .main => t = .main
  | .cleanup => t = .cleanup
  | .reconcile => t = .reconcile
  | .handle args => ∃ n, t = .handler n ∧ w.argsOf n = some args

/-- The handlers are numbered in the order of dispatch, and the inbox says who runs what. -/
structure World.Numbered (w : World) : Prop where
  length : (dispatchedArgs w.trace).length = w.nextHandler
  inbox : ∀ item ∈ w.inbox, w.Runs item.1 item.2

/-- The observation of an effect is a dispatch if the effect is one. -/
theorem dispatchedArgs_of_exec {t : Tid} {a : Answer} {e : Eff} {r : e.Ret}
    (h : exec t a e w = some (r, w')) :
    dispatchedArgs w'.trace = dispatchedArgs w.trace ∨
      ∃ args, e = .sync (.createTask (.handle args)) ∧
        dispatchedArgs w'.trace = dispatchedArgs w.trace ++ [args] := by
  rw [exec_trace h]
  by_cases hcreate : ∃ args, e = .sync (.createTask (.handle args))
  · obtain ⟨args, rfl⟩ := hcreate
    exact .inr ⟨args, rfl, by simp [dispatchedArgs, obsOf]⟩
  · refine .inl ?_
    cases hobs : obsOf t e r with
    | none => rfl
    | some o =>
      cases o with
      | dispatched args =>
        rw [obsOf.eq_def] at hobs
        split at hobs <;> cases hobs
        exact absurd ⟨_, rfl⟩ hcreate
      | _ => rfl

/-- The message of a handler stays the same. -/
theorem argsOf_mono (h : dispatchedArgs w.trace <+: dispatchedArgs w'.trace) {n : Nat}
    {args : HandlerArgs} (hargs : w.argsOf n = some args) : w'.argsOf n = some args := by
  obtain ⟨more, hmore⟩ := h
  rw [World.argsOf, ← hmore]
  exact List.getElem?_append_left (List.getElem?_eq_some_iff.mp hargs).1 ▸ hargs

/-- A task that runs a request runs it later, too. -/
theorem World.Runs.mono (h : dispatchedArgs w.trace <+: dispatchedArgs w'.trace) {t : Tid}
    {request : Request} (hruns : w.Runs t request) : w'.Runs t request := by
  cases request with
  | handle args =>
    obtain ⟨n, ht, hargs⟩ := hruns
    exact ⟨n, ht, argsOf_mono h hargs⟩
  | _ => exact hruns

/-- An effect dispatches at most one message, after those before. -/
theorem prefix_dispatchedArgs {t : Tid} {a : Answer} {e : Eff} {r : e.Ret}
    (h : exec t a e w = some (r, w')) : dispatchedArgs w.trace <+: dispatchedArgs w'.trace := by
  rcases dispatchedArgs_of_exec h with heq | ⟨args, -, heq⟩
  · exact ⟨[], by rw [List.append_nil, heq]⟩
  · exact ⟨_, heq.symm⟩

/-- An effect keeps the numbering. -/
theorem World.Numbered.exec {t : Tid} {a : Answer} {e : Eff} {r : e.Ret} (hnum : w.Numbered)
    (h : exec t a e w = some (r, w')) : w'.Numbered := by
  have hprefix := prefix_dispatchedArgs h
  -- A new task is numbered when it is created; no other effect touches the inbox or the counter.
  by_cases hcreate : ∃ request, e = .sync (.createTask request)
  · obtain ⟨request, rfl⟩ := hcreate
    have hinbox : ∀ item ∈ w'.inbox, item ∈ w.inbox ∨ w'.Runs item.1 item.2 := by
      cases request with
      | handle args =>
        cases h
        intro item hitem
        rcases List.mem_append.mp hitem with hold | hnew
        · exact .inl hold
        · obtain rfl := List.mem_singleton.mp hnew
          refine .inr ⟨w.nextHandler, rfl, ?_⟩
          rw [World.argsOf, ← hnum.length]
          simp [World.observe, obsOf, dispatchedArgs, World.create]
      | _ =>
        cases h
        intro item hitem
        rcases List.mem_append.mp hitem with hold | hnew
        · exact .inl hold
        · obtain rfl := List.mem_singleton.mp hnew
          exact .inr rfl
    refine ⟨?_, fun item hitem => (hinbox item hitem).elim (fun hold =>
      (hnum.inbox item hold).mono hprefix) id⟩
    have hlength := hnum.length
    cases request <;> cases h <;>
      simpa [World.observe, obsOf, dispatchedArgs, World.create] using hlength
  · have hsame : ∀ {c : Component}, c = .inbox ∨ c = .nextHandler → c.Same w w' := by
      rintro c hc
      refine frame h fun hmem => hcreate ?_
      cases e with
      | sync e =>
        cases e <;> first
          | exact ⟨_, rfl⟩
          | (rcases hc with rfl | rfl <;> simp [Eff.writes] at hmem)
      | await e =>
        cases e <;> rcases hc with rfl | rfl <;> simp [Eff.writes, AwaitEff.writes] at hmem
    have hinbox : w'.inbox = w.inbox := hsame (.inl rfl)
    have hnext : w'.nextHandler = w.nextHandler := hsame (.inr rfl)
    refine ⟨?_, fun item hitem => (hnum.inbox item (hinbox ▸ hitem)).mono hprefix⟩
    rcases dispatchedArgs_of_exec h with heq | ⟨args, rfl, -⟩
    · rw [heq, hnext]
      exact hnum.length
    · exact absurd ⟨_, rfl⟩ hcreate

/-- At first no handler is numbered. -/
theorem World.Numbered.initial : World.initial.Numbered :=
  ⟨rfl, fun item hitem => by
    obtain rfl := List.mem_singleton.mp hitem
    rfl⟩

/-- A move of the world dispatches nothing. -/
theorem World.Numbered.moved {m : Move} (hnum : w.Numbered) (h : w.moved m = some w') :
    w'.Numbered := by
  obtain ⟨htrace, hsame⟩ := moved_same h
  have hinbox : w'.inbox = w.inbox := hsame .inbox (by decide) (by decide) (by decide) (by decide)
  have hnext : w'.nextHandler = w.nextHandler :=
    hsame .nextHandler (by decide) (by decide) (by decide) (by decide)
  refine ⟨by rw [htrace, hnext, hnum.length], fun item hitem => ?_⟩
  exact (hnum.inbox item (hinbox ▸ hitem)).mono ⟨[], by rw [List.append_nil, htrace]⟩

/-- A task that is taken from the inbox keeps its number. -/
theorem World.Numbered.started (hnum : w.Numbered) (n : Nat) :
    World.Numbered { w with inbox := w.inbox.eraseIdx n } :=
  ⟨hnum.length, fun item hitem =>
    (hnum.inbox item (List.eraseIdx_subset hitem)).mono List.prefix_rfl⟩

/-- A crash empties the inbox. -/
theorem World.Numbered.crashed (hnum : w.Numbered) : w.crashed.Numbered :=
  ⟨hnum.length, fun item hitem => by
    obtain rfl := List.mem_singleton.mp hitem
    rfl⟩

/-! ## Facts -/

/-- Facts about what passes through the dispatcher. -/
structure Ledger where
  /-- A session id is fit to be taken up. -/
  fresh : SessionId → Prop
  /-- A session belongs to a room. -/
  placed : RoomId → SessionId → Prop
  /-- An event is in a room. -/
  located : EventId → RoomId → Prop
  /-- A task finds a session for the event that its message names. -/
  found : Tid → HandlerArgs → EventId → SessionRow → Prop
  /-- A row was recorded. -/
  known : PendingRow → Prop
  join : ∀ {e root room room'}, located e room → located e room' → located root room' →
    located root room
  move : ∀ {root room room' session}, located root room → located root room' →
    placed room session → placed room' session

namespace Ledger

variable (L : Ledger)

/-- What is known of a session in the table. -/
structure Entered (config : MatrixDispatcher.Config) (root : EventId) (room : RoomId)
    (agent : AgentName) (session : SessionId) : Prop where
  agent : config.agentOf room = some agent
  placed : L.placed room session
  located : L.located root room

/-- What is known of a row of the sessions. -/
abbrev EnteredRow (config : MatrixDispatcher.Config) (row : SessionRow) : Prop :=
  L.Entered config row.threadRootId row.roomId row.agent row.sessionId

/-- An alias is in the room of its thread root. -/
def Linked (e root : EventId) : Prop := ∃ room, L.located e room ∧ L.located root room

/-- What is known of a session that waits for an approval. -/
structure Waits (root : EventId) (session : SessionId) (room : RoomId) : Prop where
  placed : L.placed room session
  located : L.located root room

/-- What is known of a row of the pending approvals. -/
abbrev WaitsRow (row : PendingRow) : Prop := L.Waits row.threadRootId row.sessionId row.roomId

/-- The facts about the rows of the tables. -/
structure Sound (config : MatrixDispatcher.Config) (trace : List Obs) (db : Tables) : Prop where
  sessions : ∀ row ∈ db.sessions, L.EnteredRow config row
  aliases : ∀ row ∈ db.eventAliases, L.Linked row.eventId row.threadRootId
  pending : ∀ row ∈ db.pendingApprovals, L.WaitsRow row ∧ Obs.recorded row ∈ trace

/-- What must be known of a statement for the facts to be true afterwards. -/
def Admits (config : MatrixDispatcher.Config) (trace : List Obs) : Stmt → Prop
  | .insertSession root room agent session _ => L.Entered config root room agent session
  | .registerAlias e root => L.Linked e root
  | .insertPendingApproval row => L.WaitsRow row ∧ Obs.recorded row ∈ trace
  | _ => True

variable {L} {trace trace' : List Obs} {db db' : Tables}

/-- The facts stay true as the trace grows. -/
theorem Sound.mono (htrace : trace ⊆ trace') (h : L.Sound config trace db) :
    L.Sound config trace' db :=
  ⟨h.sessions, h.aliases, fun row hrow => (h.pending row hrow).imp_right fun h => htrace h⟩

/-- They are true of empty tables. -/
theorem Sound.empty : L.Sound config trace .empty :=
  ⟨fun _ h => (List.not_mem_nil h).elim, fun _ h => (List.not_mem_nil h).elim,
    fun _ h => (List.not_mem_nil h).elim⟩

/-- A statement that is admitted keeps the facts. -/
theorem Sound.exec {s : Stmt} {v : s.Ret} (h : L.Sound config trace db)
    (hadmits : L.Admits config trace s) (hexec : s.exec db = .ok (v, db')) :
    L.Sound config trace db' := by
  cases s with
  -- A new alias is located where its root is, which is what `Admits` says.
  | registerAlias e root =>
    rcases hres : db.registerAlias e root with x | db₁ <;> rw [Stmt.exec, hres] at hexec <;>
      cases hexec
    rw [Tables.registerAlias] at hres
    split at hres
    · cases hres
      exact h
    split at hres
    · split at hres <;> cases hres
      refine ⟨h.sessions, fun row hrow => ?_, h.pending⟩
      rcases List.mem_append.mp hrow with hold | hnew
      · exact h.aliases row hold
      · obtain rfl := List.mem_singleton.mp hnew
        exact hadmits
    · cases hres
      exact h
  -- A new row was entered for a message, by `Admits` again.
  | insertSession root room agent session now =>
    rcases hres : db.insertSession root room agent session now with x | db₁ <;>
      rw [Stmt.exec, hres] at hexec <;> cases hexec
    rw [Tables.insertSession] at hres
    split at hres <;> cases hres
    refine ⟨fun row hrow => ?_, h.aliases, h.pending⟩
    rcases List.mem_append.mp hrow with hold | hnew
    · exact h.sessions row hold
    · obtain rfl := List.mem_singleton.mp hnew
      exact hadmits
  -- The rows keep everything but the time.
  | touchSession root now =>
    cases hexec
    refine ⟨fun row hrow => ?_, h.aliases, h.pending⟩
    obtain ⟨row', hrow', rfl⟩ := List.mem_map.mp hrow
    have hold := h.sessions row' hrow'
    dsimp only
    split <;> exact hold
  | insertPendingApproval row =>
    cases hexec
    refine ⟨h.sessions, h.aliases, fun row' hrow' => ?_⟩
    rcases Table.mem_insertOrReplace.mp hrow' with ⟨hold, -⟩ | rfl
    · exact h.pending row' hold
    · exact hadmits
  | deletePendingApproval a site =>
    cases hexec
    exact ⟨h.sessions, h.aliases, fun row hrow => h.pending row (Table.mem_deleteWhere.mp hrow).1⟩
  | deleteStaleAliases cutoff =>
    cases hexec
    exact ⟨h.sessions, fun row hrow => h.aliases row (Table.mem_deleteWhere.mp hrow).1, h.pending⟩
  | deleteStaleSessions cutoff =>
    rw [Stmt.exec, Tables.deleteStaleSessions] at hexec
    split at hexec <;> cases hexec
    exact ⟨fun row hrow => h.sessions row (Table.mem_deleteWhere.mp hrow).1, h.aliases, h.pending⟩
  | sweepOrphanAliases =>
    cases hexec
    exact ⟨h.sessions, fun row hrow => h.aliases row (Table.mem_deleteWhere.mp hrow).1, h.pending⟩
  -- The rest only reads.
  | _ =>
    cases hexec
    exact ⟨h.sessions, h.aliases, h.pending⟩

/-- The session that is found for an event is one of the table, and the event is in the room of
its thread root. -/
theorem Sound.getSessionByEvent (h : L.Sound config trace db) {e : EventId} {row : SessionRow}
    {room : RoomId} (hrow : db.getSessionByEvent e = some row) (he : L.located e room) :
    L.EnteredRow config row ∧ L.located row.threadRootId room := by
  rw [Tables.getSessionByEvent.eq_def] at hrow
  split at hrow
  · next hfind =>
    cases hrow
    obtain ⟨hmem, rfl⟩ := Table.find?_eq_some.mp hfind
    exact ⟨h.sessions row hmem, he⟩
  -- The event is an alias, and so located with its root.
  · split at hrow
    · next hfind =>
      obtain ⟨hmem, rfl⟩ := Table.find?_eq_some.mp hfind
      obtain ⟨hmem', hkey⟩ := Table.find?_eq_some.mp hrow
      obtain ⟨room', he', hroot⟩ := h.aliases _ hmem
      refine ⟨h.sessions row hmem', ?_⟩
      rw [show row.threadRootId = _ from hkey]
      exact L.join he he' hroot
    · cases hrow

/-! ## Terms -/

variable (L)

/-- What is known of a message. -/
structure Accepts (config : MatrixDispatcher.Config) (args : HandlerArgs) : Prop where
  agent : config.agentOf args.roomId = some args.agentName
  located : L.located args.event.eventId args.roomId
  named : ∀ e, extractThreadRoot args.event = .ok (some e) → L.located e args.roomId

/-- What is known of the session that a message finds. -/
structure Finds (config : MatrixDispatcher.Config) (t : Tid) (args : HandlerArgs) (e : EventId)
    (row : SessionRow) : Prop where
  agent : config.agentOf args.roomId = some args.agentName
  thread : extractThreadRoot args.event = .ok (some e)
  found : L.found t args e row
  entered : L.EnteredRow config row
  located : L.located row.threadRootId args.roomId

/-- A turn of a message: of a reply, or of a new session. -/
inductive HandlerCalls (config : MatrixDispatcher.Config) (t : Tid) (args : HandlerArgs) :
    Turn → Prop
  | reply (e : EventId) (row : SessionRow) (h : L.Finds config t args e row) :
    HandlerCalls config t args (replyOf args args.event.body.strip row)
  | spawn (session : SessionId) (hthread : extractThreadRoot args.event = .ok none)
    (hfresh : L.fresh session)
    (h : L.Entered config args.event.eventId args.roomId args.agentName session) :
    HandlerCalls config t args (newOf args args.event.body.strip session)

/-- A turn of an approval. -/
inductive ReconcileCalls (config : MatrixDispatcher.Config) : Turn → Str → Prop
  | mk (row : PendingRow) (agent : AgentName) (cfg : AgentCfg) (dir : Str) (h : L.WaitsRow row)
    (hknown : L.known row) (hagent : config.roomToAgent row.roomId = some (agent, cfg))
    (hdir : cfg.projectDir = some dir) : ReconcileCalls config (approvedOf row agent) dir

/-- The terms of the handler of a message. -/
def handlerTerms (config : MatrixDispatcher.Config) (t : Tid) (args : HandlerArgs) :
    SessionTerms where
  looks e := extractThreadRoot args.event = .ok (some e)
  inserts root room agent session := root = args.event.eventId ∧ room = args.roomId ∧
    agent = args.agentName ∧ L.fresh session
  records := L.Waits
  calls turn cwd := L.HandlerCalls config t args turn ∧ cwd = args.projectDir
  aliases := L.Linked
  creates _ := False
  minted := L.fresh
  listed := L.fresh
  inserted := L.Entered config
  found := L.Finds config t args
  recent room row := L.EnteredRow config row ∧ row.roomId = room
  pending _ := True
  posted room e := L.located e room

/-- The terms of the reconcile loop. -/
def reconcileTerms (config : MatrixDispatcher.Config) : SessionTerms where
  looks _ := False
  inserts _ _ _ _ := False
  records := L.Waits
  calls := L.ReconcileCalls config
  aliases := L.Linked
  creates _ := False
  minted _ := True
  listed _ := True
  inserted _ _ _ _ := True
  found _ _ := True
  recent _ _ := True
  pending row := L.WaitsRow row ∧ L.known row
  posted room e := L.located e room

/-- The terms of `main` and of the cleanup loop. -/
def systemTerms (config : MatrixDispatcher.Config) : SessionTerms where
  looks _ := False
  inserts _ _ _ _ := False
  records _ _ _ := False
  calls _ _ := False
  aliases _ _ := False
  creates args := config.agentOf args.roomId = some args.agentName
  minted _ := True
  listed _ := True
  inserted _ _ _ _ := True
  found _ _ := True
  recent _ _ := True
  pending _ := True
  posted _ _ := True

/-- The terms of task `t` that runs a request. -/
def terms (config : MatrixDispatcher.Config) (t : Tid) : Request → SessionTerms
  | .main | .cleanup => systemTerms config
  | .reconcile => L.reconcileTerms config
  | .handle args => L.handlerTerms config t args

variable {L}

/-- The terms of a handler fit what it does with its message. -/
theorem handlerTerms_fits {t : Tid} {args : HandlerArgs} :
    (L.handlerTerms config t args).Fits args where
  looks _ := id
  reply e row _ hfinds := {
    calls := ⟨.reply e row hfinds, rfl⟩
    records := ⟨L.move hfinds.entered.located hfinds.located hfinds.entered.placed, hfinds.located⟩
    threads := fun p hp => ⟨args.roomId, hp, hfinds.located⟩ }
  spawn session hthread hfresh := ⟨⟨rfl, rfl, rfl, hfresh⟩, fun hentered => {
    calls := ⟨.spawn session hthread hfresh hentered, rfl⟩
    records := ⟨hentered.placed, hentered.located⟩
    threads := fun p hp => ⟨args.roomId, hp, hentered.located⟩ }⟩
  mirror session _ hfresh := ⟨⟨rfl, rfl, rfl, hfresh⟩, fun hentered p hp =>
    ⟨args.roomId, hp, hentered.located⟩⟩
  list := by
    rintro row ⟨hentered, hroom⟩ p hp
    exact ⟨args.roomId, hp, hroom ▸ hentered.located⟩

/-- The terms of the loop let it resume a row that waits. -/
theorem reconcileTerms_resumes {row : PendingRow} (h : (L.reconcileTerms config).pending row) :
    (L.reconcileTerms config).Resumes config row where
  calls agent cfg dir hagent hdir := .mk row agent cfg dir h.1 h.2 hagent hdir
  records := h.1
  threads _ he := ⟨row.roomId, he, h.1.located⟩

/-- Every request keeps its terms. -/
theorem terms_bind (t : Tid) (request : Request) :
    (L.terms config t request).contract.Binds (taskOf config request) := by
  cases request with
  | main => exact main_keeps fun _ => id
  | cleanup => exact cleanup_keeps
  | reconcile => exact reconcile_keeps fun _ => reconcileTerms_resumes
  | handle args => exact handler_keeps handlerTerms_fits

/-! ## Runs -/

variable (L)

/-- What a filter on runs must say for the facts to hold where they come in. -/
structure Governs (config : MatrixDispatcher.Config) (allow : World → Step → Prop) : Prop where
  minted : ∀ {w t session}, allow w (.effect t (.sync .uuid4) (.text session)) → L.fresh session
  listed : ∀ {w t dir files f}, allow w (.effect t (.sync (.listTranscripts dir))
    (.listing (some files))) → f ∈ files → uuidAccepts f.1 = true → L.fresh f.1
  placed : ∀ {w t root room agent session now a},
    allow w (.effect t (.sync (.execute (.insertSession root room agent session now))) a) →
      L.fresh session → L.placed room session
  posted : ∀ {w t room body replyTo e},
    allow w (.effect t (.await (.roomSend room body replyTo)) (.text e)) → L.located e room
  accepts : ∀ {w t args a}, allow w (.effect t (.sync (.createTask (.handle args))) a) →
    config.agentOf args.roomId = some args.agentName → L.Accepts config args
  found : ∀ {w t args e a row}, allow w (.effect t (.sync (.execute (.getSessionByEvent e))) a) →
    w.Runs t (.handle args) → w.db.getSessionByEvent e = some row → L.found t args e row
  known : ∀ {w t a row}, allow w (.effect t (.sync (.execute .getPendingApprovals)) a) →
    Obs.recorded row ∈ w.trace → L.known row

/-- What is known of a request. -/
def Requested (config : MatrixDispatcher.Config) : Request → Prop
  | .handle args => L.Accepts config args
  | _ => True

/-- What is known of the world. -/
structure Holds (config : MatrixDispatcher.Config) (w : World) : Prop where
  numbered : w.Numbered
  requested : ∀ item ∈ w.inbox, L.Requested config item.2
  db : L.Sound config w.trace w.db
  disk : L.Sound config w.trace w.disk

variable {L} {allow : World → Step → Prop} {t : Tid} {a : Answer} {e : Eff} {r : e.Ret}
  {request : Request}

/-- What a task executes is admitted. -/
theorem admits_of_promises {s : Stmt} (hgoverns : L.Governs config allow)
    (hruns : w.Runs t request) (hrequested : L.Requested config request)
    (hpromises : (L.terms config t request).promises (.sync (.execute s)))
    (hallow : allow w (.effect t (.sync (.execute s)) a))
    (hrecorded : ∀ row, s = .insertPendingApproval row → Obs.recorded row ∈ trace) :
    L.Admits config trace s := by
  cases s with
  -- Only handlers promise to insert sessions.
  | insertSession root room agent session now =>
    cases request with
    | handle args =>
      obtain ⟨rfl, rfl, rfl, hfresh⟩ := hpromises
      have haccepts : L.Accepts config args := hrequested
      exact ⟨haccepts.agent, hgoverns.placed hallow hfresh, haccepts.located⟩
    | _ => exact hpromises.elim
  | registerAlias e root =>
    cases request with
    | main | cleanup => exact hpromises.elim
    | _ => exact hpromises
  | insertPendingApproval row =>
    cases request with
    | main | cleanup => exact hpromises.elim
    | _ => exact ⟨hpromises, hrecorded row rfl⟩
  | _ => trivial

/-- The tables after an effect. -/
theorem tables_of_exec (h : exec t a e w = some (r, w')) :
    (w'.db = w.db ∨ w'.db = w.disk ∨ ∃ s v, e = .sync (.execute s) ∧
      s.exec w.db = .ok (v, w'.db) ∧
        ∀ row, s = .insertPendingApproval row → Obs.recorded row ∈ w'.trace) ∧
    (w'.disk = w.disk ∨ w'.disk = w.db) := by
  have hdb : Component.db ∉ e.writes → w'.db = w.db := frame h
  have hdisk : Component.disk ∉ e.writes → w'.disk = w.disk := frame h
  cases e with
  | sync e =>
    cases e with
    -- A statement changes what the connection sees, if it succeeds.
    | execute s =>
      refine ⟨?_, .inl (hdisk (by simp [Eff.writes]))⟩
      obtain ⟨⟨r', w''⟩, hquiet, heq⟩ := Option.map_eq_some_iff.mp h
      cases heq
      rcases execStmt_eq hquiet with ⟨_, -, -, rfl⟩ | ⟨v, db, rfl, rfl, hexec, -⟩
      · exact .inl rfl
      · refine .inr (.inr ⟨s, v, rfl, hexec, ?_⟩)
        rintro row rfl
        exact List.mem_cons_self
    -- A commit changes the file.
    | commit =>
      refine ⟨.inl (hdb (by simp [Eff.writes])), ?_⟩
      obtain ⟨⟨r', w''⟩, hquiet, heq⟩ := Option.map_eq_some_iff.mp h
      cases heq
      rcases execCommit_eq hquiet with ⟨_, -, -, rfl⟩ | ⟨-, rfl, -⟩
      · exact .inl rfl
      · exact .inr rfl
    | closeDb =>
      cases h
      exact ⟨.inr (.inl rfl), .inl rfl⟩
    | _ => exact ⟨.inl (hdb (by simp [Eff.writes])), .inl (hdisk (by simp [Eff.writes]))⟩
  | await e =>
    refine ⟨.inl (hdb ?_), .inl (hdisk ?_)⟩ <;> cases e <;> simp [Eff.writes, AwaitEff.writes]

/-- What a statement answers. -/
theorem exec_of_execute {s : Stmt} {v : s.Ret}
    (h : exec t a (.sync (.execute s)) w = some (.ok v, w')) : ∃ db, s.exec w.db = .ok (v, db) := by
  obtain ⟨⟨r', w''⟩, hquiet, heq⟩ := Option.map_eq_some_iff.mp h
  cases heq
  rcases execStmt_eq hquiet with ⟨_, hr, -⟩ | ⟨v', db, hr, -, hexec, -⟩
  · cases hr
  · cases hr
    exact ⟨db, hexec⟩

/-- A task can rely on the responses it gets. -/
theorem relies_of_exec (hgoverns : L.Governs config allow) (hholds : L.Holds config w)
    (hruns : w.Runs t request) (hrequested : L.Requested config request)
    (hpromises : (L.terms config t request).promises e) (hallow : allow w (.effect t e a))
    (h : exec t a e w = some (r, w')) : (L.terms config t request).relies e r := by
  unfold SessionTerms.relies
  split
  -- A new id is one that `minted` allows.
  · next session =>
    have ha : a = .text session := by
      cases a <;> cases h
      rfl
    subst ha
    cases request <;> first | trivial | exact hgoverns.minted hallow
  -- A listing holds transcripts that `listed` allows.
  · next files =>
    have ha : a = .listing (some files) := by
      cases a with
      | listing _ =>
        cases h
        rfl
      | raised x => cases x <;> cases h
      | _ => cases h
    subst ha
    cases request <;> first
      | exact fun _ _ _ => trivial
      | exact fun _ hmem haccepts => hgoverns.listed hallow hmem haccepts
  · next root room agent session now _ =>
    cases request with
    | handle args =>
      have hrecorded : ∀ row, Stmt.insertSession root room agent session now =
          .insertPendingApproval row → Obs.recorded row ∈ w'.trace := by rintro _ ⟨⟩
      exact admits_of_promises hgoverns hruns hrequested hpromises hallow hrecorded
    | _ => trivial
  -- A row that was found is sound, as all rows are.
  · next e row =>
    cases request with
    | handle args =>
      have haccepts : L.Accepts config args := hrequested
      obtain ⟨db, hexec⟩ := exec_of_execute h
      have hrow : w.db.getSessionByEvent e = some row := (Prod.mk.inj (Except.ok.inj hexec)).1
      obtain ⟨hentered, hlocated⟩ :=
        hholds.db.getSessionByEvent hrow (haccepts.named e hpromises)
      exact ⟨haccepts.agent, hpromises, hgoverns.found hallow hruns hrow, hentered, hlocated⟩
    | _ => trivial
  · next room limit rows =>
    obtain ⟨db, hexec⟩ := exec_of_execute h
    cases hexec
    intro row hrow
    cases request with
    | handle args =>
      have hmem := List.mem_of_mem_take hrow
      rw [List.mem_insertionSort, List.mem_reverse, List.mem_filter] at hmem
      exact ⟨hholds.db.sessions row hmem.1, by simpa using hmem.2⟩
    | _ => trivial
  -- And so are the recorded rows.
  · next rows =>
    obtain ⟨db, hexec⟩ := exec_of_execute h
    cases hexec
    intro row hrow
    cases request with
    | reconcile =>
      obtain ⟨hwaits, hrecorded⟩ := hholds.db.pending row hrow
      exact ⟨hwaits, hgoverns.known hallow hrecorded⟩
    | _ => trivial
  -- The id of a post is one that `posted` allows.
  · next room body replyTo e =>
    have ha : a = .text e := by
      obtain ⟨⟨r', w''⟩, hquiet, heq⟩ := Option.map_eq_some_iff.mp h
      cases heq
      rcases execAwait_eq hquiet with ⟨-, heq, -⟩ | ⟨-, hop⟩
      · cases heq
      · rw [execOperation.eq_def] at hop
        dsimp only at hop
        split at hop
        · cases hop
          rfl
        · obtain ⟨-, _, heq, -⟩ := failure_eq hop
          cases heq
    subst ha
    cases request <;> first | trivial | exact hgoverns.posted hallow
  · trivial

/-- A request is created with what must be known of it. -/
theorem Requested.of_create {request' : Request} (hgoverns : L.Governs config allow)
    (hpromises : (L.terms config t request).promises (.sync (.createTask request')))
    (hallow : allow w (.effect t (.sync (.createTask request')) a)) :
    L.Requested config request' := by
  cases request' with
  | handle args =>
    cases request with
    | main | cleanup => exact hgoverns.accepts hallow hpromises
    | _ => exact hpromises.elim
  | _ => trivial

namespace Holds

/-- The facts hold in a fresh world. -/
theorem initial : L.Holds config .initial where
  numbered := .initial
  requested item hitem := by
    obtain rfl := List.mem_singleton.mp hitem
    trivial
  db := .empty
  disk := .empty

/-- They hold after an effect of a task that keeps its terms. -/
theorem exec (hgoverns : L.Governs config allow) (hholds : L.Holds config w)
    (hruns : w.Runs t request) (hrequested : L.Requested config request)
    (hpromises : (L.terms config t request).promises e) (hallow : allow w (.effect t e a))
    (h : exec t a e w = some (r, w')) : L.Holds config w' := by
  have htrace : w.trace ⊆ w'.trace := by
    rw [exec_trace h]
    exact List.subset_append_right _ _
  obtain ⟨hdb, hdisk⟩ := tables_of_exec h
  refine ⟨hholds.numbered.exec h, fun item hitem => ?_, ?_, ?_⟩
  -- A task that is created was requested.
  · rcases exec_inbox h with heq | ⟨request', u, rfl, -, heq⟩
    · exact hholds.requested item (heq ▸ hitem)
    · rw [heq] at hitem
      rcases List.mem_append.mp hitem with hold | hnew
      · exact hholds.requested item hold
      · obtain rfl := List.mem_singleton.mp hnew
        exact Requested.of_create hgoverns hpromises hallow
  -- What the connection sees: it is as before, as in the file, or a statement was executed.
  · rcases hdb with heq | heq | ⟨s, v, rfl, hexec, hrecorded⟩
    · exact heq ▸ hholds.db.mono htrace
    · exact heq ▸ hholds.disk.mono htrace
    · exact (hholds.db.mono htrace).exec
        (admits_of_promises hgoverns hruns hrequested hpromises hallow hrecorded) hexec
  · rcases hdisk with heq | heq
    · exact heq ▸ hholds.disk.mono htrace
    · exact heq ▸ hholds.db.mono htrace

/-- A move of the world changes none of the facts. -/
theorem moved {m : Move} (hholds : L.Holds config w) (h : w.moved m = some w') :
    L.Holds config w' ∧ ∀ t request, w.Runs t request → w'.Runs t request := by
  -- A move touches neither the tables nor the trace.
  obtain ⟨htrace, hsame⟩ := moved_same h
  have hdb : w'.db = w.db := hsame .db (by decide) (by decide) (by decide) (by decide)
  have hdisk : w'.disk = w.disk := hsame .disk (by decide) (by decide) (by decide) (by decide)
  have hinbox : w'.inbox = w.inbox := hsame .inbox (by decide) (by decide) (by decide) (by decide)
  have hruns : ∀ t request, w.Runs t request → w'.Runs t request :=
    fun t request => World.Runs.mono ⟨[], by rw [List.append_nil, htrace]⟩
  refine ⟨⟨hholds.numbered.moved h, fun item hitem => ?_, ?_, ?_⟩, hruns⟩
  · exact hholds.requested item (hinbox ▸ hitem)
  · rw [htrace, hdb]
    exact hholds.db
  · rw [htrace, hdisk]
    exact hholds.disk

/-- A task that starts runs its request under its terms. -/
theorem start {fiber : Fiber Eff Eff.Ret} (hholds : L.Holds config w)
    (h : (dispatcher config).start a w = some (t, fiber, w')) :
    (∃ request, (w'.Runs t request ∧ L.Requested config request) ∧
      (L.terms config t request).contract.Binds fiber) ∧
    L.Holds config w' ∧ ∀ u request, w.Runs u request → w'.Runs u request := by
  obtain ⟨n, request, rfl, hitem, rfl, rfl⟩ := start_eq h
  have hmem := List.mem_of_getElem? hitem
  have hsub : ∀ item ∈ w.inbox.eraseIdx n, item ∈ w.inbox := fun _ h => List.eraseIdx_subset h
  have hruns : ∀ u request, w.Runs u request →
      World.Runs { w with inbox := w.inbox.eraseIdx n } u request := fun u request h => by
    cases request <;> exact h
  refine ⟨⟨request, ⟨hruns _ _ (hholds.numbered.inbox _ hmem), hholds.requested _ hmem⟩,
    terms_bind t request⟩, ⟨hholds.numbered.started n, fun item hitem =>
      hholds.requested item (hsub item hitem), hholds.db, hholds.disk⟩, hruns⟩

/-- A crash keeps the facts about the file. -/
theorem crashed (hholds : L.Holds config w) : L.Holds config w.crashed where
  numbered := hholds.numbered.crashed
  requested item hitem := by
    obtain rfl := List.mem_singleton.mp hitem
    trivial
  db := hholds.disk.mono (List.subset_cons_self _ _)
  disk := hholds.disk.mono (List.subset_cons_self _ _)

end Holds

/-- Every task keeps its terms, and the facts hold in every world. -/
def contracts (hgoverns : L.Governs config allow) :
    Contracts (dispatcher config) allow (Tid × Request) where
  contract role := (L.terms config role.1 role.2).contract
  plays w t role := role.1 = t ∧ w.Runs t role.2 ∧ L.Requested config role.2
  inv := L.Holds config
  effect := by
    rintro w w' t a ⟨_, request⟩ e r hholds ⟨rfl, hruns, hrequested⟩ hpromises hallow hexec
    refine ⟨relies_of_exec hgoverns hholds hruns hrequested hpromises hallow hexec,
      hholds.exec hgoverns hruns hrequested hpromises hallow hexec, fun u role h => ?_⟩
    exact ⟨h.1, h.2.1.mono (prefix_dispatchedArgs hexec), h.2.2⟩
  env := by
    intro w w' a hholds _ henv
    obtain ⟨m, -, hmoved⟩ := env_eq henv
    obtain ⟨hholds', hruns⟩ := hholds.moved hmoved
    exact ⟨hholds', fun u role h => ⟨h.1, hruns u role.2 h.2.1, h.2.2⟩⟩
  start := by
    intro w w' t fiber a hholds _ hstart
    obtain ⟨⟨request, hplays, hbinds⟩, hholds', hruns⟩ := hholds.start hstart
    exact ⟨⟨(t, request), ⟨rfl, hplays⟩, hbinds⟩, hholds',
      fun u role h => ⟨h.1, hruns u role.2 h.2.1, h.2.2⟩⟩
  crash := by
    intro w w' a hholds _ hcrash
    obtain ⟨-, rfl⟩ := crash_eq hcrash
    exact hholds.crashed

/-- A task that is about to perform an effect runs a request and does as its terms say. -/
theorem about (hgoverns : L.Governs config allow) {c : Machine.Config Tid Eff Eff.Ret World}
    (h : Reaches config allow c) (habout : c.About t e) :
    ∃ request, c.world.Runs t request ∧ L.Requested config request ∧
      (L.terms config t request).promises e := by
  have hkept := (Roles.kept_ofWorld (P := (contracts hgoverns).roles) Holds.initial).reachable h
  obtain ⟨⟨_, request⟩, ⟨rfl, hruns, hrequested⟩, hpromises⟩ :=
    (contracts hgoverns).about hkept habout
  exact ⟨request, hruns, hrequested, hpromises⟩

end Ledger

end MatrixDispatcher
