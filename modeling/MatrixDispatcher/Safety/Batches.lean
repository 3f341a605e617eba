import MatrixDispatcher.Discipline.PollEffect

/-!
# What becomes of a batch

A batch is dispatched if its token could be stored, and given up otherwise, while the loop goes on
with the token of the batch in both cases. The first sync without a token is the priming sync,
whose batch is never dispatched; if it is answered with an error, the loop syncs without a token
and treats the batch like any other.

* `lastBatch` — the batch of the latest sync, and what was dispatched since.
* `storing`, `batches_kept` — if the tokens of batches can be stored, no batch is given up.
* `primed`, `dispatched_with_token` — if no batch of a loop without a token is stored, only
  batches that were asked for with a token are dispatched.
-/

namespace MatrixDispatcher

open Coro

variable {config : MatrixDispatcher.Config} {w w' : World}

/-! ## The trace -/

/-- A batch, the token it was asked for with, and what was dispatched since. -/
structure Batch where
  since : Option Token
  next : Token
  rooms : Rooms
  done : List HandlerArgs

/-- The batch of the latest sync since the loop started, unless that was answered with an error. -/
def lastBatch : List Obs → Option Batch
  | [] | .started _ :: _ | .synced _ .error :: _ => none
  | .synced since (.response next rooms) :: _ => some ⟨since, next, rooms, []⟩
  | .dispatched args :: trace => (lastBatch trace).map fun b => { b with done := args :: b.done }
  | _ :: trace => lastBatch trace

/-- A sync without a token was answered with an error since the loop started. -/
def seedFailed : List Obs → Bool
  | [] | .started _ :: _ => false
  | .synced none .error :: _ => true
  | _ :: trace => seedFailed trace

/-- The latest batch after an act. -/
def PollAct.batchAfter (old : Option Batch) : PollAct → Option Batch
  | synced since (.response next rooms) => some ⟨since, next, rooms, []⟩
  | read _ | synced _ .error => none
  | dispatch args => old.map fun b => { b with done := args :: b.done }
  | _ => old

/-- The same for the error responses. -/
def PollAct.failedAfter (old : Bool) : PollAct → Bool
  | read _ => false
  | synced none .error => true
  | _ => old

theorem exec_batch {t : Tid} {a : Answer} {e : Eff} {r : e.Ret} (h : exec t a e w = some (r, w')) :
    lastBatch w'.trace = (PollAct.of e r).batchAfter (lastBatch w.trace) ∧
      seedFailed w'.trace = (PollAct.of e r).failedAfter (seedFailed w.trace) := by
  constructor
  · refine pollObserver.exec_read lastBatch (fun act old => act.batchAfter old) (fun o _ => ?_)
      (fun act _ hsilent => ?_) h
    · cases o with
      | synced since result => cases result <;> rfl
      | marked u m => cases m <;> rfl
      | _ => rfl
    · cases act <;> first | rfl | cases hsilent
  · refine pollObserver.exec_read seedFailed (fun act old => act.failedAfter old) (fun o _ => ?_)
      (fun act _ hsilent => ?_) h
    · cases o with
      | synced since result => cases since <;> cases result <;> rfl
      | marked u m => cases m <;> rfl
      | _ => rfl
    · cases act <;> first | rfl | cases hsilent

/-! ## Messages and their handlers -/

/-- The batch shows the message in the timeline of the room. -/
def Batch.Shows (b : Batch) (roomId : RoomId) (event : RoomMessageText) : Prop :=
  ∃ events, (roomId, events) ∈ b.rooms ∧ .text event ∈ events

theorem mem_expected {rooms : Rooms} {args : HandlerArgs} :
    args ∈ expected config rooms ↔ ∃ room ∈ rooms, ∃ agentName cfg projectDir event,
      config.roomToAgent room.1 = some (agentName, cfg) ∧ cfg.projectDir = some projectDir ∧
        .text event ∈ room.2 ∧
          args = handlerArgs config room.1 agentName cfg projectDir event := by
  rw [expected, List.mem_flatMap]
  refine exists_congr fun room => and_congr_right fun _ => ?_
  rw [expectedRoom]
  constructor
  · intro h
    -- A room that is not configured, or has no directory, expects nobody.
    split at h
    · cases h
    · next agentName cfg hagent =>
      split at h
      · cases h
      · next projectDir hdir =>
        obtain ⟨event, hevent, hargs⟩ := List.mem_filterMap.mp h
        cases event with
        | other => cases hargs
        | text event =>
          cases hargs
          exact ⟨agentName, cfg, projectDir, event, hagent, hdir, hevent, rfl⟩
  · rintro ⟨agentName, cfg, projectDir, event, hagent, hdir, hevent, rfl⟩
    rw [hagent]
    dsimp only
    rw [hdir]
    exact List.mem_filterMap.mpr ⟨.text event, hevent, rfl⟩

/-- A handler of a batch is for a message that the batch shows. -/
theorem Batch.shows_of_mem {b : Batch} {args : HandlerArgs} (h : args ∈ expected config b.rooms) :
    b.Shows args.roomId args.event := by
  obtain ⟨room, hroom, _, _, _, event, -, -, hevent, rfl⟩ := mem_expected.mp h
  exact ⟨room.2, hroom, hevent⟩

/-- A message that a batch shows in a configured room has a handler. -/
theorem Batch.exists_expected {b : Batch} {roomId : RoomId} {event : RoomMessageText}
    (hwell : config.WellFormed) (hroom : (config.agentOf roomId).isSome)
    (h : b.Shows roomId event) :
    ∃ args ∈ expected config b.rooms, args.roomId = roomId ∧ args.event = event := by
  obtain ⟨events, hevents, hevent⟩ := h
  obtain ⟨agentName, hname⟩ := Option.isSome_iff_exists.mp hroom
  obtain ⟨⟨agentName', cfg⟩, hagent, rfl⟩ := Option.map_eq_some_iff.mp hname
  have hdir := hwell _ (List.mem_reverse.mp (List.mem_of_find?_eq_some hagent))
  obtain ⟨projectDir, hdir⟩ := Option.isSome_iff_exists.mp hdir
  exact ⟨_, mem_expected.mpr ⟨_, hevents, _, _, _, _, hagent, hdir, hevent, rfl⟩, rfl, rfl⟩

/-! ## Stages and the trace -/

/-- The stage that a batch leads to agrees with the latest batch of the trace. -/
def Agrees (config : MatrixDispatcher.Config) (trace : List Obs) : PollStage → Prop
  | .seeding => lastBatch trace = none
  | .seeded _ | .seedWritten _ => ∀ b, lastBatch trace = some b → b.since = none
  | .ready since =>
    (∀ b, lastBatch trace = some b → b.since = none) ∧ (since = none → seedFailed trace = true)
  | .got since next todo | .written since next todo | .lost since next todo =>
    (∃ rooms, lastBatch trace = some ⟨since, next, rooms, []⟩ ∧ todo = expected config rooms) ∧
      (since = none → seedFailed trace = true)
  | .stored since next todo =>
    (∃ rooms done, lastBatch trace = some ⟨since, next, rooms, done⟩ ∧
      expected config rooms = done.reverse ++ todo) ∧ (since = none → seedFailed trace = true)
  | _ => True

/-- A sync without a token is one after the failure of the priming sync. -/
theorem seedFailed_of_head? {trace : List Obs} {g : PollStage} (h : Agrees config trace g)
    (hhead : g.head? config = some none) : seedFailed trace = true := by
  cases g with
  | ready since =>
    cases hhead
    exact h.2 rfl
  | stored _ next todo =>
    rw [PollStage.head?] at hhead
    split at hhead <;> cases hhead
  | _ => cases hhead

/-- Acts of `main` keep stage and trace in agreement. -/
theorem Agrees.step {trace trace' : List Obs} {act : PollAct} {g g' : PollStage}
    (h : Agrees config trace g) (hstep : PollStep config g act g')
    (hbatch : lastBatch trace' = act.batchAfter (lastBatch trace))
    (hfailed : seedFailed trace' = act.failedAfter (seedFailed trace)) :
    Agrees config trace' g' := by
  -- Acts that are neither answers nor dispatches leave the last batch as it was.
  have hsame : act.batchAfter (lastBatch trace) = lastBatch trace →
      act.failedAfter (seedFailed trace) = seedFailed trace → ∀ g, Agrees config trace g →
        Agrees config trace' g := by
    intro h₁ h₂ g hg
    rw [h₁] at hbatch
    rw [h₂] at hfailed
    cases g <;> simp only [Agrees, hbatch, hfailed] at hg ⊢ <;> exact hg
  cases hstep with
  | other | commit => exact hsame rfl rfl _ h
  | seed next => exact hsame rfl rfl (.ready (some next)) ⟨h, nofun⟩
  | unseed next => exact hsame rfl rfl (.seeded next) h
  | store since next todo =>
    obtain ⟨⟨rooms, hlast, rfl⟩, hseed⟩ := h
    exact hsame rfl rfl (.stored since next _) ⟨⟨rooms, [], hlast, rfl⟩, hseed⟩
  | lose since next todo => exact hsame rfl rfl (.lost since next todo) h
  | cold => exact hbatch
  | warm since => exact ⟨fun b hb => (nomatch hbatch.symm.trans hb), nofun⟩
  | prime next rooms =>
    intro b hb
    rw [hbatch] at hb
    cases hb
    rfl
  | unprimed => exact ⟨fun b hb => (nomatch hbatch.symm.trans hb), fun _ => hfailed⟩
  | seedWrite next => exact hsame rfl rfl (.seedWritten next) h
  | seedRefused next => exact hsame rfl rfl (.seeded next) h
  | write since next todo => exact hsame rfl rfl (.written since next todo) h
  | refused since next todo => exact hsame rfl rfl (.lost since next todo) h
  -- The message dispatched is the first that was still expected.
  | dispatch since next args todo =>
    obtain ⟨⟨rooms, done, hlast, hexpected⟩, hseed⟩ := h
    rw [hlast] at hbatch
    refine ⟨⟨rooms, args :: done, hbatch, ?_⟩, fun hsince => hfailed.trans (hseed hsince)⟩
    simpa using hexpected
  | synced g since result hhead =>
    cases result with
    | error =>
      refine ⟨fun b hb => (nomatch hbatch.symm.trans hb), ?_⟩
      rintro rfl
      exact hfailed
    -- A new batch begins, with all of its messages to be dispatched.
    | response next rooms =>
      refine ⟨⟨rooms, hbatch, rfl⟩, ?_⟩
      rintro rfl
      exact hfailed.trans (seedFailed_of_head? h hhead)
  | close | closing => exact trivial

/-- Other tasks and moves of the surroundings show nothing of the poll loop. -/
theorem Agrees.still {trace trace' : List Obs} {g : PollStage} (h : Agrees config trace g)
    (hbatch : lastBatch trace' = lastBatch trace) (hfailed : seedFailed trace' = seedFailed trace) :
    Agrees config trace' g := by
  cases g <;> simp only [Agrees, hbatch, hfailed] at h ⊢ <;> exact h

/-- In every run, the stage of `main` agrees with the trace. -/
noncomputable def batchFocus (config : MatrixDispatcher.Config) (allow : World → Step → Prop) :
    (pollInvariant config allow).Focus .main where
  inv g w := Agrees config w.trace g
  own _ hinv _ hexec hnext :=
    hinv.step (PollStage.step_cases hnext) (exec_batch hexec).1 (exec_batch hexec).2
  other := by
    intro G w w' t e a r g' ht halone _ hinv _ hexec hnext
    have hpolls : (G t).polls = false := Bool.eq_false_iff.mpr fun h => ht (halone t h)
    obtain ⟨hbatch, hfailed⟩ := exec_batch hexec
    rcases PollStage.act_of_apart hpolls (PollStage.step_cases hnext) with heq | ⟨done, heq⟩ <;>
      rw [heq] at hbatch hfailed <;> exact hinv.still hbatch hfailed
  finish _ _ := trivial
  env := by
    intro g w w' a hinv _ henv
    obtain ⟨m, -, hmoved⟩ := env_eq henv
    rw [(moved_same hmoved).1]
    exact hinv
  enter := by
    intro w w' fiber a hgood hinv hstart
    obtain ⟨n, request, henter, -, rfl⟩ := (pollCoverage config).start_good hgood hstart
    rw [henter]
    cases request <;> exact trivial
  start := by
    intro g w w' t fiber a _ hinv hstart
    obtain ⟨n, request, -, -, -, rfl⟩ := start_eq hstart
    exact hinv
  crash _ _ := trivial

/-- What is known when `main` is about to perform an effect. -/
theorem agrees_about {allow : World → Step → Prop} {c : Machine.Config Tid Eff Eff.Ret World}
    (h : Reaches config allow c) (F : (((pollInvariant config allow).extend
      (batchFocus config allow).extension)).Focus .main) (hF : F.inv .absent World.initial)
    {t : Tid} {e : Eff} (habout : c.About t e) :
    ∃ g : PollStage, Agrees config c.world.trace g ∧ F.inv g c.world ∧
      ((∀ r, ∃ g', PollStep config g (PollAct.of e r) g') ∨
        ∀ r, PollAct.of e r = .other ∨ ∃ done, PollAct.of e r = .commit done) := by
  obtain ⟨G, -, ⟨⟨halone, hagrees⟩, hinv⟩, -, hnext⟩ :=
    (((pollInvariant config allow).extend (batchFocus config allow).extension).extend
      F.extension).about h (pollCoverage config).good_initial
      ⟨⟨fun _ h => Bool.noConfusion h, trivial⟩, hF⟩ habout
  refine ⟨G .main, hagrees, hinv, ?_⟩
  by_cases ht : t = .main
  · subst ht
    exact .inl fun r => (hnext r).imp fun _ => PollStage.step_cases
  · refine .inr fun r => ?_
    obtain ⟨g', hg'⟩ := hnext r
    exact PollStage.act_of_apart (Bool.eq_false_iff.mpr fun h => ht (halone t h))
      (PollStage.step_cases hg')

/-! ## Batches that cannot be stored -/

/-- The process does not die, and `set_since` does not raise on a batch that was asked for with a
token and asks for handlers. -/
def storing (config : MatrixDispatcher.Config) (w : World) : Step → Prop
  | .effect .main (.sync (.execute (.setSince _ _))) a | .effect .main (.sync .commit) a =>
    ∀ b, lastBatch w.trace = some b → b.since ≠ none → expected config b.rooms ≠ [] →
      a = .done ∧ w.dbOpen = true
  | .crash _ => False
  | _ => True

/-- Runs that are storing because `set_since` does not raise at all. -/
def storesAll (w : World) : Step → Bool
  | .effect .main (.sync (.execute (.setSince _ _))) a | .effect .main (.sync .commit) a =>
    (match a with | .done => true | _ => false) && w.dbOpen
  | .crash _ => false
  | _ => true

theorem storing_of_storesAll (w : World) (e : Step) (h : storesAll w e = true) :
    storing config w e := by
  rw [storing.eq_def]
  split
  · next a =>
    intro _ _ _ _
    cases a <;> first | exact ⟨rfl, h⟩ | cases h
  · next a =>
    intro _ _ _ _
    cases a <;> first | exact ⟨rfl, h⟩ | cases h
  · cases h
  · trivial

/-- A batch that was given up has no handlers, or was asked for without a token. -/
def Kept : PollStage → Prop
  | .lost since _ todo => since = none ∨ todo = []
  | _ => True

section

variable {t : Tid} {a : Answer} {e : Eff} {r : e.Ret}

/-- The statement that writes a token fails for want of a database or of a lock on it. -/
theorem eq_of_refused (h : exec t a e w = some (r, w')) (hact : PollAct.of e r = .refused) :
    (∃ token now, e = .sync (.execute (.setSince token now))) ∧ ¬(a = .done ∧ w.dbOpen = true) := by
  cases e with
  | sync e =>
    cases e with
    | execute s =>
      -- Of the statements, only the storing of a token is refused.
      cases s with
      | setSince token now =>
        cases r with
        | ok _ => cases hact
        | error x =>
          refine ⟨⟨token, now, rfl⟩, ?_⟩
          rintro ⟨rfl, hopen⟩
          simp [exec, execQuietly, execSync, World.execStmt, hopen, Stmt.exec] at h
      | _ => cases r <;> cases hact
    | commit => cases r <;> cases hact
    | createTask request => cases request <;> cases hact
    | mark m => cases m <;> cases hact
    | _ => cases hact
  | await e =>
    cases e with
    | sync _ => cases r <;> cases hact
    | _ => cases hact

/-- A commit. -/
theorem eq_of_commit {done : Bool} (h : exec t a e w = some (r, w'))
    (hact : PollAct.of e r = .commit done) :
    e = .sync .commit ∧ (done = true ↔ a = .done ∧ w.dbOpen = true) := by
  cases e with
  | sync e =>
    cases e with
    | execute s => cases s <;> cases r <;> cases hact
    -- The commit succeeds on an open database that answers, and fails otherwise.
    | commit =>
      refine ⟨rfl, ?_⟩
      obtain ⟨⟨r', w''⟩, hquiet, heq⟩ := Option.map_eq_some_iff.mp h
      cases heq
      change w.execCommit a = _ at hquiet
      rw [World.execCommit.eq_def] at hquiet
      split at hquiet
      · cases hquiet
        cases hact
        simp
      · split at hquiet <;> cases hquiet <;> cases hact <;> simp_all
      · cases hquiet
    | createTask request => cases request <;> cases hact
    | mark m => cases m <;> cases hact
    | _ => cases hact
  | await e =>
    cases e with
    | sync _ => cases r <;> cases hact
    | _ => cases hact

end

/-- The tokens of batches can be stored, so none is given up. -/
noncomputable def keptFocus (config : MatrixDispatcher.Config) :
    ((pollInvariant config (storing config)).extend
      (batchFocus config (storing config)).extension).Focus .main where
  inv g _ := Kept g
  own := by
    intro G w w' e a r g' hI hinv hallow hexec hnext
    have hagrees : Agrees config w.trace (G .main) := hI.2
    have hstep := PollStage.step_cases hnext
    -- a batch with handlers that was asked for with a token can be stored
    have hfails : ∀ {since next todo}, (∃ rooms, lastBatch w.trace = some ⟨since, next, rooms, []⟩ ∧
        todo = expected config rooms) → (∀ b, lastBatch w.trace = some b → b.since ≠ none →
          expected config b.rooms ≠ [] → a = .done ∧ w.dbOpen = true) →
        ¬(a = .done ∧ w.dbOpen = true) → since = none ∨ todo = [] := by
      rintro since next todo ⟨rooms, hlast, rfl⟩ hstores hfailed
      by_contra hno
      rw [not_or] at hno
      exact hfailed (hstores _ hlast hno.1 hno.2)
    generalize G .main = g at hstep hagrees hinv
    generalize hact : PollAct.of e r = act at hstep
    cases hstep with
    | other | commit => exact hinv
    | lose since next todo =>
      obtain ⟨rfl, hdone⟩ := eq_of_commit hexec hact
      exact hfails hagrees.1 hallow fun h => by simp [h] at hdone
    | refused since next todo =>
      obtain ⟨⟨token, now, rfl⟩, hfailed⟩ := eq_of_refused hexec hact
      exact hfails hagrees.1 hallow hfailed
    | synced _ since result _ => cases result <;> exact trivial
    | _ => exact trivial
  other := by
    intro G w w' t e a r g' _ _ _ hinv _ _ _
    exact hinv
  finish _ _ := trivial
  env hinv _ _ := hinv
  enter := by
    intro w w' fiber a hgood _ hstart
    obtain ⟨n, request, henter, -, -⟩ := (pollCoverage config).start_good hgood hstart
    rw [henter]
    cases request <;> exact trivial
  start _ hinv _ := hinv
  crash _ _ := trivial

/-- The token is not later than `since`. -/
def NotLater (pos : Token → Nat) (since : Token) (token : Option Token) : Prop :=
  ∀ t, token = some t → pos t ≤ pos since

/-- When the loop syncs again, every message of the latest batch in a configured room has been
dispatched, or the sync is made with a token that is not later than that of the batch. -/
def BatchKept (config : MatrixDispatcher.Config) (pos : Token → Nat)
    (c : Machine.Config Tid Eff Eff.Ret World) : Prop :=
  ∀ t token b since roomId event, c.About t (.await (.sync token)) →
    lastBatch c.world.trace = some b → b.since = some since → b.Shows roomId event →
    (config.agentOf roomId).isSome →
    (∃ args ∈ b.done, args.roomId = roomId ∧ args.event = event) ∨ NotLater pos since token

/-- If the tokens of batches can be stored, every batch is kept. -/
theorem batches_kept (pos : Token → Nat) (hwell : config.WellFormed)
    {c : Machine.Config Tid Eff Eff.Ret World} (h : Reaches config (storing config) c) :
    BatchKept config pos c := by
  intro t token b since roomId event habout hlast hsince hshows hroom
  obtain ⟨args, hargs, hhandler⟩ := Batch.exists_expected hwell hroom hshows
  obtain ⟨g, hagrees, hkept, hnext⟩ := agrees_about h (keptFocus config) trivial habout
  -- The message that is shown is one of the batch that the last sync brought.
  refine .inl ⟨args, ?_, hhandler⟩
  -- The loop polls again, which the stage must allow.
  have hstep : ∃ g', PollStep config g (.synced token .error) g' := by
    rcases hnext with hnext | hnext
    · exact hnext (.ok .error)
    · rcases hnext (.ok .error) with heq | ⟨_, heq⟩ <;> cases heq
  obtain ⟨g', hstep⟩ := hstep
  cases hstep with
  | unprimed =>
    have hnone : lastBatch c.world.trace = none := hagrees
    cases hnone.symm.trans hlast
  | synced _ _ _ hhead =>
    cases g with
    | ready _ => simp [hagrees.1 b hlast] at hsince
    -- The token is stored: everything of the batch was dispatched before.
    | stored _ next todo =>
      obtain ⟨⟨rooms, done, hlast', hexpected⟩, -⟩ := hagrees
      obtain rfl := Option.some.inj (hlast'.symm.trans hlast)
      rw [PollStage.head?] at hhead
      split at hhead
      · next hdone =>
        obtain rfl := hdone.resolve_right fun h => h hwell
        rw [hexpected, List.append_nil, List.mem_reverse] at hargs
        exact hargs
      · cases hhead
    -- The token was lost, which the assumption rules out while messages are left.
    | lost _ next todo =>
      obtain ⟨⟨rooms, hlast', rfl⟩, -⟩ := hagrees
      obtain rfl := Option.some.inj (hlast'.symm.trans hlast)
      rcases hkept with hnone | hempty
      · cases hnone.symm.trans hsince
      · simp [hempty] at hargs
    | _ => cases hhead

/-- A later number at the end of a token says that it is later. -/
def tokenPos (t : Token) : Nat := (t.getLastD '0').toNat

theorem batches_kept_spawning : ∃ c, Reaches oneAgent (storing oneAgent) c ∧
    (lastBatch c.world.trace).isSome ∧ BatchKept oneAgent tokenPos c := by
  obtain ⟨c, h, hgoal⟩ := reaches_of_play oneAgent spawning
    (fun c => (lastBatch c.world.trace).isSome) storing_of_storesAll (by decide +kernel)
  exact ⟨c, h, hgoal, batches_kept tokenPos (by decide) h⟩

/-- The database is locked when the token of a batch is to be stored. -/
def losing : List Cue :=
  booting ++
    [.task .main (.synced (.response (lit "t1")
      [(lit "!room", [messageOf (lit "$1") (lit "hi") (.obj [])])])),
    .go .main 1, .task .main (.raised .operationalError), .go .main 2]

/-- The next sync is made with a token. -/
def isSyncWith (token : Token) : Eff → Bool
  | .await (.sync since) => decide (since = some token)
  | _ => false

/-- Nothing is dispatched of the batch of `losing`, and the loop goes on behind it. -/
theorem batch_lost : ∃ c, Reaches oneAgent survives c ∧ ¬BatchKept oneAgent tokenPos c := by
  let untouched (b : Batch) : Bool := decide (b.since = some (lit "t0")) && b.done.isEmpty &&
    !(expected oneAgent b.rooms).isEmpty
  obtain ⟨c, h, hgoal⟩ := reaches_of_play oneAgent losing
    (fun c => meets c .main (isSyncWith (lit "t1")) && (lastBatch c.world.trace).any untouched)
    survives_of_check (by decide +kernel)
  obtain ⟨hmeets, hbatch⟩ := Bool.and_eq_true_iff.mp hgoal
  obtain ⟨e, habout, he⟩ := about_of_meets hmeets
  obtain ⟨b, hlast, hb⟩ := (Option.any_eq_true ..).mp hbatch
  simp only [untouched, Bool.and_eq_true, decide_eq_true_eq, List.isEmpty_iff,
    Bool.not_eq_true', List.isEmpty_eq_false_iff] at hb
  obtain ⟨⟨hsince, hdone⟩, hne⟩ := hb
  obtain ⟨args, hargs⟩ := List.exists_mem_of_ne_nil _ hne
  obtain ⟨room, -, agentName, cfg, _, _, hagent, -, -, rfl⟩ := mem_expected.mp hargs
  refine ⟨c, h, fun hkept => ?_⟩
  rw [isSyncWith.eq_def] at he
  split at he
  · obtain rfl := of_decide_eq_true he
    -- Neither is the message dispatched, nor does the loop poll from before the batch.
    rcases hkept _ _ b _ _ _ habout hlast hsince (Batch.shows_of_mem hargs)
      (by simp [Config.agentOf, handlerArgs, hagent]) with ⟨args', hmem, -⟩ | hlater
    · simp [hdone] at hmem
    · exact absurd (hlater _ rfl) (by decide)
  · cases he

/-! ## Syncs without a token -/

/-- No batch that the loop has asked for without a token, and that asks for handlers, has its token
stored: the loop syncs without a token only if the priming sync was answered with an error. -/
def primed (config : MatrixDispatcher.Config) (w : World) : Step → Prop
  | .effect .main (.sync .commit) .done =>
    ∀ b, lastBatch w.trace = some b → b.since = none → seedFailed w.trace = true →
      expected config b.rooms = []
  | _ => True

/-- A stored batch that was asked for without a token has no handlers. -/
def Primed : PollStage → Prop
  | .stored since _ todo => since = none → todo = []
  | _ => True

/-- No batch with handlers is stored that was asked for without a token. -/
noncomputable def primedFocus (config : MatrixDispatcher.Config) :
    ((pollInvariant config (primed config)).extend
      (batchFocus config (primed config)).extension).Focus .main where
  inv g _ := Primed g
  own := by
    intro G w w' e a r g' hI hinv hallow hexec hnext
    have hagrees : Agrees config w.trace (G .main) := hI.2
    have hstep := PollStage.step_cases hnext
    generalize G .main = g at hstep hagrees hinv
    generalize hact : PollAct.of e r = act at hstep
    cases hstep with
    | other | commit => exact hinv
    | store since next todo =>
      rintro rfl
      obtain ⟨⟨rooms, hlast, rfl⟩, hfailed⟩ := hagrees
      obtain ⟨rfl, hdone⟩ := eq_of_commit hexec hact
      obtain ⟨rfl, -⟩ := hdone.mp rfl
      exact hallow _ hlast rfl (hfailed rfl)
    | dispatch since next args todo => exact fun hnone => nomatch hinv hnone
    | synced _ since result _ => cases result <;> exact trivial
    | _ => exact trivial
  other := by
    intro G w w' t e a r g' _ _ _ hinv _ _ _
    exact hinv
  finish _ _ := trivial
  env hinv _ _ := hinv
  enter := by
    intro w w' fiber a hgood _ hstart
    obtain ⟨n, request, henter, -, -⟩ := (pollCoverage config).start_good hgood hstart
    rw [henter]
    cases request <;> exact trivial
  start _ hinv _ := hinv
  crash _ _ := trivial

/-- If no batch of a loop without a token is stored, a message is dispatched as part of a batch
that was asked for with a token. -/
theorem dispatched_with_token {c : Machine.Config Tid Eff Eff.Ret World}
    (h : Reaches config (primed config) c) {t : Tid} {args : HandlerArgs}
    (habout : c.About t (.sync (.createTask (.handle args)))) :
    ∃ b, lastBatch c.world.trace = some b ∧ b.since ≠ none ∧ b.Shows args.roomId args.event := by
  obtain ⟨g, hagrees, hprimed, hnext⟩ := agrees_about h (primedFocus config) trivial habout
  have hstep : ∃ g', PollStep config g (.dispatch args) g' := by
    rcases hnext with hnext | hnext
    · exact hnext ()
    · rcases hnext () with heq | ⟨_, heq⟩ <;> cases heq
  obtain ⟨g', hstep⟩ := hstep
  cases hstep with
  | dispatch since next _ todo =>
    obtain ⟨⟨rooms, done, hlast, hexpected⟩, -⟩ := hagrees
    have hargs : args ∈ expected config rooms := by
      rw [hexpected]
      exact List.mem_append_right _ List.mem_cons_self
    exact ⟨_, hlast, fun hnone => (nomatch hprimed hnone), Batch.shows_of_mem hargs⟩

/-- Runs that are primed because no sync without a token shows a message. -/
def primesAll (config : MatrixDispatcher.Config) (w : World) : Step → Bool
  | .effect .main (.sync .commit) _ => (lastBatch w.trace).all fun b =>
      b.since.isSome || (expected config b.rooms).isEmpty
  | _ => true

theorem primed_of_primesAll (w : World) (e : Step) (h : primesAll config w e = true) :
    primed config w e := by
  rw [primed.eq_def]
  split
  · intro b hlast hnone _
    simpa [primesAll, hlast, hnone] using h
  · trivial

/-- A handler is about to be created. -/
def isDispatch : Eff → Bool
  | .sync (.createTask (.handle _)) => true
  | _ => false

theorem eq_of_isDispatch {e : Eff} (h : isDispatch e = true) :
    ∃ args, e = .sync (.createTask (.handle args)) := by
  rw [isDispatch.eq_def] at h
  split at h
  · exact ⟨_, rfl⟩
  · cases h

/-- A first batch with a message, up to its dispatch. -/
def firstBatch : List Cue :=
  [.task .main (.synced (.response (lit "t1")
    [(lit "!room", [messageOf (lit "$1") (lit "hi") (.obj [])])])), .go .main 3]

theorem dispatched_with_token_first : ∃ c t args, Reaches oneAgent (primed oneAgent) c ∧
    c.About t (.sync (.createTask (.handle args))) ∧
    ∃ b, lastBatch c.world.trace = some b ∧ b.since ≠ none ∧ b.Shows args.roomId args.event := by
  obtain ⟨c, h, hgoal⟩ := reaches_of_play oneAgent (booting ++ firstBatch)
    (fun c => meets c .main isDispatch) (@primed_of_primesAll oneAgent) (by decide +kernel)
  obtain ⟨e, habout, he⟩ := about_of_meets hgoal
  obtain ⟨args, rfl⟩ := eq_of_isDispatch he
  exact ⟨c, _, args, h, habout, dispatched_with_token h habout⟩

/-- The priming sync is answered with an error; the next sync, still without a token, shows a
message, which is dispatched. -/
theorem dispatched_unprimed : ∃ c t args, Reaches oneAgent (fun _ _ => True) c ∧
    c.About t (.sync (.createTask (.handle args))) ∧
    ∃ b, lastBatch c.world.trace = some b ∧ b.since = none := by
  obtain ⟨c, h, hgoal⟩ := reaches_of_play oneAgent
    ([.step (.start (.pick 0)), .go .main 7] ++ firstBatch)
    (fun c => meets c .main isDispatch && (lastBatch c.world.trace).any fun b => b.since.isNone)
    (fun _ _ (_ : true = true) => trivial) (by decide +kernel)
  obtain ⟨hmeets, hbatch⟩ := Bool.and_eq_true_iff.mp hgoal
  obtain ⟨e, habout, he⟩ := about_of_meets hmeets
  obtain ⟨args, rfl⟩ := eq_of_isDispatch he
  obtain ⟨b, hlast, hsince⟩ := (Option.any_eq_true ..).mp hbatch
  exact ⟨c, _, args, h, habout, b, hlast, Option.isNone_iff_eq_none.mp hsince⟩

end MatrixDispatcher
