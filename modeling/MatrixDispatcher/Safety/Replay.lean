import MatrixDispatcher.Discipline.PollEffect

/-!
# No message is dispatched twice

The homeserver has one stream of events, and tokens are positions in it. A batch is dispatched only
after its token is committed, so the stored token is never before a dispatched message, and the
next sync of this or of a later process brings later ones only.

* `serving` — what a sync returns, in terms of positions.
* `ReplayInv` — the dispatched messages are behind every copy of the token.
* `dispatched_once` — no message is dispatched twice, over all lifetimes of the process.
-/

namespace MatrixDispatcher

open Coro

variable {config : MatrixDispatcher.Config} {w w' : World}

/-- The message that an entry of a timeline is. -/
def TimelineEvent.messageId : TimelineEvent → Option EventId
  | text event => some event.eventId
  | other => none

/-- The messages in the timelines of a batch. -/
def messageIds (rooms : Rooms) : List EventId :=
  rooms.flatMap fun room => room.2.filterMap TimelineEvent.messageId

/-- The messages that were dispatched, latest first. -/
def dispatchedIds (trace : List Obs) : List EventId :=
  trace.filterMap fun o =>
    match o with
    | .dispatched args => some args.event.eventId
    | _ => none

section

-- The positions of tokens and of events in the stream of the homeserver.
variable (pos : Token → Nat) (place : EventId → Nat)

/-- A batch shows events after `since`, each one once, and its token is at or after all of them. -/
structure Honest (since : Option Token) (next : Token) (rooms : Rooms) : Prop where
  distinct : (messageIds rooms).Nodup
  onward : ∀ t, since = some t → pos t ≤ pos next
  after : ∀ e ∈ messageIds rooms, ∀ t, since = some t → pos t < place e
  upTo : ∀ e ∈ messageIds rooms, place e ≤ pos next

/-- The homeserver's batches are honest. -/
def serving (_ : World) : Step → Prop
  | .effect _ (.await (.sync since)) (.synced (.response next rooms)) =>
    Honest pos place since next rooms
  | _ => True

/-- `serving`, evaluated. -/
def serves (_ : World) : Step → Bool
  | .effect _ (.await (.sync since)) (.synced (.response next rooms)) =>
    decide (messageIds rooms).Nodup && since.all (fun t => pos t ≤ pos next) &&
      (messageIds rooms).all fun e => since.all (fun t => pos t < place e) && place e ≤ pos next
  | _ => true

theorem serving_of_serves (w : World) (e : Step) (h : serves pos place w e = true) :
    serving pos place w e := by
  rw [serving.eq_def]
  split
  · simp only [serves, Bool.and_eq_true, decide_eq_true_eq, List.all_eq_true] at h
    obtain ⟨⟨hdistinct, honward⟩, hplaces⟩ := h
    refine ⟨hdistinct, ?_, fun e he t ht => ?_, fun e he => (hplaces e he).2⟩
    · rintro t rfl
      simpa using honward
    · subst ht
      simpa using (hplaces e he).1
  · trivial

/-- The messages `D` are at or before the token. -/
def Behind (D : List EventId) (token : Option Token) : Prop :=
  ∀ e ∈ D, ∃ t, token = some t ∧ place e ≤ pos t

/-- The handlers `todo` are for messages that are not in `D`, at or before the token. -/
structure Fresh (D : List EventId) (next : Token) (todo : List HandlerArgs) : Prop where
  distinct : (todo.map (·.event.eventId)).Nodup
  new : ∀ args ∈ todo, args.event.eventId ∉ D
  upTo : ∀ args ∈ todo, place args.event.eventId ≤ pos next

end

variable {pos : Token → Nat} {place : EventId → Nat}

theorem expectedRoom_ids (room : RoomId × List TimelineEvent) :
    List.Sublist ((expectedRoom config room).map (·.event.eventId)) (messageIds [room]) := by
  rw [expectedRoom]
  split
  · exact List.nil_sublist _
  · next agent cfg _ =>
    split
    · exact List.nil_sublist _
    · next dir _ =>
      rw [List.map_filterMap, messageIds, List.flatMap_singleton]
      have hids : ∀ event ∈ room.2, Option.map (·.event.eventId)
          (expectedEvent config room.1 agent cfg dir event) = event.messageId :=
        fun event _ => by cases event <;> rfl
      rw [List.filterMap_congr hids]

/-- The handlers of a batch are for distinct messages of it. -/
theorem expected_ids (rooms : Rooms) :
    List.Sublist ((expected config rooms).map (·.event.eventId)) (messageIds rooms) := by
  induction rooms with
  | nil => exact List.nil_sublist _
  | cons room rooms ih =>
    have hsplit : messageIds (room :: rooms) = messageIds [room] ++ messageIds rooms := by
      simp [messageIds]
    rw [expected, List.flatMap_cons, List.map_append, hsplit]
    exact (expectedRoom_ids room).append ih

namespace Behind

theorem nil (token : Option Token) : Behind pos place [] token := by
  simp [Behind]

/-- Nothing is behind a token that is not there. -/
theorem eq_nil {D : List EventId} (h : Behind pos place D none) : D = [] := by
  refine List.eq_nil_iff_forall_not_mem.mpr fun e he => ?_
  obtain ⟨t, ht, -⟩ := h e he
  cases ht

theorem cons {D : List EventId} {next : Token} {e : EventId} (h : Behind pos place D (some next))
    (he : place e ≤ pos next) : Behind pos place (e :: D) (some next) := by
  intro e' he'
  rcases List.mem_cons.mp he' with rfl | he'
  · exact ⟨next, rfl, he⟩
  · exact h e' he'

/-- What a batch shows is new. -/
theorem fetch {D : List EventId} {since : Option Token} {next : Token} {rooms : Rooms}
    (h : Behind pos place D since) (hbatch : Honest pos place since next rooms) :
    Behind pos place D (some next) ∧ Fresh pos place D next (expected config rooms) := by
  have hmem : ∀ args ∈ expected config rooms, args.event.eventId ∈ messageIds rooms :=
    fun args hargs => (expected_ids rooms).subset (List.mem_map_of_mem hargs)
  refine ⟨fun e he => ?_, hbatch.distinct.sublist (expected_ids rooms), fun args hargs hold => ?_,
    fun args hargs => hbatch.upTo _ (hmem args hargs)⟩
  · obtain ⟨t, ht, hle⟩ := h e he
    exact ⟨next, rfl, hle.trans (hbatch.onward t ht)⟩
  · obtain ⟨t, ht, hle⟩ := h _ hold
    exact absurd (hbatch.after _ (hmem args hargs) t ht) (not_lt.mpr hle)

end Behind

/-! ## The invariant -/

/-- What a stage promises, if the messages `D` are dispatched. -/
def PollStage.Fits (pos : Token → Nat) (place : EventId → Nat) (D : List EventId) (w : World) :
    PollStage → Prop
  | seeding | seeded _ | seedWritten _ => D = []
  | ready since => Behind pos place D since
  | lost _ next _ => Behind pos place D (some next)
  | got _ next todo => Behind pos place D (some next) ∧ Fresh pos place D next todo
  | written _ next todo =>
    Behind pos place D (some next) ∧ Fresh pos place D next todo ∧ w.db.getSince = some next
  | stored _ next todo =>
    Behind pos place D (some next) ∧ Fresh pos place D next todo ∧ w.db.getSince = some next ∧
      w.disk.getSince = some next
  | _ => True

/-- The connection's token does not change, and the file takes it over at most. -/
theorem PollStage.Fits.same {D : List EventId} {g : PollStage} (h : g.Fits pos place D w)
    (hdb : w'.db.getSince = w.db.getSince)
    (hdisk : w'.disk.getSince = w.disk.getSince ∨ w'.disk.getSince = w.db.getSince) :
    g.Fits pos place D w' := by
  cases g with
  | written _ next todo => exact ⟨h.1, h.2.1, hdb.trans h.2.2⟩
  | stored _ next todo =>
    refine ⟨h.1, h.2.1, hdb.trans h.2.2.1, ?_⟩
    rcases hdisk with hdisk | hdisk
    · exact hdisk.trans h.2.2.2
    · exact hdisk.trans h.2.2.1
  | _ => exact h

/-- The dispatched messages are behind every copy of the token. -/
structure ReplayInv (pos : Token → Nat) (place : EventId → Nat) (g : PollStage) (w : World) :
    Prop where
  fits : g.Fits pos place (dispatchedIds w.trace) w
  file : Behind pos place (dispatchedIds w.trace) w.disk.getSince
  conn : Behind pos place (dispatchedIds w.trace) w.db.getSince
  once : (dispatchedIds w.trace).Nodup

/-- The message that an act dispatches. -/
def PollAct.dispatched : PollAct → Option EventId
  | dispatch args => some args.event.eventId
  | _ => none

theorem exec_dispatched {t : Tid} {a : Answer} {e : Eff} {r : e.Ret}
    (h : exec t a e w = some (r, w')) :
    dispatchedIds w'.trace = (PollAct.of e r).dispatched.toList ++ dispatchedIds w.trace := by
  refine pollObserver.exec_read dispatchedIds (fun act ids => act.dispatched.toList ++ ids)
    (fun o _ => ?_) (fun act _ hsilent => ?_) h
  · cases o with
    | marked u m => cases m <;> rfl
    | _ => rfl
  · cases act <;> first | rfl | cases hsilent

/-- Where the loop syncs, the dispatched messages are behind the token. -/
theorem behind_of_head? {D : List EventId} {g : PollStage} {since : Option Token}
    (hfits : g.Fits pos place D w) (h : g.head? config = some since) :
    Behind pos place D since := by
  cases g with
  | ready _ =>
    cases h
    exact hfits
  | stored _ next todo =>
    rw [PollStage.head?] at h
    split at h <;> cases h
    exact hfits.1
  | lost _ next _ =>
    cases h
    exact hfits
  | _ => cases h

namespace ReplayInv

variable {act : PollAct} {g g' : PollStage}

/-- The connection's token does not change, and the file takes it over at most. -/
theorem still (h : ReplayInv pos place g w) (hdb : w'.db.getSince = w.db.getSince)
    (hdisk : w'.disk.getSince = w.disk.getSince ∨ w'.disk.getSince = w.db.getSince)
    (hids : dispatchedIds w'.trace = dispatchedIds w.trace) : ReplayInv pos place g w' := by
  constructor
  case fits =>
    rw [hids]
    exact h.fits.same hdb hdisk
  case file =>
    rw [hids]
    rcases hdisk with heq | heq <;> rw [heq]
    · exact h.file
    · exact h.conn
  case conn =>
    rw [hids, hdb]
    exact h.conn
  case once =>
    rw [hids]
    exact h.once

/-- `main` goes on. -/
theorem step (h : ReplayInv pos place g w) (hstep : PollStep config g act g')
    (hact : PollChange act w w')
    (hids : dispatchedIds w'.trace = act.dispatched.toList ++ dispatchedIds w.trace)
    (hbatch : ∀ since next rooms, act = .synced since (.response next rooms) →
      Honest pos place since next rooms) : ReplayInv pos place g' w' := by
  obtain ⟨hfits, hfile, hconn, honce⟩ := h
  obtain ⟨hguard, htoken, hsaved, -⟩ := hact
  -- the copies of the token and the messages, where the act leaves them alone
  have hmove : act.token w = w.db.getSince → act.saved w = w.disk.getSince →
      act.dispatched = none → g'.Fits pos place (dispatchedIds w.trace) w' →
      ReplayInv pos place g' w' := by
    intro hdb hdisk hnone hfits'
    rw [hnone] at hids
    rw [hdb] at htoken
    rw [hdisk] at hsaved
    exact ⟨hids ▸ hfits', hids ▸ hsaved ▸ hfile, hids ▸ htoken ▸ hconn, hids ▸ honce⟩
  cases hstep with
  | other => exact hmove rfl rfl rfl (hfits.same htoken (.inl hsaved))
  | commit _ done =>
    refine ReplayInv.still ⟨hfits, hfile, hconn, honce⟩ htoken ?_ hids
    cases done
    · exact .inl hsaved
    · exact .inr hsaved
  | seed next =>
    exact ⟨hids ▸ hfits ▸ .nil _, hids ▸ hsaved ▸ hconn, hids ▸ htoken ▸ hconn, hids ▸ honce⟩
  | store since next todo =>
    obtain ⟨hbehind, hfresh, hdb⟩ := hfits
    refine ⟨hids ▸ ⟨hbehind, hfresh, htoken.trans hdb, hsaved.trans hdb⟩, ?_, ?_, hids ▸ honce⟩
    · exact hids ▸ hsaved ▸ hconn
    · exact hids ▸ htoken ▸ hconn
  | cold =>
    have hnone : none = w.db.getSince := hguard
    exact hmove rfl rfl rfl (Behind.eq_nil (hnone ▸ hconn))
  | warm since =>
    have hsome : some since = w.db.getSince := hguard
    exact hmove rfl rfl rfl (hsome ▸ hconn)
  | unseed | prime | seedRefused => exact hmove rfl rfl rfl hfits
  | unprimed => exact hmove rfl rfl rfl (hfits ▸ .nil _)
  | lose | refused => exact hmove rfl rfl rfl hfits.1
  | closing => exact hmove rfl rfl rfl trivial
  | seedWrite next =>
    exact ⟨hids ▸ hfits, hids ▸ hsaved ▸ hfile, hids ▸ hfits ▸ .nil _, hids ▸ honce⟩
  | write since next todo =>
    refine ⟨hids ▸ ⟨hfits.1, hfits.2, htoken⟩, hids ▸ hsaved ▸ hfile, ?_, hids ▸ honce⟩
    exact hids ▸ htoken ▸ hfits.1
  | dispatch since next args todo =>
    obtain ⟨hbehind, hfresh, hdb, hdisk⟩ := hfits
    have hdb' : w'.db.getSince = some next := htoken.trans hdb
    have hdisk' : w'.disk.getSince = some next := hsaved.trans hdisk
    have hnext := hbehind.cons (hfresh.upTo args List.mem_cons_self)
    obtain ⟨hnew, hdistinct⟩ := List.nodup_cons.mp hfresh.distinct
    rw [PollAct.dispatched, Option.toList_some, List.singleton_append] at hids
    refine ⟨hids ▸ ⟨hnext, ⟨hdistinct, fun other hother => ?_, fun other hother =>
      hfresh.upTo other (List.mem_cons_of_mem _ hother)⟩, hdb', hdisk'⟩, hids ▸ hdisk' ▸ hnext,
      hids ▸ hdb' ▸ hnext, ?_⟩
    · intro hmem
      rcases List.mem_cons.mp hmem with heq | hmem
      · exact hnew (List.mem_map.mpr ⟨other, hother, heq⟩)
      · exact hfresh.new other (List.mem_cons_of_mem _ hother) hmem
    · rw [hids]
      exact List.nodup_cons.mpr ⟨hfresh.new args List.mem_cons_self, honce⟩
  | synced _ since result hhead =>
    have hbehind := behind_of_head? hfits hhead
    cases result with
    | error => exact hmove rfl rfl rfl hbehind
    | response next rooms => exact hmove rfl rfl rfl (hbehind.fetch (hbatch since next rooms rfl))
  | close => exact ⟨trivial, hids ▸ hsaved ▸ hfile, hids ▸ htoken ▸ hfile, hids ▸ honce⟩

end ReplayInv

/-- Every run with an honest homeserver keeps the invariant. -/
noncomputable def replayFocus (config : MatrixDispatcher.Config) (pos : Token → Nat)
    (place : EventId → Nat) : (pollInvariant config (serving pos place)).Focus .main where
  inv := ReplayInv pos place
  own := by
    intro G w w' e a r g' _ hinv hallow hexec hnext
    refine hinv.step (PollStage.step_cases hnext) (exec_poll hexec) (exec_dispatched hexec)
      fun since next rooms heq => ?_
    obtain ⟨rfl, rfl⟩ := eq_synced hexec heq
    exact hallow
  other := by
    intro G w w' t e a r g' ht halone _ hinv _ hexec hnext
    have hpolls : (G t).polls = false := Bool.eq_false_iff.mpr fun h => ht (halone t h)
    have hact := exec_poll hexec
    have hids := exec_dispatched hexec
    rcases PollStage.act_of_apart hpolls (PollStage.step_cases hnext) with heq | ⟨done, heq⟩ <;>
      rw [heq] at hact hids
    · exact hinv.still hact.token (.inl hact.saved) hids
    · refine hinv.still hact.token ?_ hids
      cases done
      · exact .inl hact.saved
      · exact .inr hact.saved
  finish hinv _ := ⟨trivial, hinv.file, hinv.conn, hinv.once⟩
  env := by
    intro g w w' a hinv _ henv
    obtain ⟨m, -, hmoved⟩ := env_eq henv
    obtain ⟨htrace, hsame⟩ := moved_same hmoved
    have hdb : w'.db = w.db := hsame .db (by decide) (by decide) (by decide) (by decide)
    have hdisk : w'.disk = w.disk := hsame .disk (by decide) (by decide) (by decide) (by decide)
    exact hinv.still (by rw [hdb]) (.inl (by rw [hdisk])) (by rw [htrace])
  enter := by
    intro w w' fiber a hgood hinv hstart
    obtain ⟨n, request, henter, -, rfl⟩ := (pollCoverage config).start_good hgood hstart
    rw [henter]
    exact ⟨by cases request <;> exact trivial, hinv.file, hinv.conn, hinv.once⟩
  start := by
    intro g w w' t fiber a _ hinv hstart
    obtain ⟨n, request, -, -, -, rfl⟩ := start_eq hstart
    exact hinv.still rfl (.inl rfl) rfl
  crash := by
    intro g w w' a hinv hcrash
    obtain ⟨-, rfl⟩ := crash_eq hcrash
    exact ⟨trivial, hinv.file, hinv.file, hinv.once⟩

theorem ReplayInv.initial : ReplayInv pos place .absent World.initial :=
  ⟨trivial, .nil _, .nil _, List.nodup_nil⟩

/-- No message is dispatched twice, over all lifetimes of the process. -/
theorem dispatched_once {c : Machine.Config Tid Eff Eff.Ret World}
    (h : Reaches config (serving pos place) c) : (dispatchedIds c.world.trace).Nodup := by
  obtain ⟨G, -, -, hinv⟩ :=
    ((pollInvariant config (serving pos place)).extend
      (replayFocus config pos place).extension).reachable h (pollCoverage config).good_initial
      ⟨fun _ h => Bool.noConfusion h, .initial⟩
  exact hinv.once

/-- The numbers at the end of the tokens and event ids of the scenarios. -/
def lastDigit (s : Str) : Nat := (s.getLastD '0').toNat

theorem dispatched_once_replying : ∃ c, Reaches oneAgent (serving lastDigit lastDigit) c ∧
    dispatchedIds c.world.trace = [lit "$2", lit "$1"] ∧ (dispatchedIds c.world.trace).Nodup := by
  obtain ⟨c, h, hgoal⟩ := reaches_of_play oneAgent (approving ++ replying 1)
    (fun c => dispatchedIds c.world.trace == [lit "$2", lit "$1"])
    (serving_of_serves lastDigit lastDigit) (by decide +kernel)
  exact ⟨c, h, by simpa using hgoal, dispatched_once h⟩

end MatrixDispatcher
