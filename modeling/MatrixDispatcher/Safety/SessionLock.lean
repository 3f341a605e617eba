import MatrixDispatcher.Safety.Argv
import MatrixDispatcher.Safety.RoomLock

/-!
# One child a session

The locks are those of rooms, so two children of one session exclude each other only as long as the
session is tracked in one room. `!mirror` looks at the sessions of its own room, so a transcript
that two rooms can see may be linked to both.

* `naming` — the assumption that messages name events of their own room.
* `homing` — no session is entered for two rooms.
* `session_exclusive` — then at most one child of a session is alive.
-/

namespace MatrixDispatcher

open Py Coro Machine

variable {config : MatrixDispatcher.Config} {place : EventId → RoomId} {home : SessionId → RoomId}

/-- Events are in one room each, and a message names an event of its own room. -/
def naming (place : EventId → RoomId) (_ : World) : Step → Prop
  | .effect _ (.await (.roomSend room _ _)) (.text e) => place e = room
  | .effect _ (.sync (.createTask (.handle args))) _ => place args.event.eventId = args.roomId ∧
    ∀ e, extractThreadRoot args.event = .ok (some e) → place e = args.roomId
  | _ => True

/-- A session is entered for its home only. -/
def homing (home : SessionId → RoomId) (_ : World) : Step → Prop
  | .effect _ (.sync (.execute (.insertSession _ room _ session _))) _ => home session = room
  | _ => True

/-- An event is in the room of its thread root. -/
theorem place_root {e root : EventId} {room room' : RoomId} (he : place e = room)
    (he' : place e = room') (hroot : place root = room') : place root = room :=
  hroot.trans (he'.symm.trans he)

/-- The ledger of sessions that have one room. -/
def homeLedger (place : EventId → RoomId) (home : SessionId → RoomId) : Ledger where
  fresh _ := True
  placed room session := home session = room
  located e room := place e = room
  found _ _ _ _ := True
  known _ := True
  join := @place_root place
  move hroot hroot' h := h.trans (hroot.symm.trans hroot')

theorem homeLedger_governs : (homeLedger place home).Governs config fun w e =>
    beforeShutdown w e ∧ naming place w e ∧ homing home w e where
  minted _ := trivial
  listed _ _ _ := trivial
  placed h _ := h.2.2
  posted h := h.2.1
  accepts h hagent := ⟨hagent, h.2.1.1, h.2.1.2⟩
  found _ _ _ := trivial
  known _ _ := trivial

/-- The session id in a command line. -/
def argvSession (argv : List Str) : Option SessionId := argv[3]?

theorem argvSession_argv (turn : Turn) : argvSession turn.argv = some turn.sessionId := by
  rw [Turn.argv]
  split <;> rfl

/-- A child is started for the session in its command line, in the home of the session. -/
theorem child_at_home {c : Machine.Config Tid Eff Eff.Ret World}
    (h : Reaches config (fun w e => beforeShutdown w e ∧ naming place w e ∧ homing home w e) c) :
    ∀ p ∈ c.world.procs,
      argvSession p.argv = some p.turn.sessionId ∧ home p.turn.sessionId = p.turn.roomId := by
  refine children_of_about (P := fun argv _ turn => argvSession argv = some turn.sessionId ∧
    home turn.sessionId = turn.roomId) ?_ h
  intro c hreach t argv cwd agent turn habout
  obtain ⟨request, -, -, hpromises⟩ := Ledger.about homeLedger_governs hreach habout
  obtain ⟨hcalls, rfl, -⟩ := hpromises
  refine ⟨argvSession_argv turn, ?_⟩
  cases request with
  | main | cleanup => exact hcalls.elim
  | reconcile =>
    cases hcalls with
    | mk row agent cfg dir hwaits => exact hwaits.placed
  | handle args =>
    cases hcalls.1 with
    | reply e row hfinds =>
      -- the thread root of the row is in the room of the row and in that of the message
      have hroom : row.roomId = args.roomId := hfinds.entered.located.symm.trans hfinds.located
      exact Eq.trans hfinds.entered.placed hroom
    | spawn session _ _ hentered => exact hentered.placed

/-- Until the shutdown begins, at most one child of a session is alive if no session is entered for
two rooms. -/
theorem session_exclusive {c : Machine.Config Tid Eff Eff.Ret World}
    (h : Reaches config (fun w e => beforeShutdown w e ∧ naming place w e ∧ homing home w e) c)
    {p q : Pid} {child child' : Proc} (hp : c.world.procs[p]? = some child)
    (hq : c.world.procs[q]? = some child') (halive : child.status = .alive)
    (halive' : child'.status = .alive)
    (hsession : argvSession child.argv = argvSession child'.argv) : p = q := by
  obtain ⟨hargv, hhome⟩ := child_at_home h child (List.mem_of_getElem? hp)
  obtain ⟨hargv', hhome'⟩ := child_at_home h child' (List.mem_of_getElem? hq)
  rw [hargv, hargv'] at hsession
  refine (room_exclusive (h.mono fun _ _ h => h.1)).oneAlive p q child child' hp hq halive
    halive' ?_
  rw [← hhome, ← hhome', Option.some.inj hsession]

/-! ## Runs -/

/-- `naming`, evaluated. -/
def names (place : EventId → RoomId) : Step → Bool
  | .effect _ (.await (.roomSend room _ _)) (.text e) => decide (place e = room)
  | .effect _ (.sync (.createTask (.handle args))) _ =>
    decide (place args.event.eventId = args.roomId) &&
      match extractThreadRoot args.event with
      | .ok (some e) => decide (place e = args.roomId)
      | _ => true
  | _ => true

/-- `homing`, evaluated. -/
def homes (home : SessionId → RoomId) : Step → Bool
  | .effect _ (.sync (.execute (.insertSession _ room _ session _))) _ =>
    decide (home session = room)
  | _ => true

theorem naming_of_check (w : World) (e : Step) (h : names place e = true) : naming place w e := by
  rw [naming.eq_def]
  split
  · exact (of_decide_eq_true h :)
  · next args _ =>
    obtain ⟨hevent, hthread⟩ := Bool.and_eq_true_iff.mp h
    refine ⟨of_decide_eq_true hevent, fun e he => ?_⟩
    simpa [he] using hthread
  · trivial

theorem homing_of_check (w : World) (e : Step) (h : homes home e = true) : homing home w e := by
  rw [homing.eq_def]
  split
  · exact (of_decide_eq_true h :)
  · trivial

/-- A reply to the first message, after its child is gone. -/
theorem session_exclusive_replying : ∃ c child,
    Reaches oneAgent (fun w e => beforeShutdown w e ∧ naming (fun _ => lit "!room") w e ∧
      homing (fun _ => lit "!room") w e) c ∧
    c.world.procs[1]? = some child ∧ child.status = .alive ∧
    ∀ q child', c.world.procs[q]? = some child' → child'.status = .alive →
      argvSession child.argv = argvSession child'.argv → 1 = q := by
  have hcheck : ∀ w e, (isBeforeShutdown e && names (fun _ => lit "!room") e &&
      homes (fun _ => lit "!room") e) = true → beforeShutdown w e ∧
        naming (fun _ => lit "!room") w e ∧ homing (fun _ => lit "!room") w e := by
    intro w e h
    obtain ⟨h, hhomes⟩ := Bool.and_eq_true_iff.mp h
    obtain ⟨hbefore, hnames⟩ := Bool.and_eq_true_iff.mp h
    exact ⟨beforeShutdown_of_check w e hbefore, naming_of_check w e hnames,
      homing_of_check w e hhomes⟩
  obtain ⟨c, h, hgoal⟩ := reaches_of_play oneAgent
    (spawning ++ [.move (.exit 0 0 (lit "ok") []), .go (.handler 0) 16] ++ replying 1)
    (fun c => (c.world.procs[1]?).any fun child : Proc => decide (child.status = .alive)) hcheck
    (by decide +kernel)
  obtain ⟨child, hchild, halive⟩ := (Option.any_eq_true ..).mp hgoal
  exact ⟨c, child, h, hchild, of_decide_eq_true halive, fun q child' hq halive' hsession =>
    session_exclusive h hchild hq (of_decide_eq_true halive) halive' hsession⟩

/-- The events of the other room. -/
def otherRoom (e : EventId) : RoomId :=
  if e = lit "$2" ∨ e = lit "$4" ∨ e = lit "$other" then lit "!other" else lit "!room"

/-- A batch with a message for each of the two rooms. -/
def batchOfTwo (next : Token) (event event' : TimelineEvent) : List Cue :=
  [.task .main (.synced (.response next [(lit "!room", [event]), (lit "!other", [event'])])),
    .go .main 7]

/-- The one transcript in the directory. -/
def oneTranscript : Answer := .listing (some [(lit "12345678-1234-5678-1234-567812345678", 0)])

/-- `!mirror` links one transcript to two rooms, and a reply in each of them starts a child. -/
def mirroring : List Cue :=
  booting ++ batchOfTwo (lit "t1") (messageOf (lit "$1") (lit "!mirror") (.obj []))
    (messageOf (lit "$2") (lit "!mirror") (.obj [])) ++
  [.step (.start (.pick 2)), .go (.handler 0) 1, .task (.handler 0) oneTranscript,
    .go (.handler 0) 14, .step (.start (.pick 2)), .go (.handler 1) 1,
    .task (.handler 1) oneTranscript, .go (.handler 1) 8, .task (.handler 1) (.text (lit "$other")),
    .go (.handler 1) 5] ++
  batchOfTwo (lit "t2") (messageOf (lit "$3") (lit "go on") (replyTo (lit "$1")))
    (messageOf (lit "$4") (lit "go on") (replyTo (lit "$2"))) ++
  [.step (.start (.pick 2)), .go (.handler 2) 16, .step (.start (.pick 2)), .go (.handler 3) 2,
    .task (.handler 3) (.text (lit "$other")), .go (.handler 3) 13]

theorem session_shared : ∃ c child child',
    Reaches twoAgents (fun w e => beforeShutdown w e ∧ naming otherRoom w e) c ∧
    c.world.procs[0]? = some child ∧ c.world.procs[1]? = some child' ∧
    child.status = .alive ∧ child'.status = .alive ∧
    argvSession child.argv = argvSession child'.argv := by
  have hcheck : ∀ w e, (isBeforeShutdown e && names otherRoom e) = true →
      beforeShutdown w e ∧ naming otherRoom w e := by
    intro w e h
    obtain ⟨hbefore, hnames⟩ := Bool.and_eq_true_iff.mp h
    exact ⟨beforeShutdown_of_check w e hbefore, naming_of_check w e hnames⟩
  obtain ⟨c, h, hgoal⟩ := reaches_of_play twoAgents mirroring
    (fun c => (c.world.procs[0]?).any fun child : Proc =>
      (c.world.procs[1]?).any fun child' : Proc =>
        decide (child.status = .alive ∧ child'.status = .alive ∧
          argvSession child.argv = argvSession child'.argv)) hcheck (by decide +kernel)
  obtain ⟨child, hchild, hgoal⟩ := (Option.any_eq_true ..).mp hgoal
  obtain ⟨child', hchild', hgoal⟩ := (Option.any_eq_true ..).mp hgoal
  exact ⟨c, child, child', h, hchild, hchild', of_decide_eq_true hgoal⟩

end MatrixDispatcher
