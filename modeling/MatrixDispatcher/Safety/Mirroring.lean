import MatrixDispatcher.Discipline.Logs
import MatrixDispatcher.Discipline.Sessions
import MatrixDispatcher.Safety.Mirrors
import MatrixDispatcher.Safety.Relations

/-!
# Commands work through the transcripts

A directory of transcripts does not change, and one `!mirror` command comes after the other. Each
command takes the newest of the transcripts that are left, and the first one that finds nothing
left says so.

* `MirrorSite` — the room, its transcripts, and the arena of the task of a command.
* `MirrorSite.Successive` — commands that are carried out one after the other.
* `mirrored_in_order` — what they link.
* `mirror_links_each_once` — both laws of `!mirror`.
-/

namespace MatrixDispatcher

open Py Coro

/-! ## Commands -/

/-- A room, and the transcripts of its project. -/
structure MirrorSite where
  roomId : RoomId
  files : List (Str × Time)
  /-- The events of the commands. -/
  events : List EventId

/-- A command that was carried out. -/
structure MirrorRun where
  task : Tid
  args : HandlerArgs
  log : Log
  result : Except Exn Unit

/-- The message is a `!mirror` command at the root of the room. -/
structure IsMirror (args : HandlerArgs) : Prop where
  trusted : args.event.sender = args.trustedSender
  root : extractThreadRoot args.event = .ok none
  word : args.event.body.strip.splitWord.1.lower = lit "!mirror"

theorem handleEvent_of_mirror {args : HandlerArgs} (h : IsMirror args) :
    handleEvent args = handleMirrorCommand args.roomId args.event args.mentionUser args.agentName
      args.projectDir args.scopedMcpUrl := by
  rw [handleEvent_of_root h.trusted h.root, if_pos (isCommand_of_mirror h.word), handleCommand]
  dsimp only
  rw [h.word]
  rfl

namespace MirrorSite

variable (S : MirrorSite)

/-- The transcript is of a session of the room. -/
def Tracks (w : World) (f : Str × Time) : Prop := f.1 ∈ w.db.sessionIds S.roomId

/-- What the other tasks leave alone: which of the transcripts are of sessions of the room, and the
threads of the commands. -/
structure Keeps (w w' : World) : Prop where
  dbOpen : w.dbOpen = true → w'.dbOpen = true
  tracks : ∀ f ∈ S.files, S.Tracks w' f ↔ S.Tracks w f
  unused : ∀ e ∈ S.events, w.db.sessions.hasKey e = false → w'.db.sessions.hasKey e = false

/-- The database works, and the directory has these transcripts. -/
def Works : Eff → Answer → Prop
  | .sync (.execute _), a | .sync .commit, a => a = .done
  | .sync (.listTranscripts _), a => a = .listing (some S.files)
  | _, _ => True

/-- The arena of the task of a command. -/
def arena (t : Tid) : Arena Eff Eff.Ret World where
  rely := S.Keeps
  step w e r w' := ∃ a, exec t a e w = some (r, w') ∧ S.Works e a
  safe _ _ := True
  rely_refl _ := ⟨id, fun _ _ => .rfl, fun _ _ => id⟩
  rely_trans h h' := ⟨fun ho => h'.dbOpen (h.dbOpen ho),
    fun f hf => (h'.tracks f hf).trans (h.tracks f hf),
    fun e he hk => h'.unused e he (h.unused e he hk)⟩

/-- The commands are carried out one after the other. -/
def Successive : World → List MirrorRun → World → Prop
  | w, [], w' => S.Keeps w w'
  | w, run :: runs, w' => ∃ w₁,
    (S.arena run.task).Executes (handleEvent run.args).run w run.log run.result w₁ ∧
      Successive w₁ runs w'

end MirrorSite

/-- A row that is inserted: its thread root, its room and its session. -/
structure Link where
  threadRootId : EventId
  roomId : RoomId
  sessionId : SessionId
  deriving DecidableEq

/-- The row that an effect inserts. -/
def linkOf : Call Eff Eff.Ret → Option Link
  | ⟨.sync (.execute (.insertSession root room _ session _)), .ok _⟩ => some ⟨root, room, session⟩
  | _ => none

/-- The sessions that are linked. -/
def linked (l : Log) : List Link := l.filterMap linkOf

/-- The post that an effect attempts. -/
def sendOf : Call Eff Eff.Ret → Option Post
  | ⟨.await (.roomSend room body reply), _⟩ => some ⟨room, body, reply⟩
  | _ => none

/-- The posts that are attempted. -/
def sends (l : Log) : List Post := l.filterMap sendOf

/-- What a command says that finds no session. -/
def noneLeft (args : HandlerArgs) : Post where
  roomId := args.roomId
  body := args.mentionUser ++ lit " No unmirrored CloudCLI sessions found for #" ++
    args.agentName ++ lit "."
  replyTo := (some args.event.eventId).filter (· ≠ [])

/-! ## One command -/

/-- The effect changes no session, closes nothing, and inserts nothing. -/
def Bystands : Eff → Prop
  | .sync .registryEnabled | .sync .commit | .sync (.execute (.registerAlias _ _))
  | .await (.upsertSession _ _ _ _ _) | .await (.roomSend _ _ _) | .await .pause => True
  | _ => False

section

variable {t : Tid} {a : Answer} {e : Eff} {r : e.Ret} {w w' : World} {es : Log} {α : Type}
  {S : MirrorSite}

theorem exec_bystands (he : Bystands e) (h : exec t a e w = some (r, w')) :
    w'.db.sessions = w.db.sessions ∧ w'.dbOpen = w.dbOpen := by
  have hdb : Component.db ∉ e.writes → w'.db.sessions = w.db.sessions :=
    fun hmem => congrArg Tables.sessions (frame h hmem)
  have hopen : Component.dbOpen ∉ e.writes → w'.dbOpen = w.dbOpen := frame h
  cases e with
  | sync e =>
    cases e with
    | execute s =>
      -- Of the statements, only those on sessions change them, and they do not stand by.
      refine ⟨?_, hopen (by simp [Eff.writes])⟩
      obtain ⟨⟨_, _⟩, hquiet, heq⟩ := Option.map_eq_some_iff.mp h
      cases heq
      rcases execStmt_eq hquiet with ⟨_, -, -, rfl⟩ | ⟨v, db, -, rfl, hs, -⟩
      · rfl
      · rcases sessions_of_exec hs with hsame | ⟨_, _, rfl⟩ | ⟨_, _, _, _, _, rfl⟩ | ⟨_, rfl⟩
        · exact hsame
        all_goals exact he.elim
    | _ => first | exact he.elim | exact ⟨hdb (by simp [Eff.writes]), hopen (by simp [Eff.writes])⟩
  | await e =>
    cases e <;> first
      | exact he.elim
      | exact ⟨hdb (by simp [Eff.writes, AwaitEff.writes]),
          hopen (by simp [Eff.writes, AwaitEff.writes])⟩

theorem linkOf_bystands (he : Bystands e) (r : e.Ret) : linkOf ⟨e, r⟩ = none := by
  rw [linkOf.eq_def]
  split
  · next heq =>
    cases heq
    exact he.elim
  · rfl

/-- The same sessions, and a database that stays open. -/
theorem keeps_of_sessions (hsessions : w'.db.sessions = w.db.sessions)
    (hopen : w.dbOpen = true → w'.dbOpen = true) : S.Keeps w w' where
  dbOpen := hopen
  tracks f _ := by rw [MirrorSite.Tracks, MirrorSite.Tracks, Tables.sessionIds, hsessions,
    Tables.sessionIds]
  unused e _ h := by rwa [hsessions]

theorem bystand_registerAlias {e root : EventId} :
    PerformsE Bystands (Store.registerAlias e root) := by
  rw [Store.registerAlias]
  split
  · exact performsE_pure _
  · exact performsE_bind (performsE_execute trivial) fun _ => performsE_commit trivial

theorem bystand_registerSession {session : SessionId} {agent : AgentName} {room : RoomId}
    {dir url : Str} : PerformsE Bystands (registerSession session agent room dir url) := by
  refine performsE_bind (performsE_sync trivial) fun enabled => ?_
  split
  · refine performsE_bind (performsE_sync trivial) fun enabled => ?_
    split
    · exact performsE_tryExcept (performsE_network trivial trivial) fun _ => performsE_pure _
    · exact performsE_pure _
  · exact performsE_pure _

/-- A program of bystanders. -/
theorem executes_bystand {p : Coro Eff Eff.Ret α} {b : α} (hp : p.Performs Bystands)
    (h : (S.arena t).Executes p w es b w') : S.Keeps w w' ∧ linked es = [] := by
  refine (h.permits (F := Bystands) (A := fun _ _ _ => True) (l := [])
    (J := fun l v => S.Keeps w v ∧ linked l = []) ?_ ?_ hp ⟨(S.arena t).rely_refl w, rfl⟩).2
  · exact fun hJ hothers => ⟨(S.arena t).rely_trans hJ.1 hothers, hJ.2⟩
  · rintro l v e r v' he hJ ⟨a, hexec, -⟩
    obtain ⟨hsessions, hopen⟩ := exec_bystands he hexec
    refine ⟨trivial, (S.arena t).rely_trans hJ.1 (keeps_of_sessions hsessions fun ho => ?_), ?_⟩
    · rw [hopen]
      exact ho
    · have hlast : linked [⟨e, r⟩] = [] := List.filterMap_cons_none (linkOf_bystands he r)
      rw [linked, List.filterMap_append]
      exact (congrArg₂ _ hJ.2 hlast)

/-- A statement that is executed while the database works. -/
theorem executes_execute {s : Stmt} {res : Except Exn s.Ret} (hopen : w.dbOpen = true)
    (h : (S.arena t).Executes (Py.execute s).run w es res w') :
    ∃ w₁ w₂, S.Keeps w w₁ ∧ S.Keeps w₂ w' ∧ es = [⟨.sync (.execute s), res⟩] ∧
      w₂.dbOpen = true ∧ ((∃ v, s.exec w₁.db = .ok (v, w₂.db) ∧ res = .ok v) ∨
        ∃ x, s.exec w₁.db = .error x) := by
  obtain ⟨w₁, w₂, hbefore, ⟨a, hexec, ha⟩, hafter, rfl⟩ := Arena.Executes.of_perform h
  obtain rfl : a = .done := ha
  have hopen₁ := hbefore.dbOpen hopen
  refine ⟨w₁, w₂, hbefore, hafter, rfl, ?_⟩
  obtain ⟨⟨r, v⟩, hquiet, heq⟩ := Option.map_eq_some_iff.mp hexec
  cases heq
  have hquiet : w₁.execStmt .done s = some (res, v) := hquiet
  rw [World.execStmt, if_pos hopen₁] at hquiet
  split at hquiet
  · next hs =>
    cases hquiet
    exact ⟨hopen₁, .inl ⟨_, hs, rfl⟩⟩
  · next hs =>
    cases hquiet
    exact ⟨hopen₁, .inr ⟨_, hs⟩⟩

/-- What `find_unmirrored_session_id` finds. -/
theorem executes_find {dir : Str} {room : RoomId} {res : Except Exn (Option SessionId)}
    (hopen : w.dbOpen = true)
    (h : (S.arena t).Executes (findUnmirroredSessionId dir room).run w es res w') :
    ∃ w₁, S.Keeps w w₁ ∧ S.Keeps w₁ w' ∧ linked es = [] ∧ sends es = [] ∧
      res = .ok (newestUnknown (w₁.db.sessionIds room) S.files) := by
  rcases h.of_bindE with ⟨es₁, listing, w₁, es₂, rfl, hlist, hrest⟩ | ⟨x, w₁, hlist, rfl, -⟩
  · obtain ⟨w₂, w₃, hbefore, ⟨a, hexec, ha⟩, hafter, rfl⟩ := Arena.Executes.of_perform hlist
    -- The directory is listed as it is,
    obtain rfl : a = .listing (some S.files) := ha
    obtain ⟨⟨r, v⟩, hquiet, heq⟩ := Option.map_eq_some_iff.mp hexec
    cases hquiet
    cases heq
    have hkeeps : S.Keeps w w₁ := (S.arena t).rely_trans hbefore
      ((S.arena t).rely_trans (keeps_of_sessions rfl fun ho => ho) hafter)
    rcases Arena.Executes.of_bindE hrest with ⟨es₃, ids, w₄, es₄, rfl, hids, hend⟩ |
      ⟨x, w₄, hids, -, -⟩
    -- Then the sessions of the room are read, and what is newest is decided in that world.
    · obtain ⟨w₅, w₆, hbefore', hafter', rfl, hopen', hres⟩ :=
        executes_execute (hkeeps.dbOpen hopen) hids
      obtain ⟨rfl, rfl, hlast⟩ := hend
      rcases hres with ⟨_, hs, hok⟩ | ⟨x, hs⟩
      · cases hok
        obtain ⟨rfl, hsame⟩ := Prod.mk.inj (Except.ok.inj hs)
        refine ⟨w₅, (S.arena t).rely_trans hkeeps hbefore', ?_, rfl, rfl, rfl⟩
        have hsame : S.Keeps w₅ w₆ :=
          keeps_of_sessions (by rw [← hsame]) fun _ => hopen'
        exact (S.arena t).rely_trans hsame ((S.arena t).rely_trans hafter' hlast)
      · cases hs
    · obtain ⟨w₅, w₆, -, -, -, -, hres⟩ := executes_execute (hkeeps.dbOpen hopen) hids
      rcases hres with ⟨_, -, hok⟩ | ⟨x, hs⟩
      · cases hok
      · cases hs
  · obtain ⟨w₂, w₃, -, ⟨a, hexec, ha⟩, -, -⟩ := Arena.Executes.of_perform hlist
    obtain rfl : a = .listing (some S.files) := ha
    cases hexec

/-- The session becomes one of the room, under this thread root. -/
structure MirrorSite.Adds (S : MirrorSite) (w w' : World) (root : EventId) (session : SessionId) :
    Prop where
  dbOpen : w'.dbOpen = true
  tracks : ∀ f ∈ S.files, S.Tracks w' f ↔ f.1 = session ∨ S.Tracks w f
  unused : ∀ e ∈ S.events, e ≠ root → w.db.sessions.hasKey e = false →
    w'.db.sessions.hasKey e = false

theorem MirrorSite.Adds.after {w₁ w₂ : World} {root : EventId} {session : SessionId}
    (h : S.Adds w₁ w₂ root session) (hbefore : S.Keeps w w₁) (hafter : S.Keeps w₂ w') :
    S.Adds w w' root session where
  dbOpen := hafter.dbOpen h.dbOpen
  tracks f hf := by rw [hafter.tracks f hf, h.tracks f hf, hbefore.tracks f hf]
  unused e he hne hk := hafter.unused e he (h.unused e he hne (hbefore.unused e he hk))

/-- The insertion of a row. -/
theorem adds_insertSession {root : EventId} {agent : AgentName} {session : SessionId} {now : Int}
    {v : Unit} (hopen : w'.dbOpen = true) (h : Stmt.exec w.db
      (.insertSession root S.roomId agent session now) = .ok (v, w'.db)) :
    S.Adds w w' root session := by
  rcases hres : w.db.insertSession root S.roomId agent session now with x | db
  · rw [Stmt.exec, hres] at h
    cases h
  rw [Stmt.exec, hres] at h
  obtain rfl : db = w'.db := congrArg Prod.snd (Except.ok.inj h)
  rw [Tables.insertSession] at hres
  split at hres
  case isFalse => cases hres
  obtain heq := Except.ok.inj hres
  -- The new row makes its own session tracked, and takes its own key only.
  refine ⟨hopen, fun f _ => ?_, fun e _ hne hk => ?_⟩
  · rw [MirrorSite.Tracks, MirrorSite.Tracks, ← heq, Tables.sessionIds, Tables.sessionIds]
    simp [Table.insertNew, or_comm]
  · rw [← heq]
    refine Table.hasKey_eq_false_iff.mpr fun row hrow => ?_
    rcases List.mem_append.mp hrow with hold | hlast
    · exact Table.hasKey_eq_false_iff.mp hk row hold
    · obtain rfl := List.mem_singleton.mp hlast
      exact Ne.symm hne

theorem executes_insert {root : EventId} {agent : AgentName} {session : SessionId}
    {res : Except Exn Unit} (hroot : root ∈ S.events) (hopen : w.dbOpen = true)
    (hnew : w.db.sessions.hasKey root = false)
    (h : (S.arena t).Executes (Store.insertSession root S.roomId agent session).run w es res w') :
    S.Adds w w' root session ∧ linked es = [⟨root, S.roomId, session⟩] := by
  have htime : ∀ {es res w'}, (S.arena t).Executes Store.now.run w es res w' →
      S.Keeps w w' ∧ linked es = [] ∧ ∃ now, res = .ok now := by
    rintro es res w' ⟨w₁, now, w₂, _, hbefore, ⟨a, hexec, -⟩, rfl, rfl, rfl, hafter⟩
    have hsame : w₂.db = w₁.db := frame hexec (c := .db) (by simp [Eff.writes])
    have hopen : w₂.dbOpen = w₁.dbOpen := frame hexec (c := .dbOpen) (by simp [Eff.writes])
    have hkeeps : S.Keeps w₁ w₂ :=
      keeps_of_sessions (by rw [hsame]) fun ho => by rw [hopen, ho]
    exact ⟨(S.arena t).rely_trans hbefore ((S.arena t).rely_trans hkeeps hafter), rfl, _, rfl⟩
  rcases Arena.Executes.of_bindE h with ⟨es₁, now, w₁, es₂, rfl, hnow, hrest⟩ | ⟨x, w₁, hnow, -, -⟩
  case inr => cases (htime hnow).2.2.choose_spec
  obtain ⟨hkeeps, hlinked, -⟩ := htime hnow
  have hopen₁ := hkeeps.dbOpen hopen
  -- nobody else starts a thread of that name
  have hnew₁ := hkeeps.unused root hroot hnew
  have hexecute : ∀ {es res w'}, (S.arena t).Executes
      (Py.execute (.insertSession root S.roomId agent session now)).run w₁ es res w' →
      S.Adds w₁ w' root session ∧ linked es = [⟨root, S.roomId, session⟩] ∧
        ∃ v, res = .ok v := by
    intro es res w' h
    obtain ⟨w₂, w₃, hbefore, hafter, rfl, hopen₃, hres⟩ := executes_execute hopen₁ h
    rcases hres with ⟨v, hs, rfl⟩ | ⟨x, hs⟩
    · exact ⟨(adds_insertSession hopen₃ hs).after hbefore hafter, rfl, v, rfl⟩
    · rw [Stmt.exec, Tables.insertSession, dif_pos (hbefore.unused root hroot hnew₁)] at hs
      cases hs
  rcases Arena.Executes.of_bindE hrest with ⟨es₃, v, w₂, es₄, rfl, hins, hend⟩ | ⟨x, w₂, hins, -, -⟩
  case inr => cases (hexecute hins).2.2.choose_spec
  obtain ⟨hadds, hlinked', -⟩ := hexecute hins
  have hcommit : PerformsE Bystands Py.commit := performsE_commit trivial
  obtain ⟨hkeeps', hlinked''⟩ := executes_bystand hcommit hend
  refine ⟨hadds.after hkeeps hkeeps', ?_⟩
  rw [linked, List.filterMap_append, List.filterMap_append]
  exact congrArg₂ _ hlinked (congrArg₂ _ hlinked' hlinked'')

/-- What a command leads to that finds this session, or none. -/
def MirrorSite.Leads (S : MirrorSite) (args : HandlerArgs) (es : Log) (w w' : World) :
    Option SessionId → Prop
  | some session => linked es = [⟨args.event.eventId, S.roomId, session⟩] ∧
      S.Adds w w' args.event.eventId session
  | none => linked es = [] ∧ sends es = [noneLeft args] ∧ S.Keeps w w'

theorem newestUnknown_congr {ids ids' : List SessionId} {files : List (Str × Time)}
    (h : ∀ f ∈ files, f.1 ∈ ids ↔ f.1 ∈ ids') :
    newestUnknown ids files = newestUnknown ids' files := by
  have hfilter : ∀ f ∈ files, (!ids.contains f.1 && uuidAccepts f.1) =
      (!ids'.contains f.1 && uuidAccepts f.1) := by
    intro f hf
    have hcontains : ids.contains f.1 = ids'.contains f.1 := by
      rw [Bool.eq_iff_iff, List.contains_iff_mem, List.contains_iff_mem]
      exact h f hf
    rw [hcontains]
  rw [newestUnknown, newestUnknown, List.filter_congr hfilter]

/-- A post that is attempted. -/
theorem sends_of_post {room : RoomId} {body : Str} {reply : Option EventId}
    {res : Except Exn EventId} (h : TraceE (postMessage room body reply) es res) :
    sends es = [⟨room, body, reply.filter (· ≠ [])⟩] := by
  rcases traceE_network.mp h with ⟨rfl, -⟩ | ⟨r, landing, -, rfl, -⟩
  · rfl
  · rfl

/-- A command links the newest transcript that is left, or says that there is none. -/
theorem leads_of_command {args : HandlerArgs} {res : Except Exn Unit} (hmirror : IsMirror args)
    (hroom : args.roomId = S.roomId) (hevent : args.event.eventId ∈ S.events)
    (hopen : w.dbOpen = true) (hnew : w.db.sessions.hasKey args.event.eventId = false)
    (h : (S.arena t).Executes (handleEvent args).run w es res w') :
    S.Leads args es w w' (newestUnknown (w.db.sessionIds S.roomId) S.files) := by
  rw [handleEvent_of_mirror hmirror, hroom] at h
  rcases Arena.Executes.of_bindE h with ⟨es₁, found, w₁, es₂, rfl, hfind, hrest⟩ |
    ⟨x, w₁, hfind, -, -⟩
  case inr =>
    obtain ⟨_, -, -, -, -, hok⟩ := executes_find hopen hfind
    cases hok
  obtain ⟨w₂, hbefore, hafter, hlinked, hsends, hok⟩ := executes_find hopen hfind
  -- Steps of others between the two reads do not change what is newest.
  have hfound : found = newestUnknown (w.db.sessionIds S.roomId) S.files :=
    (Except.ok.inj hok).trans (newestUnknown_congr hbefore.tracks)
  have hkeeps : S.Keeps w w₁ := (S.arena t).rely_trans hbefore hafter
  have happend : ∀ es₂, linked (es₁ ++ es₂) = linked es₂ := fun es₂ => by
    rw [linked, List.filterMap_append]
    exact congrArg (· ++ _) hlinked
  rw [← hfound]
  cases found with
  | none =>
    -- Nothing is left: the command says so, and inserts nothing.
    have hposts : PerformsE Bystands (do
        let _ ← postMessage S.roomId (args.mentionUser ++
          lit " No unmirrored CloudCLI sessions found for #" ++ args.agentName ++ lit ".")
          (some args.event.eventId)) :=
      performsE_bind (performsE_network trivial trivial) fun _ => performsE_pure _
    obtain ⟨hkeeps', hlinked'⟩ := executes_bystand hposts hrest
    refine ⟨(happend es₂).trans hlinked', ?_, (S.arena t).rely_trans hkeeps hkeeps'⟩
    rw [sends, List.filterMap_append]
    refine (congrArg (· ++ _) hsends).trans ?_
    rw [noneLeft, hroom]
    rcases traceE_bind.mp hrest.trace with ⟨es₃, _, es₄, rfl, hpost, hend⟩ | ⟨x, hpost, -⟩
    · obtain ⟨rfl, -⟩ := traceE_pure.mp hend
      rw [List.append_nil]
      exact sends_of_post hpost
    · exact sends_of_post hpost
  | some session =>
    rcases Arena.Executes.of_bindE hrest with ⟨es₃, v, w₃, es₄, rfl, hins, hend⟩ |
      ⟨x, w₃, hins, -, hrely⟩
    -- The session is inserted, and what follows the insertion only stands by.
    · have hlinks : PerformsE Bystands (do
          registerSession session args.agentName S.roomId args.projectDir args.scopedMcpUrl
          let response ← postMessage S.roomId (args.mentionUser ++ lit " Linked session " ++
            session.short ++ lit " to this thread. Reply here to resume.")
            (some args.event.eventId)
          Store.registerAlias response args.event.eventId) :=
        performsE_bind bystand_registerSession fun _ =>
          performsE_bind (performsE_network trivial trivial) fun _ => bystand_registerAlias
      obtain ⟨hadds, hlinked'⟩ := executes_insert hevent (hkeeps.dbOpen hopen)
        (hkeeps.unused _ hevent hnew) hins
      obtain ⟨hkeeps', hlinked''⟩ := executes_bystand hlinks hend
      refine ⟨?_, hadds.after hkeeps hkeeps'⟩
      rw [happend, linked, List.filterMap_append]
      exact congrArg₂ _ hlinked' hlinked''
    · obtain ⟨hadds, hlinked'⟩ := executes_insert hevent (hkeeps.dbOpen hopen)
        (hkeeps.unused _ hevent hnew) hins
      exact ⟨(happend es₂).trans hlinked', hadds.after hkeeps hrely⟩

/-! ## All the commands -/

/-- The transcripts that are left for the room. -/
def MirrorSite.untracked (S : MirrorSite) (w : World) : List (Str × Time) :=
  S.files.filter fun f => !(w.db.sessionIds S.roomId).contains f.1 && uuidAccepts f.1

theorem MirrorSite.mem_untracked {f : Str × Time} :
    f ∈ S.untracked w ↔ f ∈ S.files ∧ ¬ S.Tracks w f ∧ uuidAccepts f.1 = true := by
  simp [untracked, Tracks]

/-- The transcripts that are left are those that were, but for the one that was linked. -/
theorem untracked_perm {f : Str × Time} {root : EventId} (hfiles : (S.files.map (·.1)).Nodup)
    (hf : f ∈ S.untracked w) (h : S.Adds w w' root f.1) :
    (f :: S.untracked w').Perm (S.untracked w) := by
  have hleft : S.untracked w' = (S.untracked w).filter (· != f) := by
    rw [MirrorSite.untracked, MirrorSite.untracked, List.filter_filter]
    refine List.filter_congr fun g hg => ?_
    have hsame : g = f ↔ g.1 = f.1 :=
      ⟨fun heq => heq ▸ rfl, List.inj_on_of_nodup_map hfiles hg (MirrorSite.mem_untracked.mp hf).1⟩
    have htracks := h.tracks g hg
    rw [MirrorSite.Tracks, MirrorSite.Tracks] at htracks
    rw [Bool.eq_iff_iff]
    simp [htracks, hsame]
    tauto
  have hnodup : (S.untracked w).Nodup := (List.Nodup.of_map _ hfiles).filter _
  rw [hleft, ← hnodup.erase_eq_filter]
  exact (List.perm_cons_erase hf).symm

/-- What a command is to do when this is the newest transcript left, or none is. -/
def MirrorSite.Reports (S : MirrorSite) (run : MirrorRun) : Option (Str × Time) → Prop
  | some f => linked run.log = [⟨run.args.event.eventId, S.roomId, f.1⟩]
  | none => linked run.log = [] ∧ sends run.log = [noneLeft run.args]

/-- The commands are messages of the room whose threads are unused. -/
structure MirrorSite.Commands (S : MirrorSite) (w : World) (runs : List MirrorRun) : Prop where
  mirror : ∀ run ∈ runs, IsMirror run.args ∧ run.args.roomId = S.roomId
  events : ∀ run ∈ runs, run.args.event.eventId ∈ S.events ∧
    w.db.sessions.hasKey run.args.event.eventId = false
  nodup : (runs.map (·.args.event.eventId)).Nodup

/-- The commands that follow one. -/
theorem MirrorSite.Commands.tail {run : MirrorRun} {runs : List MirrorRun}
    (h : S.Commands w (run :: runs))
    (hunused : ∀ e ∈ S.events, e ≠ run.args.event.eventId → w.db.sessions.hasKey e = false →
      w'.db.sessions.hasKey e = false) : S.Commands w' runs := by
  obtain ⟨hnot, hnodup⟩ := List.nodup_cons.mp h.nodup
  refine ⟨fun later hlater => h.mirror later (List.mem_cons_of_mem _ hlater),
    fun later hlater => ?_, hnodup⟩
  obtain ⟨hevent, hnew⟩ := h.events later (List.mem_cons_of_mem _ hlater)
  exact ⟨hevent, hunused _ hevent (fun heq => hnot (List.mem_map.mpr ⟨later, hlater, heq⟩)) hnew⟩

/-- The commands link the transcripts that are left, each once and the newest first, and then say
that there is none. -/
theorem mirrored_in_order {runs : List MirrorRun} (hfiles : (S.files.map (·.1)).Nodup)
    (hopen : w.dbOpen = true) (hcommands : S.Commands w runs) (h : S.Successive w runs w') :
    ∃ order : List (Str × Time), order.Perm (S.untracked w) ∧
      order.Pairwise (fun f g => g.2 ≤ f.2) ∧
      ∀ (i : Nat) (run : MirrorRun), runs[i]? = some run → S.Reports run order[i]? := by
  -- By induction on the commands: each takes the newest transcript that is left.
  induction runs generalizing w with
  | nil =>
    -- Without commands, any descending order of the transcripts will do.
    refine ⟨(S.untracked w).mergeSort fun f g => decide (g.2 ≤ f.2), List.mergeSort_perm _ _, ?_,
      fun _ _ => nofun⟩
    refine (List.pairwise_mergeSort (fun f g h hfg hgh => ?_) (fun f g => ?_) _).imp
      of_decide_eq_true
    · exact decide_eq_true (Int.le_trans (of_decide_eq_true hgh) (of_decide_eq_true hfg))
    · rcases Int.le_total g.2 f.2 with hle | hle <;> simp [hle]
  | cons run runs ih =>
    obtain ⟨w₁, hrun, hrest⟩ := h
    obtain ⟨hmirror, hroom⟩ := hcommands.mirror run List.mem_cons_self
    obtain ⟨hevent, hnew⟩ := hcommands.events run List.mem_cons_self
    have hleads := leads_of_command hmirror hroom hevent hopen hnew hrun
    have hnewest : newestUnknown (w.db.sessionIds S.roomId) S.files =
      (latestBy (·.2) (S.untracked w)).map (·.1) := rfl
    rw [hnewest] at hleads
    rcases hlatest : latestBy (·.2) (S.untracked w) with _ | f <;> rw [hlatest] at hleads
    · -- nothing is left, now and for the rest of the commands
      obtain ⟨hlinked, hsends, hkeeps⟩ := hleads
      have hnone : S.untracked w = [] := List.argmax_eq_none.mp hlatest
      have hsame : S.untracked w₁ = [] := by
        refine List.eq_nil_iff_forall_not_mem.mpr fun g hg => ?_
        obtain ⟨hmem, htracks, haccepts⟩ := MirrorSite.mem_untracked.mp hg
        rw [hkeeps.tracks g hmem] at htracks
        have hmem' := MirrorSite.mem_untracked.mpr ⟨hmem, htracks, haccepts⟩
        rw [hnone] at hmem'
        cases hmem'
      have hcommands₁ := hcommands.tail fun e he _ hk => hkeeps.unused e he hk
      obtain ⟨order, hperm, -, hreports⟩ := ih (hkeeps.dbOpen hopen) hcommands₁ hrest
      obtain rfl : order = [] := (hsame ▸ hperm).eq_nil
      refine ⟨[], hnone ▸ .refl _, .nil, fun i run' hi => ?_⟩
      cases i with
      | zero =>
        cases hi
        exact ⟨hlinked, hsends⟩
      | succ i => exact hreports i run' hi
    · -- the newest is linked, and the rest is linked by the commands that follow
      obtain ⟨hlinked, hadds⟩ := hleads
      have hmem := mem_of_latestBy hlatest
      have hperm₁ := untracked_perm hfiles hmem hadds
      have hcommands₁ := hcommands.tail hadds.unused
      obtain ⟨order, hperm, hsorted, hreports⟩ := ih hadds.dbOpen hcommands₁ hrest
      refine ⟨f :: order, (hperm.cons f).trans hperm₁, List.pairwise_cons.mpr ⟨fun g hg => ?_,
        hsorted⟩, fun i run' hi => ?_⟩
      · exact le_of_latestBy hlatest
          (hperm₁.subset (List.mem_cons_of_mem _ (hperm.subset hg)))
      · cases i with
        | zero =>
          cases hi
          exact hlinked
        | succ i => exact hreports i run' hi

end

/-! ## Both laws -/

/-- Whatever the handlers, spawns and resumes do among each other, no two rows of a room have the
same session. And one command after the other links the transcripts of a directory that are left,
each once, the newest first; the next command says that none is left. Transcripts whose names are no
UUIDs are not linked. -/
theorem mirror_links_each_once (config : MatrixDispatcher.Config) :
    (∀ (owner : SessionId → Option Tid) (c : Machine.Config Tid Eff Eff.Ret World),
      Reaches config (freshIds owner) c → ∀ db, db = c.world.db ∨ db = c.world.disk →
      ∀ row ∈ db.sessions, ∀ row' ∈ db.sessions, row.roomId = row'.roomId →
        row.sessionId = row'.sessionId → row = row') ∧
    ∀ (S : MirrorSite) (w w' : World) (runs : List MirrorRun), (S.files.map (·.1)).Nodup →
      w.dbOpen = true → S.Commands w runs → S.Successive w runs w' →
      ∃ order : List (Str × Time), order.Perm (S.untracked w) ∧
        order.Pairwise (fun f g => g.2 ≤ f.2) ∧
        (∀ (i : Nat) (run : MirrorRun), runs[i]? = some run → S.Reports run order[i]?) ∧
        ∀ run ∈ runs, ∀ link ∈ linked run.log, uuidAccepts link.sessionId = true := by
  refine ⟨fun owner c h db hdb row hrow row' hrow' hroom hsession => ?_,
    fun S w w' runs hfiles hopen hcommands h => ?_⟩
  -- Uniqueness is an invariant of runs, of the connection and of the file.
  · obtain ⟨hrows, hdisk⟩ := single_of_reaches h row.sessionId
    have hsingle : Single row.sessionId db := by
      rcases hdb with rfl | rfl
      · exact hrows
      · exact hdisk
    exact Table.eq_of_key_eq hrow hrow' (hsingle row hrow row' hrow' rfl hsession.symm hroom)
  -- What is linked is a transcript that was left, hence the stem of a UUID.
  · obtain ⟨order, hperm, hsorted, hreports⟩ := mirrored_in_order hfiles hopen hcommands h
    refine ⟨order, hperm, hsorted, hreports, fun run hrun link hlink => ?_⟩
    obtain ⟨i, hi⟩ := List.getElem?_of_mem hrun
    have hreport := hreports i run hi
    rcases hf : order[i]? with _ | f <;> rw [hf] at hreport
    · rw [hreport.1] at hlink
      cases hlink
    · have hlinked : linked run.log = _ := hreport
      rw [hlinked] at hlink
      obtain rfl := List.mem_singleton.mp hlink
      exact (MirrorSite.mem_untracked.mp (hperm.subset (List.mem_of_getElem? hf))).2.2

/-! ### A session and three commands -/

/-- Only the first handler makes an id. -/
def firstMakes (made : SessionId) : Option Tid :=
  if made = lit "5e55" then some (.handler 0) else none

/-- `freshIds firstMakes`, evaluated. -/
def isFresh (_ : World) : Step → Bool
  | .effect t (.sync .uuid4) (.text made) => decide (firstMakes made = some t)
  | .effect _ (.sync (.listTranscripts _)) (.listing (some files)) =>
    files.all fun f => (firstMakes f.1).isNone
  | _ => true

theorem freshIds_of_check (w : World) (e : Step) (h : isFresh w e = true) :
    freshIds firstMakes w e := by
  rw [freshIds.eq_def]
  split
  · exact of_decide_eq_true h
  · next files =>
    have hall : (files.all fun f => (firstMakes f.1).isNone) = true := h
    intro f hf howner
    have hnone := Option.isNone_iff_eq_none.mp (List.all_eq_true.mp hall f hf)
    rw [hnone] at howner
    cases howner
  · trivial

/-- Two transcripts of sessions, and a file of another name. -/
def twoTranscripts : List (Str × Time) :=
  [(lit "11111111-1111-1111-1111-111111111111", 1), (lit "-rf", 9),
    (lit "22222222-2222-2222-2222-222222222222", 2)]

/-- A message spawns a session, and a command links another one. -/
def linkingOne : List Cue :=
  spawning ++ batch (lit "t2") (lit "!room") [messageOf (lit "$2") (lit "!mirror") (.obj [])] ++
    [.step (.start (.pick 2)), .go (.handler 1) 1,
      .task (.handler 1) (.listing (some twoTranscripts)), .go (.handler 1) 4]

/-- The usual answers, in a directory with these transcripts. -/
def MirrorSite.answer (S : MirrorSite) (w : World) : Eff → Answer
  | .sync (.listTranscripts _) => .listing (some S.files)
  | e => usualAnswer w e

/-- The commands are carried out with these answers, nobody else doing anything. -/
def MirrorSite.drive (S : MirrorSite) : World → List (Tid × HandlerArgs) →
    Option (List MirrorRun × World)
  | w, [] => some ([], w)
  | w, (t, args) :: rest =>
    (Arena.drive (fun w e => exec t (S.answer w e) e w) (handleEvent args).run w).bind
      fun (log, result, w₁) => (S.drive w₁ rest).map
        fun (runs, w₂) => (⟨t, args, log, result⟩ :: runs, w₂)

theorem successive_of_drive {S : MirrorSite} {w w' : World} {commands : List (Tid × HandlerArgs)}
    {runs : List MirrorRun} (h : S.drive w commands = some (runs, w')) :
    S.Successive w runs w' ∧ runs.map (fun run => (run.task, run.args)) = commands := by
  induction commands generalizing w runs with
  | nil =>
    cases h
    exact ⟨(S.arena .main).rely_refl _, rfl⟩
  | cons command rest ih =>
    obtain ⟨t, args⟩ := command
    obtain ⟨⟨log, result, w₁⟩, hdrive, h⟩ := Option.bind_eq_some_iff.mp h
    obtain ⟨⟨runs', w₂⟩, hrest, heq⟩ := Option.map_eq_some_iff.mp h
    cases heq
    obtain ⟨hsuccessive, hcommands⟩ := ih hrest
    refine ⟨⟨w₁, Arena.executes_of_drive (fun w e r w' hexec => ⟨_, hexec, ?_⟩) hdrive,
      hsuccessive⟩, congrArg _ hcommands⟩
    unfold MirrorSite.Works
    split <;> first | rfl | trivial

/-- The room of the agent, with its transcripts. -/
def twoLeft : MirrorSite := ⟨lit "!room", twoTranscripts, [lit "$1", lit "$2", lit "$3"]⟩

/-- A `!mirror` command with this event. -/
def mirrorArgs (e : EventId) : HandlerArgs where
  roomId := lit "!room"
  event := ⟨e, lit "@ted", lit "!mirror", .obj []⟩
  trustedSender := lit "@ted"
  mentionUser := lit "@ted"
  botUserId := []
  maxMessageLength := 4000
  agentName := lit "agent"
  projectDir := lit "/p"
  subprocessTimeoutSeconds := 60
  scopedMcpUrl := []

/-- Three commands, one after the other. -/
def threeCommands : List (Tid × HandlerArgs) :=
  [(.handler 0, mirrorArgs (lit "$1")), (.handler 1, mirrorArgs (lit "$2")),
    (.handler 2, mirrorArgs (lit "$3"))]

theorem commands_of_three {runs : List MirrorRun}
    (h : runs.map (fun run => (run.task, run.args)) = threeCommands) :
    twoLeft.Commands World.initial runs := by
  -- The three commands are messages `$1`, `$2` and `$3`.
  have hargs : ∀ run ∈ runs, ∃ e ∈ twoLeft.events, run.args = mirrorArgs e := by
    intro run hrun
    have hmem := List.mem_map_of_mem (f := fun run : MirrorRun => (run.task, run.args)) hrun
    rw [h] at hmem
    simp only [threeCommands, List.mem_cons, List.not_mem_nil, or_false, Prod.mk.injEq] at hmem
    rcases hmem with ⟨-, heq⟩ | ⟨-, heq⟩ | ⟨-, heq⟩
    · exact ⟨_, .head _, heq⟩
    · exact ⟨_, .tail _ (.head _), heq⟩
    · exact ⟨_, .tail _ (.tail _ (.head _)), heq⟩
  refine ⟨fun run hrun => ?_, fun run hrun => ?_, ?_⟩
  · obtain ⟨e, -, heq⟩ := hargs run hrun
    rw [heq]
    have hword : (lit "!mirror").strip.splitWord.1.lower = lit "!mirror" := by decide +kernel
    exact ⟨⟨rfl, rfl, hword⟩, rfl⟩
  · obtain ⟨e, he, heq⟩ := hargs run hrun
    rw [heq]
    exact ⟨he, rfl⟩
  · have hevents : runs.map (·.args.event.eventId) =
        (runs.map fun run => (run.task, run.args)).map (·.2.event.eventId) := by
      rw [List.map_map]
      rfl
    rw [hevents, h]
    decide

/-- A room with two sessions, and three commands in it. -/
theorem mirror_links_each_once_twice :
    (∃ c, Reaches oneAgent (freshIds firstMakes) c ∧ c.world.db.sessions.rows.length = 2 ∧
      ∀ row ∈ c.world.db.sessions, ∀ row' ∈ c.world.db.sessions, row.roomId = row'.roomId →
        row.sessionId = row'.sessionId → row = row') ∧
    ∃ runs w', twoLeft.Successive World.initial runs w' ∧
      runs.map (fun run => (run.task, run.args)) = threeCommands ∧
      ∃ order : List (Str × Time), order.Perm (twoLeft.untracked World.initial) ∧
        order.Pairwise (fun f g => g.2 ≤ f.2) ∧
        (∀ (i : Nat) (run : MirrorRun), runs[i]? = some run → twoLeft.Reports run order[i]?) ∧
        ∀ run ∈ runs, ∀ link ∈ linked run.log, uuidAccepts link.sessionId = true := by
  constructor
  · obtain ⟨c, hreach, hgoal⟩ := reaches_of_play oneAgent linkingOne
      (fun c => c.world.db.sessions.rows.length == 2) freshIds_of_check (by decide +kernel)
    exact ⟨c, hreach, beq_iff_eq.mp hgoal,
      (mirror_links_each_once oneAgent).1 firstMakes c hreach _ (.inl rfl)⟩
  · have hdrive : (twoLeft.drive World.initial threeCommands).isSome = true := by decide +kernel
    obtain ⟨⟨runs, w'⟩, hdrive⟩ := Option.isSome_iff_exists.mp hdrive
    obtain ⟨hsuccessive, hcommands⟩ := successive_of_drive hdrive
    exact ⟨runs, w', hsuccessive, hcommands,
      (mirror_links_each_once oneAgent).2 twoLeft World.initial w' runs (by decide) rfl
        (commands_of_three hcommands) hsuccessive⟩

end MatrixDispatcher
