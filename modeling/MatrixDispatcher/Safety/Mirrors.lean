import MatrixDispatcher.Discipline.Identities
import MatrixDispatcher.Discipline.Ledger

/-!
# A session is linked once

No two rows of a room are for the same session, though the database does not forbid it. A handler
inserts a session that it made itself, or one that it found among the transcripts and, without
letting go of the processor since, not among the sessions of the room. The two ways do not meet: a
transcript of a session that was made here appears only once its row is there.

* `freshIds` — what is assumed of `uuid4`: ids do not repeat, and a transcript of one is there only
  after `spawn_claude` was called for it.
* `Linked` — what is known of the rows of one session, and of the tasks that may insert one.
* `single_row` — no run leads to two rows of a room with the same session.
-/

namespace MatrixDispatcher

open Py Coro

/-! ## Sessions in the table -/

/-- The rows are for the same session of the same room, in the same thread. -/
def SessionRow.Same (row row' : SessionRow) : Prop :=
  row.threadRootId = row'.threadRootId ∧ row.roomId = row'.roomId ∧ row.sessionId = row'.sessionId

/-- The rows after a statement are those before it, but for one that it inserts. -/
theorem row_of_exec {s : Stmt} {v : s.Ret} {db db' : Tables} (h : s.exec db = .ok (v, db'))
    {row : SessionRow} (hrow : row ∈ db'.sessions) :
    (∃ old ∈ db.sessions, old.Same row) ∨ ∃ agent now,
      s = .insertSession row.threadRootId row.roomId agent row.sessionId now := by
  have hold : row ∈ db.sessions → ∃ old ∈ db.sessions, old.Same row :=
    fun hmem => ⟨row, hmem, rfl, rfl, rfl⟩
  -- Statements leave the sessions, touch one, insert one or delete stale ones.
  rcases sessions_of_exec h with hsame | ⟨root, now, rfl⟩ | ⟨root, room, agent, session, now, rfl⟩ |
    ⟨cutoff, rfl⟩
  · exact .inl (hold (hsame ▸ hrow))
  · cases h
    obtain ⟨old, hmem, rfl⟩ := List.mem_map.mp hrow
    refine .inl ⟨old, hmem, ?_⟩
    dsimp only
    split <;> exact ⟨rfl, rfl, rfl⟩
  · rcases hres : db.insertSession root room agent session now with x | db₁ <;>
      rw [Stmt.exec, hres] at h <;> cases h
    rw [Tables.insertSession] at hres
    split at hres <;> cases hres
    rcases List.mem_append.mp hrow with hmem | hnew
    · exact .inl (hold hmem)
    · obtain rfl := List.mem_singleton.mp hnew
      exact .inr ⟨agent, now, rfl⟩
  · rw [Stmt.exec, Tables.deleteStaleSessions] at h
    split at h <;> cases h
    exact .inl (hold (Table.mem_deleteWhere.mp hrow).1)

/-! ## Handlers that wait for their turn -/

/-- The number of the handler that an item of the inbox is. -/
def handlerOf : Tid × Request → Option Nat
  | (.handler n, _) => some n
  | _ => none

theorem handlerOf_eq {item : Tid × Request} {n : Nat} (h : item.1 = .handler n) :
    handlerOf item = some n := by
  obtain ⟨_, request⟩ := item
  obtain rfl := h
  rfl

/-- The handlers that were created and have not begun. -/
def waiting (w : World) : List Nat := w.inbox.filterMap handlerOf

variable {config : MatrixDispatcher.Config} {w w' : World} {t : Tid} {a : Answer} {e : Eff}
  {r : e.Ret}

/-- Handlers are numbered upwards. -/
theorem waiting_of_exec (h : exec t a e w = some (r, w')) :
    (waiting w' = waiting w ∧ w'.nextHandler = w.nextHandler) ∨
      (waiting w' = waiting w ++ [w.nextHandler] ∧ w'.nextHandler = w.nextHandler + 1) := by
  by_cases hcreate : ∃ request, e = .sync (.createTask request)
  · obtain ⟨request, rfl⟩ := hcreate
    cases request with
    | handle args =>
      cases h
      exact .inr ⟨List.filterMap_append, rfl⟩
    | _ =>
      cases h
      exact .inl ⟨List.filterMap_append.trans (List.append_nil _), rfl⟩
  -- What creates no task changes neither the inbox nor the number.
  · have hsame : ∀ {c : Component}, c = .inbox ∨ c = .nextHandler → c.Same w w' := by
      rintro c hc
      refine frame h fun hmem => hcreate ?_
      cases e with
      | sync e =>
        cases e <;> first
          | exact ⟨_, rfl⟩
          | (rcases hc with rfl | rfl <;> simp [Eff.writes] at hmem)
      | await e =>
        cases e <;> rcases hc with rfl | rfl <;> simp [Eff.writes, AwaitEff.writes] at hmem
    have hinbox : w'.inbox = w.inbox := hsame (.inl rfl)
    exact .inl ⟨by rw [waiting, hinbox, waiting], hsame (.inr rfl)⟩

/-- The handler has begun, here or in a process before this one. -/
def HasBegun (w : World) (n : Nat) : Prop := n ∉ waiting w ∧ n < w.nextHandler

theorem HasBegun.exec {n : Nat} (hbegun : HasBegun w n) (h : exec t a e w = some (r, w')) :
    HasBegun w' n := by
  rcases waiting_of_exec h with ⟨hwaiting, hnext⟩ | ⟨hwaiting, hnext⟩
  · exact ⟨hwaiting ▸ hbegun.1, hnext ▸ hbegun.2⟩
  · refine ⟨?_, by rw [hnext]; exact Nat.lt_succ_of_lt hbegun.2⟩
    rw [hwaiting, List.mem_append, List.mem_singleton, not_or]
    exact ⟨hbegun.1, hbegun.2.ne⟩

/-- The numbers of the handlers that wait are those of different handlers. -/
structure Distinct (w : World) : Prop where
  nodup : (waiting w).Nodup
  below : ∀ n ∈ waiting w, n < w.nextHandler

theorem Distinct.exec (hdistinct : Distinct w) (h : exec t a e w = some (r, w')) :
    Distinct w' := by
  rcases waiting_of_exec h with ⟨hwaiting, hnext⟩ | ⟨hwaiting, hnext⟩
  · exact ⟨hwaiting ▸ hdistinct.nodup, fun n hn => hnext ▸ hdistinct.below n (hwaiting ▸ hn)⟩
  · refine ⟨?_, fun n hn => ?_⟩
    · rw [hwaiting, List.nodup_append]
      refine ⟨hdistinct.nodup, List.nodup_singleton _, fun n hn m hm => ?_⟩
      rw [List.mem_singleton.mp hm]
      exact (hdistinct.below n hn).ne
    · rw [hwaiting, List.mem_append, List.mem_singleton] at hn
      rw [hnext]
      rcases hn with hn | rfl
      · exact Nat.lt_succ_of_lt (hdistinct.below n hn)
      · exact Nat.lt_succ_self _

/-- What is left of the inbox when a handler begins. -/
theorem waiting_of_start {inbox : List (Tid × Request)} {k : Nat} {item : Tid × Request}
    (h : inbox[k]? = some item) :
    ((inbox.eraseIdx k).filterMap handlerOf).Sublist (inbox.filterMap handlerOf) ∧
      ∀ n, item.1 = .handler n → (inbox.filterMap handlerOf).Nodup →
        n ∉ (inbox.eraseIdx k).filterMap handlerOf := by
  obtain ⟨hlt, rfl⟩ := List.getElem?_eq_some_iff.mp h
  refine ⟨(List.eraseIdx_sublist _ _).filterMap _, fun n hn hnodup => ?_⟩
  -- the inbox before and after the message that is taken out
  have hsplit : inbox = inbox.take k ++ inbox[k] :: inbox.drop (k + 1) := by
    rw [List.getElem_cons_drop, List.take_append_drop]
  rw [hsplit, List.filterMap_append, List.filterMap_cons_some (handlerOf_eq hn)] at hnodup
  rw [List.eraseIdx_eq_take_drop_succ, List.filterMap_append]
  exact (List.nodup_cons.mp (List.nodup_middle.mp hnodup)).1

/-! ## The automaton -/

variable {session : SessionId} {act : IdAct}

/-- `uuid4` made the session. -/
theorem IdAct.of_mint (h : IdAct.of session e r = .mint) (hexec : exec t a e w = some (r, w')) :
    e = .sync .uuid4 ∧ a = .text session := by
  rw [IdAct.of.eq_def] at h
  split at h <;> try cases h
  · split at h
    · next heq =>
      subst heq
      cases a <;> cases hexec
      exact ⟨rfl, rfl⟩
    · cases h
  · split at h <;> cases h
  · split at h <;> cases h

theorem IdAct.of_listed {files : List (Str × Time)} (h : IdAct.of session e r = .listed files)
    (hexec : exec t a e w = some (r, w')) :
    ∃ dir, e = .sync (.listTranscripts dir) ∧ a = .listing (some files) := by
  rw [IdAct.of.eq_def] at h
  split at h <;> try cases h
  · split at h <;> cases h
  · cases a with
    | raised x => cases x <;> cases hexec
    | _ =>
      cases hexec
      try exact ⟨_, rfl, rfl⟩
  · split at h <;> cases h
  · split at h <;> cases h

/-- The sessions of the room are those of its rows. -/
theorem IdAct.of_known {room : RoomId} {ids : List SessionId}
    (h : IdAct.of session e r = .known room ids) (hexec : exec t a e w = some (r, w')) :
    ids = w.db.sessionIds room ∧ w'.db = w.db := by
  rw [IdAct.of.eq_def] at h
  split at h <;> try cases h
  · split at h <;> cases h
  · obtain ⟨⟨_, _⟩, hquiet, heq⟩ := Option.map_eq_some_iff.mp hexec
    cases heq
    rcases execStmt_eq hquiet with ⟨_, hr, -⟩ | ⟨_, _, hr, rfl, hs, -⟩
    · cases hr
    · cases hr
      cases hs
      exact ⟨rfl, rfl⟩
  · split at h <;> cases h
  · split at h <;> cases h

theorem IdAct.of_time (h : IdAct.of session e r = .time) (hexec : exec t a e w = some (r, w')) :
    w'.db = w.db := by
  rw [IdAct.of.eq_def] at h
  split at h <;> try cases h
  · split at h <;> cases h
  · split at h <;> cases h
  · split at h <;> cases h
  · exact frame hexec (c := .db) (by simp [Eff.writes])

/-! ## The rows of one session -/

/-- `spawn_claude` was called for the session. -/
def Spawned (session : SessionId) (w : World) : Prop :=
  ∃ t turn, Obs.marked t (.runnerCall turn) ∈ w.trace ∧ turn.runner = .spawnClaude ∧
    turn.sessionId = session

/-- `uuid4` gives no id twice: `owner` says by which task it is made, if by any. A transcript of an
id that is made is there only after `spawn_claude` was called for it. -/
def freshIds (owner : SessionId → Option Tid) (w : World) : Step → Prop
  | .effect t (.sync .uuid4) (.text made) => owner made = some t
  | .effect _ (.sync (.listTranscripts _)) (.listing (some files)) =>
    ∀ f ∈ files, (owner f.1).isSome → Spawned f.1 w
  | _ => True

/-- The session has at most one row in each room. -/
def Single (session : SessionId) (db : Tables) : Prop :=
  ∀ row ∈ db.sessions, ∀ row' ∈ db.sessions, row.sessionId = session →
    row'.sessionId = session → row.roomId = row'.roomId → row.threadRootId = row'.threadRootId

/-- The task knows the session from somewhere else than `uuid4`, or has inserted it. -/
def Holds (session : SessionId) : IdStage → Prop
  | .listed files => ∃ f ∈ files, f.1 = session
  | .chosen _ | .made => True
  | _ => False

/-- The session has been inserted, or is known from outside. -/
def InUse (session : SessionId) (G : Tid → IdStage) (w : World) : Prop :=
  (∃ row ∈ w.db.sessions, row.sessionId = session) ∨
    (∃ row ∈ w.disk.sessions, row.sessionId = session) ∨ Spawned session w ∨
      ∃ t, Holds session (G t)

/-- The task does not make or insert the session any more. -/
def Late (G : Tid → IdStage) (w : World) (t : Tid) : Prop :=
  (G t).Spent ∧ ∀ n, t = .handler n → HasBegun w n

/-- What is known of the rows of one session, and of the tasks that may insert one. -/
structure Once (session : SessionId) (owner : Option Tid) (G : Tid → IdStage) (w : World) :
    Prop where
  distinct : Distinct w
  begun : ∀ n, G (.handler n) ≠ .idle → HasBegun w n
  rows : Single session w.db
  disk : Single session w.disk
  owned : ∀ t, G t = .minted ∨ G t = .made → owner = some t
  /-- When the session is in use, the task that makes such an id has done so. -/
  late : InUse session G w → ∀ t, owner = some t → Late G w t
  chosen : ∀ t room, G t = .chosen room → ∀ row ∈ w.db.sessions, row.roomId = room →
    row.sessionId ≠ session

variable {owner : Option Tid} {G : Tid → IdStage} {g : IdStage}

/-- A task that is done with the session stays so. -/
theorem spent_of_step (h : (G t).Spent) (hnext : (G t).step session act = some g) : g.Spent := by
  rcases hG : G t <;> rw [hG] at h hnext
  case chosen room =>
    cases act <;> first | cases hnext | skip
    · rw [IdStage.step] at hnext
      split at hnext <;> cases hnext
      trivial
    · trivial
  case made => cases act <;> cases hnext <;> trivial
  case closed => cases act <;> cases hnext <;> trivial
  all_goals first | exact h.elim | cases hnext

theorem Late.step {u : Tid} (h : Late G w u) (hexec : exec t a e w = some (r, w'))
    (hnext : (G t).step session act = some g) : Late (Function.update G t g) w' u := by
  refine ⟨?_, fun n hn => (h.2 n hn).exec hexec⟩
  by_cases hut : u = t
  · subst hut
    rw [Function.update_self]
    exact spent_of_step h.1 hnext
  · rw [Function.update_of_ne hut]
    exact h.1

/-- How a task comes to have made the session. -/
theorem minted_of_step (hnext : (G t).step session act = some g) (hg : g = .minted ∨ g = .made) :
    (G t = .minted ∨ G t = .made) ∨ act = .mint := by
  rcases hG : G t with _ | _ | _ | files | room | _ | _ <;> rw [hG] at hnext
  case minted => exact .inl (.inl rfl)
  case made => exact .inl (.inr rfl)
  case idle => cases hnext
  case early =>
    cases act <;> cases hnext <;> first | exact .inr rfl | skip
    all_goals rcases hg with hg | hg <;> cases hg
  case closed => cases act <;> cases hnext <;> rcases hg with hg | hg <;> cases hg
  case listed =>
    cases act <;> cases hnext <;> rcases hg with hg | hg
    all_goals first | cases hg | (split at hg <;> cases hg)
  case chosen =>
    cases act <;> first | cases hnext | skip
    · rw [IdStage.step] at hnext
      split at hnext <;> cases hnext
      rcases hg with hg | hg <;> cases hg
    · rcases hg with hg | hg <;> cases hg

/-- How a task comes to know the session. -/
theorem holds_of_step (hnext : (G t).step session act = some g) (hg : Holds session g) :
    Holds session (G t) ∨ (∃ files f, act = .listed files ∧ f ∈ files ∧ f.1 = session) ∨
      (G t = .minted ∧ g = .made) := by
  rcases hG : G t with _ | _ | _ | files | room | _ | _ <;> rw [hG] at hnext
  · cases hnext
  · cases act <;> cases hnext <;> first | exact hg.elim | skip
    obtain ⟨f, hmem, heq⟩ := hg
    exact .inr (.inl ⟨_, f, rfl, hmem, heq⟩)
  · cases act <;> cases hnext <;> first | exact hg.elim | exact .inr (.inr ⟨rfl, rfl⟩)
  · refine .inl ?_
    cases act <;> cases hnext <;> first | exact hg | skip
    split at hg
    · next hnewest =>
      obtain ⟨-, -, f, hmem, heq⟩ := mem_of_newestUnknown hnewest
      exact ⟨f, hmem, heq⟩
    · exact hg.elim
  · exact .inl trivial
  · exact .inl trivial
  · cases act <;> cases hnext <;> exact hg.elim

namespace Once

/-- What is inserted is inserted by a task that made the session, or that found it and has not let
go of the processor since. -/
theorem insert_ok {room : RoomId} (hnext : (G t).step session (.insert room) = some g) :
    (G t = .minted ∧ g = .made) ∨ (G t = .chosen room ∧ g = .closed) := by
  rcases hG : G t with _ | _ | _ | files | room' | _ | _ <;> rw [hG] at hnext <;>
    first | cases hnext | skip
  · exact .inl ⟨rfl, rfl⟩
  · rw [IdStage.step] at hnext
    split at hnext
    · next heq =>
      cases hnext
      exact .inr ⟨by rw [heq], rfl⟩
    · cases hnext

/-- Before a row is inserted in a room, the room has none for the session. -/
theorem absent (h : Once session owner G w) {room : RoomId}
    (hnext : (G t).step session (.insert room) = some g) {row : SessionRow}
    (hrow : row ∈ w.db.sessions) (hroom : row.roomId = room) : row.sessionId ≠ session := by
  rcases insert_ok hnext with ⟨hminted, -⟩ | ⟨hchosen, -⟩
  · rintro heq
    have hlate := h.late (.inl ⟨row, hrow, heq⟩) t (h.owned t (.inl hminted))
    rw [Late, hminted] at hlate
    exact hlate.1
  · exact h.chosen t room hchosen row hrow hroom

/-- The rows after a statement of a task. -/
theorem single_of_exec (h : Once session owner G w) {s : Stmt} {v : s.Ret}
    {res : Except Exn s.Ret}
    (hs : s.exec w.db = .ok (v, w'.db))
    (hnext : (G t).step session (IdAct.of session (.sync (.execute s)) res) = some g) :
    Single session w'.db := by
  -- a row that was there and one that is inserted are not in the same room
  have hnew : ∀ {old row row' : SessionRow} {agent now}, old ∈ w.db.sessions → old.Same row →
      row.sessionId = session → row'.sessionId = session → row.roomId = row'.roomId →
      s = .insertSession row'.threadRootId row'.roomId agent row'.sessionId now → False := by
    rintro old row row' agent now hold ⟨-, hroom, hsession⟩ hrow hrow' hrooms rfl
    have hact : IdAct.of session (.sync (.execute (.insertSession row'.threadRootId row'.roomId
        agent row'.sessionId now))) res = .insert row'.roomId := if_pos hrow'
    rw [hact] at hnext
    exact h.absent hnext hold (hroom.trans hrooms) (hsession.trans hrow)
  intro row hrow row' hrow' hsession hsession' hroom
  rcases row_of_exec hs hrow with ⟨old, hold, hsame⟩ | ⟨agent, now, hins⟩
  · rcases row_of_exec hs hrow' with ⟨old', hold', hsame'⟩ | ⟨agent, now, hins⟩
    · rw [← hsame.1, ← hsame'.1]
      refine h.rows old hold old' hold' (hsame.2.2.trans hsession) (hsame'.2.2.trans hsession') ?_
      rw [hsame.2.1, hsame'.2.1, hroom]
    · exact (hnew hold hsame hsession hsession' hroom hins).elim
  · rcases row_of_exec hs hrow' with ⟨old', hold', hsame'⟩ | ⟨agent', now', hins'⟩
    · exact (hnew hold' hsame' hsession' hsession hroom.symm hins).elim
    · have heq := hins.symm.trans hins'
      rw [Stmt.insertSession.injEq] at heq
      exact heq.1

/-- How the session comes to be in use. -/
theorem inUse_of_exec (hexec : exec t a e w = some (r, w'))
    (hnext : (G t).step session (IdAct.of session e r) = some g)
    (huse : InUse session (Function.update G t g) w') :
    InUse session G w ∨ (G t = .minted ∧ g = .made) ∨
      ∃ files f, IdAct.of session e r = .listed files ∧ f ∈ files ∧ f.1 = session := by
  obtain ⟨hdb, hdisk⟩ := Ledger.tables_of_exec hexec
  -- Each way of being in use was one before, or the task has just made or listed the session.
  rcases huse with ⟨row, hrow, heq⟩ | ⟨row, hrow, heq⟩ | ⟨u, turn, hmark, hturn⟩ | ⟨u, hholds⟩
  · rcases hdb with hdb | hdb | ⟨s, v, rfl, hs, -⟩
    · exact .inl (.inl ⟨row, hdb ▸ hrow, heq⟩)
    · exact .inl (.inr (.inl ⟨row, hdb ▸ hrow, heq⟩))
    · rcases row_of_exec hs hrow with ⟨old, hold, -, -, hsession⟩ | ⟨agent, now, rfl⟩
      · exact .inl (.inl ⟨old, hold, hsession.trans heq⟩)
      · have hact : IdAct.of session (.sync (.execute (.insertSession row.threadRootId row.roomId
            agent row.sessionId now))) r = .insert row.roomId := if_pos heq
        rw [hact] at hnext
        rcases insert_ok hnext with hminted | ⟨hchosen, -⟩
        · exact .inr (.inl hminted)
        · exact .inl (.inr (.inr (.inr ⟨t, by rw [hchosen]; trivial⟩)))
  · rcases hdisk with hdisk | hdisk
    · exact .inl (.inr (.inl ⟨row, hdisk ▸ hrow, heq⟩))
    · exact .inl (.inl ⟨row, hdisk ▸ hrow, heq⟩)
  · rw [exec_trace hexec, List.mem_append] at hmark
    rcases hmark with hnew | hold
    · -- only a task that has inserted the session calls `spawn_claude` for it
      have hspawn : IdAct.of session e r = .spawn := by
        rw [Option.mem_toList, obsOf.eq_def] at hnew
        split at hnew <;> cases hnew
        exact if_pos hturn
      rw [hspawn] at hnext
      refine .inl (.inr (.inr (.inr ⟨t, ?_⟩)))
      rcases hG : G t <;> rw [hG] at hnext <;> cases hnext
      trivial
    · exact .inl (.inr (.inr (.inl ⟨u, turn, hold, hturn⟩)))
  · by_cases hut : u = t
    · rw [hut, Function.update_self] at hholds
      rcases holds_of_step hnext hholds with hholds | hlisted | hminted
      · exact .inl (.inr (.inr (.inr ⟨t, hholds⟩)))
      · exact .inr (.inr hlisted)
      · exact .inr (.inl hminted)
    · rw [Function.update_of_ne hut] at hholds
      exact .inl (.inr (.inr (.inr ⟨u, hholds⟩)))

/-- The tables before and after an effect. -/
theorem tables (h : Once session owner G w) (hexec : exec t a e w = some (r, w'))
    (hnext : (G t).step session (IdAct.of session e r) = some g) :
    Single session w'.db ∧ Single session w'.disk := by
  obtain ⟨hdb, hdisk⟩ := Ledger.tables_of_exec hexec
  refine ⟨?_, ?_⟩
  · rcases hdb with hdb | hdb | ⟨s, v, rfl, hs, -⟩
    · exact hdb ▸ h.rows
    · exact hdb ▸ h.disk
    · exact h.single_of_exec hs hnext
  · rcases hdisk with hdisk | hdisk
    · exact hdisk ▸ h.disk
    · exact hdisk ▸ h.rows

/-- A lookup that ends with the session found none of its rows in the room. -/
theorem chosen_of_exec (h : Once session owner G w) (hexec : exec t a e w = some (r, w'))
    {room : RoomId} (hnext : (G t).step session (IdAct.of session e r) = some (.chosen room))
    {row : SessionRow} (hrow : row ∈ w'.db.sessions) (hroom : row.roomId = room) :
    row.sessionId ≠ session := by
  -- The task chooses when it reads the sessions of the room, or had chosen and reads the clock.
  have hact : (∃ files ids, IdAct.of session e r = .known room ids ∧
      newestUnknown ids files = some session) ∨
      (IdAct.of session e r = .time ∧ G t = .chosen room) := by
    rcases hG : G t with _ | _ | _ | files | room' | _ | _ <;> rw [hG] at hnext
    case listed =>
      rcases hact : IdAct.of session e r with _ | _ | _ | ⟨room', ids⟩ | _ | _ | _ | _ | _ <;>
        rw [hact] at hnext <;> first | cases hnext | skip
      rw [IdStage.step, Option.some_inj] at hnext
      split at hnext
      · next hnewest =>
        cases hnext
        exact .inl ⟨files, ids, rfl, hnewest⟩
      · cases hnext
    case chosen =>
      rcases hact : IdAct.of session e r <;> rw [hact] at hnext <;> first | cases hnext | skip
      · rw [IdStage.step] at hnext
        split at hnext <;> cases hnext
      · exact .inr ⟨rfl, rfl⟩
    all_goals
      rcases hact : IdAct.of session e r <;> rw [hact] at hnext <;> cases hnext
  rcases hact with ⟨files, ids, hact, hnewest⟩ | ⟨hact, hG⟩
  · obtain ⟨rfl, hsame⟩ := IdAct.of_known hact hexec
    rintro rfl
    refine (mem_of_newestUnknown hnewest).1 ?_
    rw [hsame] at hrow
    exact List.mem_map.mpr ⟨row, List.mem_filter.mpr ⟨hrow, by simpa using hroom⟩, rfl⟩
  · rw [IdAct.of_time hact hexec] at hrow
    exact h.chosen t room hG row hrow hroom

/-- What a task does keeps the rows of the session apart. -/
theorem effect {owner : SessionId → Option Tid} (h : Once session (owner session) G w)
    (hatomic : ∀ u, u ≠ t → (identityMonitor session).atomic (G u) = false)
    (hallow : freshIds owner w (.effect t e a)) (hexec : exec t a e w = some (r, w'))
    (hnext : (G t).step session (IdAct.of session e r) = some g) :
    Once session (owner session) (Function.update G t g) w' := by
  have hidle : G t ≠ .idle := by
    intro hidle
    rw [hidle] at hnext
    cases hnext
  obtain ⟨hrows, hdisk⟩ := h.tables hexec hnext
  -- One part for each field of `Once`.
  refine ⟨h.distinct.exec hexec, fun n hn => ?_, hrows, hdisk, fun u hu => ?_, fun huse u hu => ?_,
    fun u room hu row hrow hroom => ?_⟩
  · refine (h.begun n fun hidle' => ?_).exec hexec
    by_cases hnt : .handler n = t
    · exact hidle (hnt ▸ hidle')
    · rw [Function.update_of_ne hnt] at hn
      exact hn hidle'
  · by_cases hut : u = t
    · subst hut
      rw [Function.update_self] at hu
      rcases minted_of_step hnext hu with hold | hact
      · exact h.owned u hold
      · obtain ⟨rfl, rfl⟩ := IdAct.of_mint hact hexec
        exact hallow
    · rw [Function.update_of_ne hut] at hu
      exact h.owned u hu
  · rcases inUse_of_exec hexec hnext huse with huse | ⟨hminted, rfl⟩ | ⟨files, f, hact, hmem, rfl⟩
    · exact (h.late huse u hu).step hexec hnext
    · -- the task that made the session has inserted it
      obtain rfl : t = u := Option.some.inj ((h.owned t (.inl hminted)).symm.trans hu)
      refine ⟨by rw [Function.update_self]; trivial, ?_⟩
      rintro n rfl
      exact (h.begun n hidle).exec hexec
    · -- the transcript of an id that is made shows that it was spawned
      obtain ⟨dir, rfl, rfl⟩ := IdAct.of_listed hact hexec
      have hspawned : Spawned f.1 w := hallow f hmem (by rw [hu]; rfl)
      exact (h.late (.inr (.inr (.inl hspawned))) u hu).step hexec hnext
  · by_cases hut : u = t
    · subst hut
      rw [Function.update_self] at hu
      exact h.chosen_of_exec hexec (hu ▸ hnext) hrow hroom
    · -- the other tasks do not move while a session is chosen
      rw [Function.update_of_ne hut] at hu
      have hother := hatomic u hut
      rw [hu] at hother
      cases hother

/-- A task begins or ends. -/
theorem enter (h : Once session owner G w) {inbox : List (Tid × Request)}
    (hsub : (inbox.filterMap handlerOf).Sublist (waiting w)) (hholds : ¬ Holds session g)
    (hspent : g.Spent ∨ ∃ n, t = .handler n ∧ ¬ HasBegun w n)
    (hbegun : ∀ n, t = .handler n → g ≠ .idle →
      n ∉ inbox.filterMap handlerOf ∧ n < w.nextHandler)
    (howned : g ≠ .minted) (hchosen : ∀ room, g ≠ .chosen room) :
    Once session owner (Function.update G t g) { w with inbox := inbox } := by
  -- A handler that has begun stays so.
  have hmono : ∀ {n}, HasBegun w n → HasBegun { w with inbox := inbox } n :=
    fun hn => ⟨fun hmem => hn.1 (hsub.subset hmem), hn.2⟩
  refine ⟨⟨h.distinct.nodup.sublist hsub, fun n hn => h.distinct.below n (hsub.subset hn)⟩,
    fun n hn => ?_, h.rows, h.disk, fun u hu => ?_, fun huse u hu => ?_, fun u room hu => ?_⟩
  · by_cases hnt : .handler n = t
    · rw [hnt, Function.update_self] at hn
      exact hbegun n hnt.symm hn
    · rw [Function.update_of_ne hnt] at hn
      exact hmono (h.begun n hn)
  · by_cases hut : u = t
    · subst hut
      rw [Function.update_self] at hu
      rcases hu with hu | hu
      · exact absurd hu howned
      · subst hu
        exact absurd trivial hholds
    · rw [Function.update_of_ne hut] at hu
      exact h.owned u hu
  -- Beginning and ending puts no session to use.
  · have hold : InUse session G w := by
      rcases huse with hrow | hrow | hspawned | ⟨v, hv⟩
      · exact .inl hrow
      · exact .inr (.inl hrow)
      · exact .inr (.inr (.inl hspawned))
      · by_cases hvt : v = t
        · rw [hvt, Function.update_self] at hv
          exact absurd hv hholds
        · rw [Function.update_of_ne hvt] at hv
          exact .inr (.inr (.inr ⟨v, hv⟩))
    obtain ⟨hlate, hnumber⟩ := h.late hold u hu
    refine ⟨?_, fun n hn => hmono (hnumber n hn)⟩
    by_cases hut : u = t
    · subst hut
      rw [Function.update_self]
      rcases hspent with hspent | ⟨n, hn, hnot⟩
      · exact hspent
      · exact absurd (hnumber n hn) hnot
    · rwa [Function.update_of_ne hut]
  · by_cases hut : u = t
    · rw [hut, Function.update_self] at hu
      exact absurd hu (hchosen room)
    · rw [Function.update_of_ne hut] at hu
      exact h.chosen u room hu

/-- Nothing of this changes when the tables, the inbox and the trace stay. -/
theorem congr (h : Once session owner G w) (hdb : w'.db = w.db) (hdisk : w'.disk = w.disk)
    (hinbox : w'.inbox = w.inbox) (hnext : w'.nextHandler = w.nextHandler)
    (htrace : w'.trace = w.trace) : Once session owner G w' := by
  have hwaiting : waiting w' = waiting w := by rw [waiting, hinbox, waiting]
  have hbegun : ∀ {n}, HasBegun w n → HasBegun w' n :=
    fun hn => ⟨hwaiting ▸ hn.1, hnext ▸ hn.2⟩
  refine ⟨⟨hwaiting ▸ h.distinct.nodup, fun n hn => hnext ▸ h.distinct.below n (hwaiting ▸ hn)⟩,
    fun n hn => hbegun (h.begun n hn), hdb ▸ h.rows, hdisk ▸ h.disk, h.owned, fun huse u hu => ?_,
    hdb ▸ h.chosen⟩
  have hold : InUse session G w := by
    rwa [InUse, hdb, hdisk, Spawned, htrace] at huse
  exact ⟨(h.late hold u hu).1, fun n hn => hbegun ((h.late hold u hu).2 n hn)⟩

end Once

/-- At most one row of a room is for the session, in every run. -/
def once (config : MatrixDispatcher.Config) (session : SessionId)
    (owner : SessionId → Option Tid) :
    Invariant (identityCoverage config session).supervision (freshIds owner) where
  inv := Once session (owner session)
  effect _ hinv hatomic hallow hexec hnext := hinv.effect hatomic hallow hexec hnext
  finish _ h _ := h.enter (.refl _) id (.inl trivial) (fun _ _ hne => absurd rfl hne) nofun
    fun _ => nofun
  env := by
    intro G w w' a _ h _ henv
    obtain ⟨m, -, hmoved⟩ := env_eq henv
    obtain ⟨htrace, hsame⟩ := moved_same hmoved
    exact h.congr (hsame .db nofun nofun nofun nofun) (hsame .disk nofun nofun nofun nofun)
      (hsame .inbox nofun nofun nofun nofun) (hsame .nextHandler nofun nofun nofun nofun) htrace
  start := by
    intro G w w' t fiber a hgood h _ hstart hidle
    obtain ⟨k, request, rfl, hitem, -, rfl⟩ := start_eq hstart
    have hmem := List.mem_of_getElem? hitem
    have henter : (identityCoverage config session).supervision.enter (.pick k) w =
        (identityCoverage config session).enter request :=
      (identityCoverage config session).entered_eq hitem
    rw [henter]
    have hruns := (hgood _ hmem).2
    obtain ⟨hsub, hleft⟩ := waiting_of_start hitem
    cases request with
    | handle args =>
      obtain ⟨n, rfl⟩ : ∃ n, t = .handler n := by
        cases t <;> first | exact ⟨_, rfl⟩ | cases hruns
      have hwaits : n ∈ waiting w := List.mem_filterMap.mpr ⟨_, hmem, rfl⟩
      refine h.enter hsub id (.inr ⟨n, rfl, fun hbegun => hbegun.1 hwaits⟩) ?_ nofun fun _ => nofun
      rintro m hm -
      cases hm
      exact ⟨hleft n rfl h.distinct.nodup, h.distinct.below n hwaits⟩
    | _ =>
      have hne : ∀ n, t ≠ .handler n := by
        rintro n rfl
        cases hruns
      exact h.enter hsub id (.inl trivial) (fun n hn => absurd hn (hne n)) nofun fun _ => nofun
  crash := by
    intro G w w' a _ h _ hcrash
    obtain ⟨-, rfl⟩ := crash_eq hcrash
    refine ⟨⟨List.nodup_nil, fun _ hn => absurd hn List.not_mem_nil⟩, fun _ hn => absurd rfl hn,
      h.disk, h.disk, nofun, fun huse u hu => ?_, nofun⟩
    have hold : InUse session G w := by
      rcases huse with hrow | hrow | ⟨v, turn, hmark, hturn⟩ | ⟨v, hv⟩
      · exact .inr (.inl hrow)
      · exact .inr (.inl hrow)
      · rcases List.mem_cons.mp hmark with heq | hmark
        · cases heq
        · exact .inr (.inr (.inl ⟨v, turn, hmark, hturn⟩))
      · exact hv.elim
    exact ⟨trivial, fun n hn => ⟨List.not_mem_nil, ((h.late hold u hu).2 n hn).2⟩⟩

/-- In every state that is reached, the rows of a room are for different sessions, in the table and
in the file. -/
theorem single_of_reaches {owner : SessionId → Option Tid}
    {c : Machine.Config Tid Eff Eff.Ret World} (h : Reaches config (freshIds owner) c)
    (session : SessionId) : Single session c.world.db ∧ Single session c.world.disk := by
  have hinit : Once session (owner session) (fun _ => .idle) World.initial := by
    refine ⟨⟨List.nodup_nil, fun _ hn => absurd hn List.not_mem_nil⟩, fun _ hn => absurd rfl hn,
      fun _ hrow => absurd hrow List.not_mem_nil, fun _ hrow => absurd hrow List.not_mem_nil,
      fun _ => nofun, fun huse => ?_, fun _ _ => nofun⟩
    rcases huse with ⟨row, hrow, -⟩ | ⟨row, hrow, -⟩ | ⟨u, turn, hmark, -⟩ | ⟨u, hu⟩
    · exact absurd hrow List.not_mem_nil
    · exact absurd hrow List.not_mem_nil
    · exact absurd hmark List.not_mem_nil
    · exact hu.elim
  obtain ⟨G, -, hinv⟩ := (once config session owner).reachable h
    (identityCoverage config session).good_initial hinit
  exact ⟨hinv.rows, hinv.disk⟩

end MatrixDispatcher
