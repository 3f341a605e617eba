import MatrixDispatcher.Discipline.Handling

/-!
# Cleanup during a turn

A thread reply looks its session up before it posts, waits for the lock and runs the child, and
`last_used_at` is refreshed only when the child has ended. The retention cleanup may delete the
row in between; then the next alias violates the foreign key and the reply is lost.

* `spared` — the steps of a run that leaves the handler alone and whose cleanups spare its session
  as long as the handler needs it.
* `Answered` — the handler has resumed the session, posted the whole answer and looked for a
  pending approval.
* `reply_outlives_cleanup` — under `spared` the handler of a reply whose session was found violates
  no constraint, never gets stuck, and has answered when it ends.
-/

namespace MatrixDispatcher

open Coro Py Machine

variable {n : Nat} {b : List Deed} {root : EventId} {w w' : World}

/-! ## How long the session is needed -/

/-- Since the deeds `b`, handler `n` has called `_record_pending_if_gated`. -/
def Checked (n : Nat) (b : List Deed) (w : World) : Prop :=
  ∃ tail room session root, w.deeds (.handler n) = b ++ tail ∧
    Deed.checked room session root ∈ tail

theorem Checked.mono (h : Checked n b w) (hle : w.deeds (.handler n) <+: w'.deeds (.handler n)) :
    Checked n b w' := by
  obtain ⟨tail, room, session, root, hdeeds, hmem⟩ := h
  obtain ⟨more, hmore⟩ := hle
  refine ⟨tail ++ more, room, session, root, ?_, List.mem_append_left _ hmem⟩
  rw [← hmore, hdeeds, List.append_assoc]

theorem Checked.not_unchecked (h : Checked n b w) {ds : List Deed}
    (hds : w.deeds (.handler n) = ds) : ¬ Unchecked b ds := by
  obtain ⟨tail, room, session, root, hdeeds, hmem⟩ := h
  rintro ⟨tail', rfl, hnot⟩
  obtain rfl := List.append_cancel_left (hdeeds.symm.trans hds)
  exact hnot room session root hmem

/-- The other tasks delete the session only once it is not needed any more; the child runs to its
end. -/
def retaining (n : Nat) (b : List Deed) (root : EventId) : Surroundings n where
  keeps w w' := Checked n b w ∨
    (w.db.sessions.hasKey root = true → w'.db.sessions.hasKey root = true)
  of_keys h := .inr fun hkey => by rw [h, hkey]
  trans := by
    intro w w' w'' hsame h h'
    rcases h with h | h
    · exact .inl h
    · rcases h' with h' | h'
      · exact .inl (h'.mono (hsame ▸ List.prefix_rfl))
      · exact .inr (h' ∘ h)
  calm := True

/-- The session is there as long as it is needed. -/
def Retained (n : Nat) (b : List Deed) (root : EventId) (w : World) : Prop :=
  Checked n b w ∨ w.db.sessions.hasKey root = true

theorem Retained.lasting : (retaining n b root).Lasting (Retained n b root) := by
  rintro w w' hon (h | h)
  · exact .inl (h.mono hon.deeds)
  · rcases hon.keeps with hchecked | hkept
    · exact .inl (hchecked.mono hon.deeds)
    · exact .inr (hkept h)

theorem Retained.keeps : Keeps n (Retained n b root) b root := by
  intro ds w hds h
  rcases h.facts with hchecked | hkey
  · exact (hchecked.not_unchecked h.deeds hds).elim
  · exact hkey

/-! ## Runs -/

/-- The statement is a cleanup that deletes no session in use: those of the handler's thread. -/
def sparesSession (n : Nat) (b : List Deed) (root : EventId) (w : World) : Step → Prop
  | .effect _ (.sync (.execute (.deleteStaleSessions cutoff))) _ =>
    Checked n b w ∨ (w.db.sessions.find? root).any (Tables.stale cutoff) = false
  | _ => True

/-- The handler is left alone, and cleanups spare its session while it needs it. -/
def spared (n : Nat) (b : List Deed) (root : EventId) (w : World) (e : Step) : Prop :=
  (retaining n b root).Uncut e ∧ sparesSession n b root w e

/-- Sessions go away only in a cleanup that finds them stale. -/
theorem hasKey_kept {u : Tid} {a : Answer} {e : Eff} {r : e.Ret}
    (h : exec u a e w = some (r, w')) (hopen : e ≠ .sync .closeDb)
    (hspare : ∀ cutoff, e = .sync (.execute (.deleteStaleSessions cutoff)) →
      (w.db.sessions.find? root).any (Tables.stale cutoff) = false)
    (hkey : w.db.sessions.hasKey root = true) : w'.db.sessions.hasKey root = true := by
  -- Among the effects that write the keys, insertions only add one and cleanups spare this one.
  by_cases hwrites : e.writesKeys = true
  · cases e with
    | await e => cases hwrites
    | sync e =>
      cases e with
      | closeDb => exact absurd rfl hopen
      | execute s =>
        obtain ⟨⟨r', w''⟩, hquiet, heq⟩ := Option.map_eq_some_iff.mp h
        cases heq
        rcases execStmt_eq hquiet with ⟨_, -, -, rfl⟩ | ⟨v, db, -, rfl, hexec, -⟩
        · exact hkey
        change db.sessions.hasKey root = true
        cases s with
        | insertSession root' room agent session now =>
          rcases hres : w.db.insertSession root' room agent session now with x | db'
          · rw [Stmt.exec, hres] at hexec
            cases hexec
          · rw [Stmt.exec, hres] at hexec
            cases hexec
            rw [Tables.insertSession] at hres
            split at hres <;> cases hres
            rw [Table.hasKey, Table.find?_insertNew]
            split
            · rfl
            · exact hkey
        | deleteStaleSessions cutoff =>
          have hstale := hspare cutoff rfl
          rw [Stmt.exec, Tables.deleteStaleSessions] at hexec
          split at hexec <;> cases hexec
          obtain ⟨row, hrow⟩ := Option.isSome_iff_exists.mp hkey
          rw [hrow, Option.any_some] at hstale
          rw [Table.hasKey, Table.find?_deleteWhere, hrow, Option.filter, hstale]
          rfl
        | _ => cases hwrites
      | _ => cases hwrites
  · rw [hasKey_of_exec h (Bool.eq_false_iff.mpr hwrites)]
    exact hkey

theorem spared_hosts {config : MatrixDispatcher.Config} :
    (watch (retaining n b root)).Hosts (dispatcher config) (spared n b root) (.handler n) := by
  refine Surroundings.hosts (fun _ _ h => h.1) fun {w w' u e a r} hne hallow hexec => ?_
  have huncut := hallow.1
  rw [Surroundings.Uncut, if_neg hne] at huncut
  by_cases hchecked : Checked n b w
  · exact .inl hchecked
  · refine .inr (hasKey_kept hexec huncut.1 ?_)
    rintro cutoff rfl
    exact hallow.2.resolve_left hchecked

/-! ## The reply -/

/-- Handler `n` is about to look up the session of the thread that its message belongs to. -/
structure LooksUp (n : Nat) (args : HandlerArgs) (root : EventId)
    (c : Machine.Config Tid Eff Eff.Ret World) : Prop where
  task : c.tasks (.handler n) = some (begunFiber args)
  trusted : args.event.sender = args.trustedSender
  thread : extractThreadRoot args.event = .ok (some root)
  opened : c.world.dbOpen = true
  uncancelled : .handler n ∉ c.world.cancelled

/-- Since the deeds `b`, the handler has acknowledged the reply, resumed the session, posted all
that its child has to say and called `_record_pending_if_gated`. -/
def Answered (n : Nat) (args : HandlerArgs) (row : SessionRow) (b : List Deed) (w : World) : Prop :=
  ∃ result texts, Completed n (replyOf args args.event.body.strip row)
      (replyOf args args.event.body.strip row).argv result w ∧
    responseTexts args.mentionUser args.maxMessageLength row.sessionId (lit "resume") result.1
      result.2 = .ok texts ∧
    w.deeds (.handler n) = b ++ [.posted args.roomId (resumingText row.sessionId),
      .called (replyOf args args.event.body.strip row)] ++ texts.map (.posted args.roomId) ++
        [.checked args.roomId row.sessionId row.threadRootId]

theorem Answered.stable {args : HandlerArgs} {row : SessionRow} (S : Surroundings n) :
    (watch S).Stable (Answered n args row b) := by
  rintro w w' ⟨result, texts, hcompleted, htexts, hdeeds⟩ hrely
  exact ⟨result, texts, Completed.lasting hrely.toOnward hcompleted, htexts,
    hrely.same.trans hdeeds⟩

/-- The row that is found for an event is that of its thread root. -/
theorem find?_of_getSessionByEvent {db : Tables} {e : EventId} {row : SessionRow}
    (h : db.getSessionByEvent e = some row) :
    db.sessions.find? row.threadRootId = some row := by
  rw [Tables.getSessionByEvent.eq_def] at h
  split at h
  · next row' hrow' =>
    cases h
    rw [Table.find?_key hrow', hrow']
  · split at h
    · rw [Table.find?_key h, h]
    · cases h

theorem hasKey_of_getSessionByEvent {db : Tables} {e : EventId} {row : SessionRow}
    (h : db.getSessionByEvent e = some row) : db.sessions.hasKey row.threadRootId = true := by
  rw [Table.hasKey, find?_of_getSessionByEvent h]
  rfl

/-- The handler of a thread reply begins with the lookup. -/
theorem begunFiber_of_thread {args : HandlerArgs}
    (htrusted : args.event.sender = args.trustedSender)
    (hthread : extractThreadRoot args.event = .ok (some root)) :
    begunFiber args = goesOn (do
      match ← Store.getSessionByEvent root with
      | some row => handleReply args args.event.body.strip row
      | none => handleOrphan args root) :=
  congrArg goesOn (handleEvent_of_thread htrusted hthread)

/-- A reply whose session was found goes on as `handleReply`. -/
theorem replies_of_lookup {config : MatrixDispatcher.Config} {args : HandlerArgs}
    {row : SessionRow} {c₀ c₁ : Machine.Config Tid Eff Eff.Ret World}
    (hlooks : LooksUp n args root c₀)
    (hfound : c₀.world.db.getSessionByEvent root = some row)
    (hlookup : (dispatcher config).step c₀ (.task (.handler n) .done) = some c₁) :
    c₁.tasks (.handler n) = some (goesOn (handleReply args args.event.body.strip row)) ∧
      c₁.world = c₀.world := by
  have htask := hlooks.task
  rw [begunFiber_of_thread hlooks.trusted hlooks.thread] at htask
  obtain ⟨-, r, w, hexec, rfl⟩ := Machine.of_step_op htask hlookup
  -- the lookup answers with the row
  obtain ⟨rfl, rfl⟩ : r = .ok (some row) ∧ w = c₀.world := by
    obtain ⟨⟨r', w'⟩, hquiet, heq⟩ := Option.map_eq_some_iff.mp hexec
    cases heq
    change c₀.world.execStmt .done (.getSessionByEvent root) = _ at hquiet
    simp only [World.execStmt, if_pos hlooks.opened, Stmt.exec, hfound] at hquiet
    cases hquiet
    exact ⟨rfl, rfl⟩
  exact ⟨Function.update_self .., rfl⟩

/-- What becomes of a reply whose session was found. -/
theorem reply_handled {config : MatrixDispatcher.Config} {args : HandlerArgs}
    {row : SessionRow} {c₀ c₁ c : Machine.Config Tid Eff Eff.Ret World}
    (hlooks : LooksUp n args root c₀) (hmax : 0 < args.maxMessageLength)
    (hfound : c₀.world.db.getSessionByEvent root = some row)
    (hlookup : (dispatcher config).step c₀ (.task (.handler n) .done) = some c₁)
    (hrun : (dispatcher config).Reachable
      (spared n (c₀.world.deeds (.handler n)) row.threadRootId) c₁ c) :
    Handled config (retaining n (c₀.world.deeds (.handler n)) row.threadRootId)
      (Answered n args row (c₀.world.deeds (.handler n))) c := by
  -- The lookup finds the row, so the handler goes on with the reply.
  obtain ⟨hreply, hworld⟩ := replies_of_lookup hlooks hfound hlookup
  have hfacts : Stands n (Retained n (c₀.world.deeds (.handler n)) row.threadRootId)
      (c₀.world.deeds (.handler n)) c₁.world := by
    rw [hworld]
    exact ⟨hlooks.opened, hlooks.uncancelled, rfl, .inr (hasKey_of_getSessionByEvent hfound)⟩
  -- Its program keeps to the arena, in which it is answered.
  refine handled_of_triple spared_hosts hfacts hreply (Answered.stable _) ?_ hrun
  refine (Triple.handleReply Retained.lasting Retained.keeps).mono ?_
  rintro res w ⟨tail, hstands⟩
  refine ⟨_, _, Retained.lasting.and Aftermath.lasting, hstands, fun w' h => ?_⟩
  have hafter := h.facts.2
  have hdeeds := h.deeds
  -- Neither timeouts nor exceptions are possible where the child runs to its end.
  cases hafter with
  | answered result texts hcompleted htexts =>
    refine ⟨result, texts, hcompleted, htexts, ?_⟩
    rw [hdeeds]
    simp [replyOf, resumeOf]
  | timedOut hcalm => exact absurd trivial hcalm
  | raised x hcalm => exact absurd hmax (hcalm trivial)

/-- Cleanups that spare the session of a reply leave the reply alone. -/
theorem reply_outlives_cleanup {config : MatrixDispatcher.Config} {args : HandlerArgs}
    {row : SessionRow} {c₀ c₁ c : Machine.Config Tid Eff Eff.Ret World}
    (hlooks : LooksUp n args root c₀) (hmax : 0 < args.maxMessageLength)
    (hfound : c₀.world.db.getSessionByEvent root = some row)
    (hlookup : (dispatcher config).step c₀ (.task (.handler n) .done) = some c₁)
    (hrun : (dispatcher config).Reachable
      (spared n (c₀.world.deeds (.handler n)) row.threadRootId) c₁ c) :
    Handled config (retaining n (c₀.world.deeds (.handler n)) row.threadRootId)
      (Answered n args row (c₀.world.deeds (.handler n))) c :=
  reply_handled hlooks hmax hfound hlookup hrun

/-- `sparesSession`, evaluated on runs in which no cleanup finds the session stale. -/
def sparesAlways (root : EventId) (w : World) : Step → Bool
  | .effect _ (.sync (.execute (.deleteStaleSessions cutoff))) _ =>
    !(w.db.sessions.find? root).any (Tables.stale cutoff)
  | _ => true

/-- `spared`, evaluated on such runs. -/
def isSpared (n : Nat) (root : EventId) (w : World) (e : Step) : Bool :=
  isUncut n e && sparesAlways root w e

theorem spared_of_check (w : World) (e : Step) (h : isSpared n root w e = true) :
    spared n b root w e := by
  obtain ⟨huncut, hspares⟩ := Bool.and_eq_true_iff.mp h
  refine ⟨uncut_of_check huncut, ?_⟩
  rw [sparesSession.eq_def]
  split
  · exact .inr (by simpa [sparesAlways] using hspares)
  · trivial

/-- Two sessions, of which `$0` has not been used since time 0, and a cleanup that is about to
begin. -/
def cleaningUp : World where
  __ := oneSession
  inbox := [(.cleanup, .cleanup)]
  db :=
    { oneSession.db with
      sessions := oneSession.db.sessions.insertNew
        ⟨lit "$0", lit "!room", lit "agent", lit "01d5", 0, 0⟩ rfl }

/-- The reply to the other session. -/
def spareReply : HandlerArgs := messageArgs (lit "$2") (lit "go on") (replyTo (lit "$1"))

/-- A statement of the cleanup deletes stale sessions. -/
def isCleanup : Eff → Bool
  | .sync (.execute (.deleteStaleSessions _)) => true
  | _ => false

/-- A cleanup in the course of a reply deletes the old session, and spares that of the reply, which
is answered. -/
theorem reply_outlives_cleanup_alone : ∃ row c₁ c₂ c₃ c e,
    (dispatcher oneAgent).step (alone cleaningUp spareReply) (.task (.handler 0) .done) = some c₁ ∧
    (dispatcher oneAgent).Reachable (spared 0 [] (lit "$1")) c₁ c₂ ∧
    c₂.About .cleanup e ∧ isCleanup e = true ∧
    (dispatcher oneAgent).Reachable (spared 0 [] (lit "$1")) c₂ c₃ ∧
    c₂.world.db.sessions.hasKey (lit "$0") = true ∧
    c₃.world.db.sessions.hasKey (lit "$0") = false ∧
    (dispatcher oneAgent).Reachable (spared 0 [] (lit "$1")) c₃ c ∧ Ended c (.handler 0) ∧
    Answered 0 spareReply row [] c.world := by
  have hlooks : LooksUp 0 spareReply (lit "$1") (alone cleaningUp spareReply) :=
    ⟨alone_task _ _, rfl, rfl, rfl, List.not_mem_nil⟩
  have hplay : (((dispatcher oneAgent).step (alone cleaningUp spareReply)
      (.task (.handler 0) .done)).any fun c₁ =>
        ((dispatcher oneAgent).play usualAnswer (fun w e => isSpared 0 (lit "$1") w e = true) c₁
          [.step (.start (.pick 0)), .go .cleanup 1,
            Cue.task .cleanup (.clock (secondsToTime 2592050)), .go .cleanup 1]).any fun c₂ =>
              meets c₂ .cleanup isCleanup && c₂.world.db.sessions.hasKey (lit "$0") &&
        ((dispatcher oneAgent).play usualAnswer (fun w e => isSpared 0 (lit "$1") w e = true) c₂
          [.go .cleanup 3]).any fun c₃ => !c₃.world.db.sessions.hasKey (lit "$0") &&
        ((dispatcher oneAgent).play usualAnswer (fun w e => isSpared 0 (lit "$1") w e = true) c₃
          [.go (.handler 0) 11, Cue.move (.exit 0 0 (lit "ok") []), .go (.handler 0) 15]).any
          (isEnded · (.handler 0))) = true := by decide +kernel
  -- The check is enough for the condition of the theorem.
  have hcheck : ∀ w e, isSpared 0 (lit "$1") w e = true → spared 0 [] (lit "$1") w e :=
    spared_of_check
  obtain ⟨c₁, hstep, hplay⟩ := (Option.any_eq_true ..).mp hplay
  obtain ⟨c₂, hbefore, hplay⟩ := Machine.exists_reachable hcheck hplay
  obtain ⟨hcleanup, hplay⟩ := Bool.and_eq_true_iff.mp hplay
  obtain ⟨hmeets, hold⟩ := Bool.and_eq_true_iff.mp hcleanup
  -- The statement of the cleanup that deletes sessions.
  obtain ⟨c₃, hduring, hplay⟩ := Machine.exists_reachable hcheck hplay
  obtain ⟨hgone, hplay⟩ := Bool.and_eq_true_iff.mp hplay
  obtain ⟨c, hafter, hgoal⟩ := Machine.exists_reachable hcheck hplay
  obtain ⟨e, habout, he⟩ := about_of_meets hmeets
  have hended := ended_of_check hgoal
  have hrun := (hbefore.trans hduring).trans hafter
  exact ⟨_, c₁, c₂, c₃, c, e, hstep, hbefore, habout, he, hduring, hold, by simpa using hgone,
    hafter, hended, (reply_outlives_cleanup hlooks (by decide) rfl hstep hrun).done hended⟩

/-! ## Runs with a reply -/

/-- The first message has its session and its answer; a reply to it is about to look it up. -/
def answering : List Cue :=
  spawning ++ [.move (.exit 0 0 (lit "ok") []), .go (.handler 0) 16] ++
    batch (lit "t2") (lit "!room") [messageOf (lit "$2") (lit "go on") (replyTo (lit "$1"))] ++
    handling 1 2 1

/-- The next statement fails. -/
def isUnsound (w : World) : Eff → Bool
  | .sync (.execute s) =>
    match s.exec w.db with
    | .ok _ => false
    | .error _ => true
  | _ => false

theorem not_sound_of_check {e : Eff} (h : isUnsound w e = true) : ¬ e.Sound w := by
  rw [isUnsound.eq_def] at h
  split at h
  · split at h
    · cases h
    · next heq =>
      rintro ⟨v, db, hok⟩
      cases heq.symm.trans hok
  · cases h

/-- A cleanup in the course of a reply deletes its session, 34 days old, and the reply is lost. -/
theorem reply_lost_to_cleanup : ∃ c₀ c₁ c row, Reaches oneAgent (fun _ _ => True) c₀ ∧
    c₀.About (.handler 1) (.sync (.execute (.getSessionByEvent (lit "$1")))) ∧
    c₀.world.db.getSessionByEvent (lit "$1") = some row ∧
    (dispatcher oneAgent).step c₀ (.task (.handler 1) .done) = some c₁ ∧
    (dispatcher oneAgent).Reachable (fun _ e => (retaining 1 [] row.threadRootId).Uncut e) c₁ c ∧
    ∃ e, c.About (.handler 1) e ∧ ¬ e.Sound c.world := by
  obtain ⟨c₀, h₀, hgoal⟩ := reaches_of_play oneAgent answering
    (fun c₀ => meets c₀ (.handler 1) (isLookup (lit "$1")) &&
      (c₀.world.db.getSessionByEvent (lit "$1")).isSome &&
      ((dispatcher oneAgent).step c₀ (.task (.handler 1) .done)).any fun c₁ =>
        ((dispatcher oneAgent).play usualAnswer (fun _ e => isUncut 1 e = true) c₁
          [.step (.start (.pick 0)), .go .cleanup 1,
            Cue.task .cleanup (.clock (secondsToTime 3000000)), .go .cleanup 4,
            .go (.handler 1) 2]).any
          fun c => meets c (.handler 1) (isUnsound c.world))
    (fun _ _ (_ : true = true) => trivial) (by decide +kernel)
  obtain ⟨hgoal, hrest⟩ := Bool.and_eq_true_iff.mp hgoal
  obtain ⟨hmeets, hfound⟩ := Bool.and_eq_true_iff.mp hgoal
  obtain ⟨row, hrow⟩ := Option.isSome_iff_exists.mp hfound
  obtain ⟨c₁, hstep, hplay⟩ := (Option.any_eq_true ..).mp hrest
  obtain ⟨c, hreach, hgoal⟩ := Machine.exists_reachable
    (fun _ e h => uncut_of_check (S := retaining 1 [] row.threadRootId) h) hplay
  obtain ⟨e₀, habout₀, he₀⟩ := about_of_meets hmeets
  -- The handler is about to insert the alias of a session that is gone.
  obtain ⟨e, habout, he⟩ := about_of_meets hgoal
  obtain rfl := eq_of_isLookup he₀
  exact ⟨c₀, c₁, c, row, h₀, habout₀, hrow, hstep, hreach, e, habout, not_sound_of_check he⟩

end MatrixDispatcher
