import MatrixDispatcher.Db
import MatrixDispatcher.Data.Directory
import Mathlib.Data.List.Induction

/-!
# From event ids to sessions

`sessions` and `event_aliases` together are a map from event ids to sessions: thread roots are
the primary names of a `Directory` of sessions, aliases the names they adopt. This file compares
the statements of `db.py` with the operations of that directory.

* `Op`, `Op.apply`, `executeAll` — the writes of `db.py`, and histories of them.
* `Refines` — the two tables hold what the directory says; `Op.refines` is its step lemma.
* `sessionStore_refines` — what `get_session_by_event` answers after any history.
-/

namespace MatrixDispatcher

/-- The writing functions of `db.py`, with the clock reading that each of them takes. -/
inductive Op where
  | insertSession (threadRootId : EventId) (roomId : RoomId) (agent : AgentName)
      (sessionId : SessionId) (now : Int)
  | registerAlias (eventId threadRootId : EventId)
  | touchSession (threadRootId : EventId) (now : Int)
  | runCleanup (retentionDays : Int) (now : Int)
  | insertPendingApproval (row : PendingRow)
  | deletePendingApproval (approvalId : ApprovalId)
  | setSince (since : Token) (now : Int)

namespace Op

/-- Whether the function raises, and the tables after it. -/
def apply (db : Tables) : Op → Except IntegrityError Unit × Tables
  | insertSession root room agent session now =>
    match db.insertSession root room agent session now with
    | .ok db' => (.ok (), db')
    | .error x => (.error x, db)
  | registerAlias e root =>
    match db.registerAlias e root with
    | .ok db' => (.ok (), db')
    | .error x => (.error x, db)
  | touchSession root now => (.ok (), db.touchSession root now)
  | runCleanup days now =>
    match db.runCleanup days now with
    | (.ok _, db') => (.ok (), db')
    | (.error x, db') => (.error x, db')
  | insertPendingApproval row => (.ok (), db.insertPendingApproval row)
  | deletePendingApproval a => (.ok (), db.deletePendingApproval a)
  | setSince since now => (.ok (), db.setSince since now)

/-- The event id that the operation registers, as a thread root or as an alias. -/
def registers : Op → Option EventId
  | insertSession root _ _ _ _ => some root
  | registerAlias e _ => some e
  | _ => none

end Op

/-- The database after a history of operations on an empty one. -/
def executeAll (ops : List Op) : Tables := ops.foldl (fun db op => (op.apply db).2) .empty

theorem executeAll_concat (ops : List Op) (op : Op) :
    executeAll (ops ++ [op]) = (op.apply (executeAll ops)).2 := by
  simp [executeAll]

/-- The thread root that `eventId` is an alias of. -/
def Tables.aliasOf (db : Tables) (eventId : EventId) : Option EventId :=
  (db.eventAliases.find? eventId).map (·.threadRootId)

theorem Tables.getSessionByEvent_eq (db : Tables) (e : EventId) :
    db.getSessionByEvent e =
      match db.getSession e with
      | some row => some row
      | none => (db.aliasOf e).bind db.getSession := by
  rw [Tables.getSessionByEvent, Tables.aliasOf]
  cases db.eventAliases.find? e <;> rfl

theorem Tables.mem_eventAliases {db : Tables} {row : AliasRow} (h : row ∈ db.eventAliases) :
    db.aliasOf row.eventId = some row.threadRootId := by
  rw [Tables.aliasOf, Table.find?_eq_some.mpr ⟨h, rfl⟩]
  rfl

/-! ## The directory of sessions -/

/-- A directory of sessions under the names of their events. -/
abbrev EventMap := Directory EventId SessionRow

namespace EventMap

/-- What the operation does to the directory, or that it raises. -/
def apply (d : EventMap) : Op → Except IntegrityError EventMap
  | .insertSession root room agent session now =>
    if (d.primary root).isSome then .error .unique
    else .ok (d.add root ⟨root, room, agent, session, now, now⟩)
  | .registerAlias e root =>
    if e = [] ∨ (d.owner e).isSome then .ok d
    else if h : (d.primary root).isSome then .ok (d.adopt e root h)
    else .error .foreignKey
  | .touchSession root now =>
    .ok (d.modify fun r row => if r = root then { row with lastUsedAt := now } else row)
  | .runCleanup days now => .ok (d.retain fun row => !Tables.stale (now - days * 86400) row)
  | _ => .ok d

/-- The directory after a history; an operation that raises leaves it alone. -/
def executeAll (ops : List Op) : EventMap :=
  ops.foldl (fun d op => (apply d op).toOption.getD d) .empty

end EventMap

/-- The tables hold the sessions and aliases of the directory. -/
structure Refines (db : Tables) (d : EventMap) : Prop where
  sessions : ∀ r, db.sessions.find? r = d.primary r
  aliases : ∀ e, db.aliasOf e = d.owner e

namespace Refines

variable {db : Tables} {d : EventMap}

theorem empty : Refines .empty .empty := ⟨fun _ => rfl, fun _ => rfl⟩

theorem lookup (h : Refines db d) (e : EventId) : db.getSessionByEvent e = d.lookup e := by
  have hsession : db.getSession = d.primary := funext h.sessions
  rw [Tables.getSessionByEvent_eq, Directory.lookup, hsession, h.aliases]
  cases d.primary e <;> rfl

theorem hasKey (h : Refines db d) (r : EventId) :
    db.sessions.hasKey r = (d.primary r).isSome := by
  rw [Table.hasKey, h.sessions]

/-- Every alias points to a session. -/
theorem alias_live (h : Refines db d) {row : AliasRow} (hrow : row ∈ db.eventAliases) :
    db.sessions.hasKey row.threadRootId = true := by
  rw [h.hasKey]
  exact d.owner_live row.eventId _ ((h.aliases _).symm.trans (Tables.mem_eventAliases hrow))

/-- A session keeps its thread root as its name. -/
theorem threadRootId (h : Refines db d) {r : EventId} {row : SessionRow}
    (hrow : d.primary r = some row) : row.threadRootId = r :=
  Table.find?_key ((h.sessions r).trans hrow)

/-! ### One operation -/

theorem insertSession (h : Refines db d) {root : EventId} {row : SessionRow}
    (hroot : row.threadRootId = root) (hnew : db.sessions.hasKey row.threadRootId = false) :
    Refines { db with sessions := db.sessions.insertNew row hnew } (d.add root row) where
  sessions r := by
    rw [Table.find?_insertNew, Directory.add, hroot, h.sessions]
    by_cases hr : root = r
    · simp [hr]
    · simp [hr, Function.update_of_ne (Ne.symm hr)]
  aliases := h.aliases

theorem registerAlias (h : Refines db d) {e root : EventId}
    (hnew : db.eventAliases.hasKey e = false) (hlive : (d.primary root).isSome = true) :
    Refines { db with eventAliases := db.eventAliases.insertNew ⟨e, root⟩ hnew }
      (d.adopt e root hlive) where
  sessions := h.sessions
  aliases e' := by
    have hnone : d.owner e = none := by
      rw [← h.aliases, Tables.aliasOf]
      simpa [Table.hasKey] using hnew
    rw [Tables.aliasOf, Table.find?_insertNew, Directory.owner_adopt, if_pos hnone]
    by_cases he : e = e'
    · simp [he]
    · rw [if_neg he, Function.update_of_ne (Ne.symm he)]
      exact h.aliases e'

theorem touchSession (h : Refines db d) (root : EventId) (now : Int) :
    Refines (db.touchSession root now)
      (d.modify fun r row => if r = root then { row with lastUsedAt := now } else row) where
  sessions r := by
    rw [Tables.touchSession, Table.find?_update, Directory.modify, h.sessions]
    refine Option.map_congr fun row hrow => ?_
    have hkey : row.threadRootId = r := h.threadRootId hrow
    simp [hkey]
  aliases := h.aliases

/-- The cleanup drops the stale sessions with all their event ids. -/
theorem runCleanup (h : Refines db d) (days now : Int) :
    Refines (db.runCleanup days now).2
      (d.retain fun row => !Tables.stale (now - days * 86400) row) := by
  have hsessions : ∀ r, (db.runCleanup days now).2.sessions.find? r =
      (d.retain fun row => !Tables.stale (now - days * 86400) row).primary r := fun r => by
    rw [Tables.runCleanup_sessions, Table.find?_deleteWhere, h.sessions, Directory.primary_retain]
  refine ⟨hsessions, fun e => ?_⟩
  rw [Tables.aliasOf, Tables.find?_runCleanup_eventAliases, Directory.owner_retain, ← h.aliases,
    Tables.aliasOf]
  rcases db.eventAliases.find? e with _ | row
  · rfl
  · simp only [Option.filter, Table.hasKey, hsessions, Option.map_some]
    split <;> simp_all

end Refines

/-- Every operation does to the tables what it does to the directory. -/
theorem Op.refines {db : Tables} {d : EventMap} (h : Refines db d) (op : Op) :
    match EventMap.apply d op with
    | .ok d' => (op.apply db).1 = .ok () ∧ Refines (op.apply db).2 d'
    | .error x => op.apply db = (.error x, db) := by
  cases op with
  -- Both raise if the thread root is taken.
  | insertSession root room agent session now =>
    have hkey := h.hasKey root
    rw [EventMap.apply, Op.apply, Tables.insertSession]
    by_cases hnew : db.sessions.hasKey root = false
    · rw [if_neg (by simp [← hkey, hnew]), dif_pos hnew]
      exact ⟨rfl, h.insertSession rfl hnew⟩
    · rw [if_pos (by simpa [← hkey] using hnew), dif_neg hnew]
  -- `INSERT OR IGNORE` checks the foreign key only where it inserts.
  | registerAlias e root =>
    rw [EventMap.apply, Op.apply, Tables.registerAlias]
    have hknown : db.eventAliases.hasKey e = (d.owner e).isSome := by
      rw [← h.aliases, Tables.aliasOf, Option.isSome_map]
      rfl
    by_cases hempty : e = []
    · rw [if_pos (.inl hempty), if_pos hempty]
      exact ⟨rfl, h⟩
    rw [if_neg hempty]
    by_cases hnew : db.eventAliases.hasKey e = false
    · rw [if_neg (by simp [hempty, ← hknown, hnew]), dif_pos hnew]
      by_cases hlive : (d.primary root).isSome = true
      · rw [dif_pos hlive, if_pos (h.hasKey root ▸ hlive)]
        exact ⟨rfl, h.registerAlias hnew hlive⟩
      · rw [dif_neg hlive, if_neg (by rwa [h.hasKey])]
    · rw [if_pos (.inr (by simpa [← hknown] using hnew)), dif_neg hnew]
      exact ⟨rfl, h⟩
  | touchSession root now => exact ⟨rfl, h.touchSession root now⟩
  -- The cleanup does not fail, and drops the same sessions and aliases.
  | runCleanup days now =>
    obtain ⟨n, hok⟩ := db.runCleanup_ok days now
    have href := h.runCleanup days now
    simp only [EventMap.apply, Op.apply]
    rcases hrun : db.runCleanup days now with ⟨res, db'⟩
    obtain rfl : res = .ok n := by simpa [hrun] using hok
    exact ⟨rfl, by simpa [hrun] using href⟩
  | insertPendingApproval row => exact ⟨rfl, h.sessions, h.aliases⟩
  | deletePendingApproval a => exact ⟨rfl, h.sessions, h.aliases⟩
  | setSince since now => exact ⟨rfl, h.sessions, h.aliases⟩

/-! ## Histories -/

/-- After every history the tables hold what the directory says. -/
theorem refines_executeAll (ops : List Op) :
    Refines (executeAll ops) (EventMap.executeAll ops) := by
  induction ops using List.reverseRecOn with
  | nil => exact .empty
  | append_singleton ops op ih =>
    have hstep := op.refines ih
    rw [executeAll_concat, EventMap.executeAll, List.foldl_concat, ← EventMap.executeAll]
    rcases hop : EventMap.apply (EventMap.executeAll ops) op with x | d'
    · rw [hop] at hstep
      rw [hstep]
      exact ih
    · rw [hop] at hstep
      exact hstep.2

/-- An id gets an owner only by a registration that succeeds, and keeps the owner it has. -/
theorem EventMap.owner_apply {d d' : EventMap} {op : Op} (hop : EventMap.apply d op = .ok d')
    {e r : EventId} (howner : d'.owner e = some r) :
    d.owner e = some r ∨ (d.owner e = none ∧ op = .registerAlias e r ∧ e ≠ []) := by
  cases op with
  | insertSession root room agent session now =>
    rw [EventMap.apply] at hop
    split at hop
    · cases hop
    · cases hop
      exact .inl howner
  -- The only operation that gives an owner, to an id that has none.
  | registerAlias e' root =>
    rw [EventMap.apply] at hop
    split at hop
    · cases hop
      exact .inl howner
    next hfresh =>
    obtain ⟨hempty, hnone⟩ := not_or.mp hfresh
    split at hop
    · cases hop
      rw [Directory.owner_adopt, if_pos (by simpa using hnone)] at howner
      by_cases he : e = e'
      · subst he
        obtain rfl : root = r := by simpa using howner
        exact .inr ⟨by simpa using hnone, rfl, hempty⟩
      · exact .inl (by simpa [he] using howner)
    · cases hop
  -- A cleanup only takes owners away.
  | runCleanup days now =>
    cases hop
    exact .inl (Option.filter_eq_some_iff.mp howner).1
  | touchSession | insertPendingApproval | deletePendingApproval | setSince =>
    cases hop
    exact .inl howner

/-- `root` is the thread root that `e` was first registered to, successfully, since it last had
no alias. -/
def FirstRegistered (ops : List Op) (e root : EventId) : Prop :=
  ∃ before after, ops = before ++ .registerAlias e root :: after ∧
    (executeAll before).aliasOf e = none ∧ e ≠ [] ∧
    ((Op.registerAlias e root).apply (executeAll before)).1 = .ok () ∧
    ∀ mid, mid <+: after → (executeAll (before ++ .registerAlias e root :: mid)).aliasOf e ≠ none

/-- The last step of a history makes `e` an alias of `root`, or found it to be one. -/
theorem aliasOf_concat {ops : List Op} {op : Op} {e root : EventId}
    (h : (executeAll (ops ++ [op])).aliasOf e = some root) :
    (executeAll ops).aliasOf e = some root ∨
      ((executeAll ops).aliasOf e = none ∧ op = .registerAlias e root ∧ e ≠ [] ∧
        (op.apply (executeAll ops)).1 = .ok ()) := by
  have href := refines_executeAll ops
  have hstep := op.refines href
  rw [executeAll_concat] at h
  rcases hop : EventMap.apply (EventMap.executeAll ops) op with x | d'
  · rw [hop] at hstep
    rw [hstep] at h
    exact .inl h
  · rw [hop] at hstep
    rw [hstep.2.aliases] at h
    rcases EventMap.owner_apply hop h with hold | ⟨hnone, hreg, hempty⟩
    · exact .inl ((href.aliases e).trans hold)
    · exact .inr ⟨(href.aliases e).trans hnone, hreg, hempty, hstep.1⟩

theorem FirstRegistered.concat {ops : List Op} {e root : EventId} (h : FirstRegistered ops e root)
    {op : Op} (hop : (executeAll (ops ++ [op])).aliasOf e ≠ none) :
    FirstRegistered (ops ++ [op]) e root := by
  obtain ⟨before, after, rfl, hnone, hempty, hok, hkeep⟩ := h
  refine ⟨before, after ++ [op], by simp, hnone, hempty, hok, fun mid hmid => ?_⟩
  rcases List.prefix_concat_iff.mp hmid with rfl | hmid
  · simpa using hop
  · exact hkeep mid hmid

/-- The alias of an id is the first root it was registered to since it last had none. -/
theorem aliasOf_iff_firstRegistered (ops : List Op) (e root : EventId) :
    (executeAll ops).aliasOf e = some root ↔ FirstRegistered ops e root := by
  constructor
  -- By induction on the history, from its end: the last operation registered `e`, or left it alone.
  · intro h
    induction ops using List.reverseRecOn with
    | nil => cases h
    | append_singleton ops op ih =>
      rcases aliasOf_concat h with hold | ⟨hnone, rfl, hempty, hok⟩
      · exact (ih hold).concat (by simp [h])
      · refine ⟨ops, [], rfl, hnone, hempty, hok, fun mid hmid => ?_⟩
        obtain rfl := List.prefix_nil.mp hmid
        simp [h]
  -- By induction on what came after the registration.
  · rintro ⟨before, after, rfl, hnone, hempty, hok, hkeep⟩
    induction after using List.reverseRecOn with
    | nil =>
      obtain ⟨root', hroot'⟩ := Option.ne_none_iff_exists'.mp (hkeep [] List.prefix_rfl)
      rcases aliasOf_concat hroot' with hold | ⟨-, hreg, -⟩
      · rw [hnone] at hold
        cases hold
      · obtain rfl : root = root' := by simpa using hreg
        exact hroot'
    | append_singleton after op ih =>
      have hold := ih fun mid hmid => hkeep mid (hmid.trans (List.prefix_append _ _))
      obtain ⟨root', hroot'⟩ := Option.ne_none_iff_exists'.mp (hkeep _ List.prefix_rfl)
      rw [← List.cons_append, ← List.append_assoc] at hroot' ⊢
      rcases aliasOf_concat hroot' with hsame | ⟨hnone', -⟩
      · rw [hold] at hsame
        rw [hroot', ← hsame]
      · rw [hold] at hnone'
        cases hnone'

/-! ## Deleted sessions -/

/-- Event id `e` is a name of the session with thread root `root`. -/
def Tables.Names (db : Tables) (e root : EventId) : Prop :=
  (e = root ∧ db.sessions.hasKey root = true) ∨ db.aliasOf e = some root

instance (db : Tables) (e root : EventId) : Decidable (db.Names e root) :=
  inferInstanceAs (Decidable (_ ∨ _))

/-- Operations lead from one database to another, none of which registers `e` successfully. -/
inductive Unregistered (e : EventId) (db : Tables) : Tables → Prop
  | refl : Unregistered e db db
  | step {db' : Tables} (op : Op) (h : Unregistered e db db')
      (hop : op.registers = some e → ∃ x, (op.apply db').1 = .error x) :
      Unregistered e db (op.apply db').2

/-- An operation that does not register `e` leaves it with what it has forgotten. -/
theorem EventMap.forgotten_apply {d₀ d d' : EventMap} {e r : EventId}
    (h : Directory.Forgotten d₀ e r d) {op : Op} (hreg : op.registers ≠ some e)
    (hop : EventMap.apply d op = .ok d') : Directory.Forgotten d₀ e r d' := by
  cases op with
  | insertSession root room agent session now =>
    rw [EventMap.apply] at hop
    split at hop
    · cases hop
    · cases hop
      exact h.add (by simpa [Op.registers] using hreg) _
  | registerAlias e' root =>
    rw [EventMap.apply] at hop
    split at hop
    · cases hop
      exact h
    · split at hop
      · cases hop
        exact h.adopt (by simpa [Op.registers] using hreg) _
      · cases hop
  | touchSession root now =>
    cases hop
    exact h.modify _
  | runCleanup days now =>
    cases hop
    exact h.retain _
  | insertPendingApproval | deletePendingApproval | setSince =>
    cases hop
    exact h

/-- An operation that removes a session makes every event id forget it. -/
theorem EventMap.forgotten_of_removes {d d' : EventMap} {op : Op} {r : EventId}
    (hop : EventMap.apply d op = .ok d') (hlive : (d.primary r).isSome = true)
    (hgone : d'.primary r = none) (e : EventId) : Directory.Forgotten d e r d' := by
  cases op with
  -- Only a cleanup removes sessions; the other operations are ruled out by `hgone`.
  | runCleanup days now =>
    cases hop
    exact .of_retain hgone e
  | insertSession root room agent session now =>
    rw [EventMap.apply] at hop
    split at hop
    · cases hop
    · cases hop
      rw [Directory.primary_add, Function.update_apply] at hgone
      split at hgone
      · cases hgone
      · simp [hgone] at hlive
  | registerAlias e' root =>
    rw [EventMap.apply] at hop
    split at hop
    · cases hop
      simp [hgone] at hlive
    · split at hop
      · cases hop
        rw [Directory.primary_adopt] at hgone
        simp [hgone] at hlive
      · cases hop
  | touchSession root now =>
    cases hop
    simp [Option.map_eq_none_iff.mp hgone] at hlive
  | insertPendingApproval | deletePendingApproval | setSince =>
    cases hop
    simp [hgone] at hlive

theorem Refines.names {db : Tables} {d : EventMap} (h : Refines db d) (e r : EventId) :
    db.Names e r ↔ d.Names e r := by
  rw [Tables.Names, Directory.Names, h.hasKey, h.aliases]

/-- The directory that forgot a session goes on forgetting while its id is not registered. -/
theorem Unregistered.forgotten {d₀ : EventMap} {db db' : Tables} {e r : EventId}
    (h : Unregistered e db db') (hdb : ∃ d, Refines db d ∧ Directory.Forgotten d₀ e r d) :
    ∃ d', Refines db' d' ∧ Directory.Forgotten d₀ e r d' := by
  induction h with
  | refl => exact hdb
  | step op _ hop ih =>
    obtain ⟨d, href, hforgot⟩ := ih
    have hstep := op.refines href
    rcases hd : EventMap.apply d op with x | d'
    · rw [hd] at hstep
      rw [hstep]
      exact ⟨d, href, hforgot⟩
    · rw [hd] at hstep
      refine ⟨d', hstep.2, EventMap.forgotten_apply hforgot (fun hreg => ?_) hd⟩
      obtain ⟨x, hx⟩ := hop hreg
      rw [hstep.1] at hx
      cases hx

/-- After a session is deleted, its event ids lead at most to other sessions that they named as
well, until they are registered again. -/
theorem names_of_deleted {db db' : Tables} {d : EventMap} (href : Refines db d) {op : Op}
    {e r : EventId} (hlive : db.getSession r ≠ none) (hgone : (op.apply db).2.getSession r = none)
    (hquiet : Unregistered e (op.apply db).2 db') {row : SessionRow}
    (hrow : db'.getSessionByEvent e = some row) :
    db.Names e row.threadRootId ∧ row.threadRootId ≠ r := by
  have hstep := op.refines href
  rcases hop : EventMap.apply d op with x | d'
  · rw [hop] at hstep
    rw [hstep] at hgone
    exact absurd hgone hlive
  · rw [hop] at hstep
    -- The directory has the session before the operation, and not after it.
    have hlive' : (d.primary r).isSome = true := by
      rw [← href.sessions]
      exact Option.isSome_iff_ne_none.mpr hlive
    have hgone' : d'.primary r = none := (hstep.2.sessions r).symm.trans hgone
    obtain ⟨d'', href'', hforgot⟩ :=
      hquiet.forgotten ⟨d', hstep.2, EventMap.forgotten_of_removes hop hlive' hgone' e⟩
    obtain ⟨r', hprimary, hnames, hne⟩ :=
      hforgot.names_of_lookup ((href''.lookup e).symm.trans hrow)
    rw [href''.threadRootId hprimary]
    exact ⟨(href.names e r').mpr hnames, hne⟩

/-- The event-to-session store after any history of operations: aliases point to sessions, a
lookup finds the session of a thread root or else that of the first root the id was registered
to, an operation that raises changes nothing, and the ids of a deleted session lead nowhere
until they are registered again, unless they named another session too. -/
theorem sessionStore_refines (ops : List Op) :
    (∀ row ∈ (executeAll ops).eventAliases,
      (executeAll ops).sessions.hasKey row.threadRootId = true) ∧
    (∀ e, (executeAll ops).getSessionByEvent e = (EventMap.executeAll ops).lookup e) ∧
    (∀ e row, (executeAll ops).getSession e = some row →
      (executeAll ops).getSessionByEvent e = some row) ∧
    (∀ e root, (executeAll ops).getSession e = none → FirstRegistered ops e root →
      ∃ row, (executeAll ops).getSession root = some row ∧
        (executeAll ops).getSessionByEvent e = some row) ∧
    (∀ e, (executeAll ops).getSession e = none → (∀ root, ¬ FirstRegistered ops e root) →
      (executeAll ops).getSessionByEvent e = none) ∧
    (∀ (op : Op) x, (op.apply (executeAll ops)).1 = .error x →
      (op.apply (executeAll ops)).2 = executeAll ops) ∧
    (∀ (op : Op) e root, (executeAll ops).Names e root → (executeAll ops).getSession root ≠ none →
      (op.apply (executeAll ops)).2.getSession root = none →
      ∀ db', Unregistered e (op.apply (executeAll ops)).2 db' →
      ∀ row, db'.getSessionByEvent e = some row →
        (executeAll ops).Names e row.threadRootId ∧ row.threadRootId ≠ root) := by
  -- Everything is read off the directory that the tables refine.
  have href := refines_executeAll ops
  refine ⟨fun row hrow => href.alias_live hrow, href.lookup, fun e row hrow => ?_,
    fun e root hnone hfirst => ?_, fun e hnone hfirst => ?_, fun op x hx => ?_,
    fun op e root _ hlive hgone db' hquiet row hrow =>
      names_of_deleted href hlive hgone hquiet hrow⟩
  · rw [Tables.getSessionByEvent_eq, hrow]
  · have halias := (aliasOf_iff_firstRegistered ops e root).mpr hfirst
    have hlive := (EventMap.executeAll ops).owner_live e root ((href.aliases e).symm.trans halias)
    obtain ⟨row, hrow⟩ := Option.isSome_iff_exists.mp hlive
    have hsession : (executeAll ops).getSession root = some row := (href.sessions root).trans hrow
    refine ⟨row, hsession, ?_⟩
    rw [Tables.getSessionByEvent_eq, hnone, halias]
    exact hsession
  · have halias : (executeAll ops).aliasOf e = none := by
      refine Option.eq_none_iff_forall_ne_some.mpr fun root h => ?_
      exact hfirst root ((aliasOf_iff_firstRegistered ops e root).mp h)
    rw [Tables.getSessionByEvent_eq, hnone, halias]
    rfl
  · have hstep := op.refines href
    rcases hop : EventMap.apply (EventMap.executeAll ops) op with x' | d'
    · rw [hop] at hstep
      rw [hstep]
    · rw [hop] at hstep
      rw [hstep.1] at hx
      cases hx

/-- A thread root that is also an alias of another session leads there after its own session is
deleted, with no registration in between. -/
theorem deleted_root_leads_on :
    ∃ (ops : List Op) (op : Op) (e root : EventId),
      (executeAll ops).Names e root ∧ (executeAll ops).getSession root ≠ none ∧
      (op.apply (executeAll ops)).2.getSession root = none ∧
      (op.apply (executeAll ops)).2.getSessionByEvent e ≠ none :=
  ⟨[.insertSession (lit "$a") (lit "!r") (lit "n") (lit "s") 0,
    .insertSession (lit "$b") (lit "!r") (lit "n") (lit "t") 0,
    .registerAlias (lit "$b") (lit "$a"), .touchSession (lit "$a") 100000],
    .runCleanup 1 100000, lit "$b", lit "$b", by decide⟩

end MatrixDispatcher
