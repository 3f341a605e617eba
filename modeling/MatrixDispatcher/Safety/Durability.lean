import MatrixDispatcher.Discipline.Circuits

/-!
# Durability of writes

Every write of the dispatcher is committed before its task gives up the processor, so that the
process can be killed at any await without losing one. This holds in every run in which no commit
fails and the cleanup is not cut short by a failing statement; and it holds again as soon as a later
commit has succeeded.

* `StoreStage` — whether the task has written something that it has not committed.
* `steady` — no commit fails, and no later statement of the cleanup.
* `StoreInv` — the database is open while something is to be committed; `Written` — what is not
  to be committed is in the file.
* `writes_last` — once the file has all writes, it has them whenever nobody has the processor; and
  no foreign key makes the cleanup fail.
-/

namespace MatrixDispatcher

open Coro Py

variable {config : MatrixDispatcher.Config} {w w' : World} {t : Tid}

/-! ## The discipline -/

/-- What an effect and its response mean for the database. -/
inductive StoreAct where
  | write (s : Stmt) (ok : Bool)
  | commit
  | other

/-- What an effect means. -/
def StoreAct.of : (e : Eff) → e.Ret → StoreAct
  | .sync (.execute s), .ok _ => if s.writes then .write s true else .other
  | .sync (.execute s), .error _ => if s.writes then .write s false else .other
  | .sync .commit, _ => .commit
  | _, _ => .other

/-- Whether a task has written something that it has not committed. -/
inductive StoreStage where
  | clean
  /-- The cleanup has deleted the aliases of stale sessions. -/
  | cut (cutoff : Int)
  | dirty

namespace StoreStage

/-- Writes are committed before anything else is done. -/
def step : StoreStage → StoreAct → Option StoreStage
  -- the sessions are deleted after their aliases
  | clean, .write (.deleteStaleSessions _) _ => none
  | clean, .write _ false => some clean
  | clean, .write (.deleteStaleAliases cutoff) true => some (cut cutoff)
  | clean, .write _ true => some dirty
  | cut cutoff, .write (.deleteStaleSessions cutoff') ok =>
    if cutoff' = cutoff then some (if ok then dirty else clean) else none
  | dirty, .write .sweepOrphanAliases ok => some (if ok then dirty else clean)
  | _, .commit => some clean
  | clean, .other => some clean
  | _, _ => none

/-- Something is to be committed. -/
def isDirty : StoreStage → Bool
  | clean => false
  | _ => true

theorem isDirty_eq_false {g : StoreStage} (h : g.isDirty = false) : g = .clean := by
  cases g <;> first | rfl | cases h

end StoreStage

/-- What the discipline accepts. -/
inductive StoreStep : StoreStage → StoreAct → StoreStage → Prop
  | write (g : StoreStage) (s : Stmt) : StoreStep g (.write s true) .dirty
  | cut (cutoff : Int) : StoreStep .clean (.write (.deleteStaleAliases cutoff) true) (.cut cutoff)
  | failed (s : Stmt) : StoreStep .clean (.write s false) .clean
  | failedSessions (cutoff : Int) :
      StoreStep (.cut cutoff) (.write (.deleteStaleSessions cutoff) false) .clean
  | failedSweep : StoreStep .dirty (.write .sweepOrphanAliases false) .clean
  | commit (g : StoreStage) : StoreStep g .commit .clean
  | other : StoreStep .clean .other .clean

theorem StoreStage.step_cases {g g' : StoreStage} {act : StoreAct} (h : g.step act = some g') :
    StoreStep g act g' := by
  rw [StoreStage.step.eq_def] at h
  split at h
  · cases h
  · cases h
    exact .failed _
  · cases h
    exact .cut _
  · cases h
    exact .write _ _
  · next cutoff cutoff' ok =>
    split at h
    · next heq =>
      subst heq
      cases ok <;> cases h
      · exact .failedSessions _
      · exact .write _ _
    · cases h
  · next ok =>
    cases ok <;> cases h
    · exact .failedSweep
    · exact .write _ _
  · cases h
    exact .commit _
  · cases h
    exact .other
  · cases h

/-- Stale sessions are only deleted after their aliases. -/
theorem StoreStage.cut_of_step {g g' : StoreStage} {cutoff : Int} {ok : Bool}
    (h : g.step (.write (.deleteStaleSessions cutoff) ok) = some g') : g = .cut cutoff := by
  cases g with
  | clean => cases h
  | cut cutoff' =>
    rw [StoreStage.step] at h
    split at h
    · next heq => rw [heq]
    · cases h
  | dirty => cases ok <;> cases h

/-- The discipline of writes, as a monitor. -/
def storeMonitor : Monitor Eff Eff.Ret StoreStage where
  next g e r := g.step (StoreAct.of e r)
  atomic := StoreStage.isDirty
  final g := g = .clean
  idle := .clean
  atomic_idle := rfl

theorem store_ignores {e : Eff} (h : Eff.passive e = true) : storeMonitor.Ignores .clean e := by
  intro r
  suffices hother : StoreAct.of e r = .other by
    change StoreStage.step .clean (StoreAct.of e r) = some .clean
    rw [hother]
    rfl
  cases e with
  | sync e =>
    cases e with
    | execute s =>
      have hs : s.writes = false := by simpa [Eff.passive] using h
      cases r <;> simp [StoreAct.of, hs]
    | commit => cases h
    | _ => rfl
  | await e => rfl

/-- The stage after a write with which nothing is cut short. -/
theorem step_write {s : Stmt} (hs : s.writes = true) (hown : s.cleans = false)
    (r : Except Exn s.Ret) :
    ∃ g', storeMonitor.next .clean (.sync (.execute s)) r = some g' ∧
      ((∃ x, r = .error x) ∧ g' = .clean ∨ (∃ v, r = .ok v) ∧ g'.isDirty = true) := by
  change ∃ g', StoreStage.step .clean (StoreAct.of (.sync (.execute s)) r) = some g' ∧ _
  cases r with
  | error x =>
    rw [StoreAct.of, if_pos hs]
    cases s <;> first | exact ⟨.clean, rfl, .inl ⟨⟨x, rfl⟩, rfl⟩⟩ | cases hown
  | ok v =>
    rw [StoreAct.of, if_pos hs]
    cases s <;> first | exact ⟨_, rfl, .inr ⟨⟨v, rfl⟩, rfl⟩⟩ | cases hown

/-- A commit brings every stage back. -/
theorem store_commit (g : StoreStage) : Monitor.Follows storeMonitor Eff.awaits g Py.commit.run
    fun _ g' => g' = .clean := by
  refine Follows.commit fun r => ⟨.clean, ?_, rfl⟩
  cases g <;> rfl

/-- What follows a statement is reached with a stage to be committed, if it has succeeded. -/
theorem store_bind {s : Stmt} {α : Type} {g : StoreStage} {f : s.Ret → Py α}
    (hnext : ∀ r, ∃ g', storeMonitor.next g (.sync (.execute s)) r = some g' ∧
      ((∃ x, r = .error x) ∧ g' = .clean ∨ ∃ v, r = .ok v ∧
        storeMonitor.Follows Eff.awaits g' (f v).run fun _ g'' => g'' = .clean)) :
    storeMonitor.Follows Eff.awaits g (execute s >>= f).run fun _ g' => g' = .clean := by
  refine Monitor.Follows.bindE (Follows.execute fun r => ?_)
  obtain ⟨g', hg', hr⟩ := hnext r
  refine ⟨g', hg', ?_⟩
  rcases hr with ⟨⟨x, rfl⟩, rfl⟩ | ⟨v, rfl, hfollows⟩
  · rfl
  · exact hfollows

/-- The places at which something is written commit it at once. -/
theorem storeCircuit : Circuit storeMonitor .clean where
  calm := rfl
  final := rfl
  ignores := store_ignores
  write := by
    intro s hs hown
    refine store_bind fun r => ?_
    obtain ⟨g', hg', hr⟩ := step_write hs hown r
    refine ⟨g', hg', hr.imp_right ?_⟩
    rintro ⟨⟨v, rfl⟩, -⟩
    exact ⟨v, rfl, store_commit g'⟩
  cleanup := by
    intro days
    have hnow : PerformsE (storeMonitor.Ignores .clean) Store.now :=
      performsE_bind (performsE_sync (store_ignores rfl)) fun _ => performsE_pure _
    refine Follows.ignored_bind hnow rfl (fun now => ?_) fun _ => rfl
    refine store_bind fun r => ?_
    rcases r with x | aliases
    · exact ⟨.clean, rfl, .inl ⟨⟨x, rfl⟩, rfl⟩⟩
    -- After the first statement of the cleanup, the second one has its cutoff.
    refine ⟨.cut _, rfl, .inr ⟨aliases, rfl, store_bind fun r => ?_⟩⟩
    rcases r with x | sessions
    · exact ⟨.clean, if_pos rfl, .inl ⟨⟨x, rfl⟩, rfl⟩⟩
    refine ⟨.dirty, if_pos rfl, .inr ⟨sessions, rfl, store_bind fun r => ?_⟩⟩
    rcases r with x | orphans
    · exact ⟨.clean, rfl, .inl ⟨⟨x, rfl⟩, rfl⟩⟩
    refine ⟨.dirty, rfl, .inr ⟨orphans, rfl, ?_⟩⟩
    refine Monitor.Follows.bindE ((store_commit .dirty).mono fun res g' hg' => ?_)
    cases res <;> exact hg'
  acquire := by
    intro room
    refine Monitor.Follows.of_performs (performsE_bind (performsE_sync fun r => rfl) fun got =>
      ?_) rfl
    split
    · exact performsE_pure _
    · exact performsE_await fun r => rfl

/-! ## The invariant -/

/-- No commit fails, and once the cleanup has begun to delete, none of its statements fails. -/
def steady (_ : World) : Step → Prop
  | .effect _ (.sync .commit) a => a = .done
  | .effect _ (.sync (.execute (.deleteStaleSessions _))) a => a = .done
  | .effect _ (.sync (.execute .sweepOrphanAliases)) a => a = .done
  | _ => True

variable {G : Tid → StoreStage} {g' : StoreStage}

/-- While something is to be committed, the database is open, and the aliases that the cleanup
deletes first are gone. -/
structure StoreInv (G : Tid → StoreStage) (w : World) : Prop where
  opened : ∀ t, (G t).isDirty = true → w.dbOpen = true
  cut : ∀ t cutoff, G t = .cut cutoff →
    w.db.eventAliases.rows.any (w.db.staleAlias cutoff) = false

/-- If nothing is to be committed, the file has everything. -/
def Written (G : Tid → StoreStage) (w : World) : Prop := (∀ t, G t = .clean) → w.db = w.disk

/-- What an effect does to the database, by what it means. -/
inductive StoreChange (w w' : World) : StoreAct → Prop
  | write {s : Stmt} (v : s.Ret) (hexec : s.exec w.db = .ok (v, w'.db)) (hopen : w.dbOpen = true)
      (hdisk : w'.disk = w.disk) (hopen' : w'.dbOpen = w.dbOpen) : StoreChange w w' (.write s true)
  | failed {s : Stmt} (hsame : w'.db = w.db ∧ w'.disk = w.disk ∧ w'.dbOpen = w.dbOpen) :
      StoreChange w w' (.write s false)
  | commit (hdb : w'.db = w.db) (hdisk : w'.disk = w.db ∨ w'.disk = w.disk)
      (hopen' : w'.dbOpen = w.dbOpen) : StoreChange w w' .commit
  | still (hsame : w'.db = w.db ∧ w'.disk = w.disk ∧ w'.dbOpen = w.dbOpen) :
      StoreChange w w' .other
  | close (hdb : w'.db = w'.disk) : StoreChange w w' .other

/-- A statement that only reads leaves the tables. -/
theorem db_of_read {s : Stmt} {db db' : Tables} {v : s.Ret} (hs : s.writes = false)
    (h : s.exec db = .ok (v, db')) : db' = db := by
  cases s <;> first | (cases h; rfl) | cases hs

theorem exec_store {a : Answer} {e : Eff} {r : e.Ret} (h : exec t a e w = some (r, w')) :
    StoreChange w w' (StoreAct.of e r) := by
  by_cases hclose : e = .sync .closeDb
  · subst hclose
    cases h
    exact .close rfl
  -- What writes neither database leaves the store as it is.
  have hother : Component.db ∉ e.writes → Component.disk ∉ e.writes →
      Component.dbOpen ∉ e.writes → w'.db = w.db ∧ w'.disk = w.disk ∧ w'.dbOpen = w.dbOpen :=
    fun hdb hdisk hopen => ⟨frame h hdb, frame h hdisk, frame h hopen⟩
  cases e with
  | sync e =>
    cases e with
    | execute s =>
      obtain ⟨⟨r', w''⟩, hquiet, heq⟩ := Option.map_eq_some_iff.mp h
      cases heq
      rcases execStmt_eq hquiet with ⟨x, rfl, -, rfl⟩ | ⟨v, db, rfl, rfl, hexec, hopen⟩
      · cases hs : s.writes with
        | true =>
          rw [StoreAct.of, if_pos hs]
          exact .failed ⟨rfl, rfl, rfl⟩
        | false =>
          rw [StoreAct.of, if_neg (by simp [hs])]
          exact .still ⟨rfl, rfl, rfl⟩
      · cases hs : s.writes with
        | true =>
          rw [StoreAct.of, if_pos hs]
          exact .write v hexec hopen rfl rfl
        | false =>
          rw [StoreAct.of, if_neg (by simp [hs])]
          exact .still ⟨db_of_read hs hexec, rfl, rfl⟩
    | commit =>
      obtain ⟨⟨r', w''⟩, hquiet, heq⟩ := Option.map_eq_some_iff.mp h
      cases heq
      rcases execCommit_eq hquiet with ⟨x, rfl, -, rfl⟩ | ⟨rfl, rfl, -⟩
      · exact .commit rfl (.inr rfl) rfl
      · exact .commit rfl (.inl rfl) rfl
    -- The close was dealt with above.
    | closeDb => exact absurd rfl hclose
    | _ =>
      refine .still (hother ?_ ?_ ?_) <;> simp [Eff.writes]
  | await e =>
    refine .still (hother ?_ ?_ ?_) <;> cases e <;> simp [Eff.writes, AwaitEff.writes]

/-- A task goes on, while nothing of the others is to be committed. -/
theorem StoreInv.move (hopened : g'.isDirty = true → w'.dbOpen = true)
    (hothers : ∀ u, u ≠ t → (G u).isDirty = false)
    (hcut : ∀ cutoff, g' = .cut cutoff →
      w'.db.eventAliases.rows.any (w'.db.staleAlias cutoff) = false) :
    StoreInv (Function.update G t g') w' where
  opened u hu := by
    by_cases hut : u = t
    · subst hut
      rw [Function.update_self] at hu
      exact hopened hu
    · rw [Function.update_of_ne hut, hothers u hut] at hu
      cases hu
  cut u cutoff hu := by
    by_cases hut : u = t
    · subst hut
      rw [Function.update_self] at hu
      exact hcut cutoff hu
    -- The others are clean, so they are at no cut either.
    · have hclean := hothers u hut
      rw [Function.update_of_ne hut] at hu
      rw [hu] at hclean
      cases hclean

theorem StoreInv.of_clean (h : ∀ t, (G t).isDirty = false) : StoreInv G w where
  opened t ht := by
    rw [h t] at ht
    cases ht
  cut t cutoff ht := by
    have hclean := h t
    rw [ht] at hclean
    cases hclean

/-- The world changes elsewhere. -/
theorem StoreInv.of_same (h : StoreInv G w) (hdb : w'.db = w.db) (hopen : w'.dbOpen = w.dbOpen) :
    StoreInv G w' :=
  ⟨fun t ht => hopen ▸ h.opened t ht, fun t cutoff ht => hdb ▸ h.cut t cutoff ht⟩

/-- Acts of tasks keep the invariant. -/
theorem StoreInv.step {act : StoreAct} (hchange : StoreChange w w' act)
    (hothers : ∀ u, u ≠ t → (G u).isDirty = false) (hstep : StoreStep (G t) act g') :
    StoreInv (Function.update G t g') w' := by
  -- A task that is clean afterwards owes nothing to the file.
  have hclean : g' = .clean → StoreInv (Function.update G t g') w' := by
    rintro rfl
    exact StoreInv.move (fun hg' => by cases hg') hothers fun _ hg' => by cases hg'
  generalize G t = g at hstep
  cases hstep with
  -- A statement was executed: it is to be committed, so the connection may be ahead of the file.
  | write =>
    cases hchange with
    | write v hexec hopen hdisk hopen' =>
      exact StoreInv.move (fun _ => hopen'.trans hopen) hothers fun _ hg' => by cases hg'
  -- The aliases of stale sessions are gone, which the second statement relies on.
  | cut cutoff =>
    cases hchange with
    | write v hexec hopen hdisk hopen' =>
      refine StoreInv.move (fun _ => hopen'.trans hopen) hothers fun cutoff' hg' => ?_
      cases hg'
      obtain ⟨-, hdb⟩ := Prod.mk.inj (Except.ok.inj hexec)
      rw [← hdb]
      exact Tables.any_staleAlias_deleteStaleAliases w.db cutoff
  | _ => exact hclean rfl

/-- In every run, the database is open while something is to be committed. -/
def storeInvariant (config : MatrixDispatcher.Config) (allow : World → Step → Prop) :
    Invariant (storeCircuit.coverage config).supervision allow where
  inv := StoreInv
  effect _ _ hatomic _ hexec hnext :=
    StoreInv.step (exec_store hexec) hatomic (StoreStage.step_cases hnext)
  finish := by
    intro G w t _ hinv hfinal
    have hsame : Function.update G t .clean = G := by
      rw [← (show G t = .clean from hfinal), Function.update_eq_self]
    change StoreInv (Function.update G t .clean) w
    rwa [hsame]
  env := by
    intro G w w' a _ hinv _ henv
    obtain ⟨m, -, hmoved⟩ := env_eq henv
    have hsame := (moved_same hmoved).2
    exact hinv.of_same (hsame .db (by decide) (by decide) (by decide) (by decide))
      (hsame .dbOpen (by decide) (by decide) (by decide) (by decide))
  start := by
    intro G w w' t fiber a hgood hinv _ hstart hidle
    obtain ⟨n, request, henter, -, rfl⟩ := (storeCircuit.coverage config).start_good hgood hstart
    have hsame : Function.update G t .clean = G := by
      rw [← (show G t = .clean from hidle), Function.update_eq_self]
    rw [henter]
    change StoreInv (Function.update G t .clean) { w with inbox := w.inbox.eraseIdx n }
    rw [hsame]
    exact hinv.of_same rfl rfl
  crash _ _ _ _ := .of_clean fun _ => rfl

/-- A statement on an open database fails for a constraint, or because the world says so. -/
theorem exec_of_failed {a : Answer} {e : Eff} {r : e.Ret} {s : Stmt}
    (h : exec t a e w = some (r, w')) (hact : StoreAct.of e r = .write s false)
    (hopen : w.dbOpen = true) :
    e = .sync (.execute s) ∧ (a ≠ .done ∨ ∃ x, s.exec w.db = .error x) := by
  obtain ⟨s', rfl⟩ : ∃ s', e = .sync (.execute s') := by
    rw [StoreAct.of.eq_def] at hact
    split at hact <;> first | exact ⟨_, rfl⟩ | cases hact
  obtain rfl : s' = s := by
    rw [StoreAct.of.eq_def] at hact
    split at hact <;> first | cases hact | skip
    · split at hact <;> cases hact
    · next heq _ =>
      cases heq
      split at hact <;> cases hact
      rfl
  refine ⟨rfl, ?_⟩
  by_cases ha : a = .done
  · subst ha
    refine .inr ?_
    cases hexec : s'.exec w.db with
    | error x => exact ⟨x, rfl⟩
    | ok res =>
      -- the statement has succeeded
      simp only [exec, execQuietly, execSync, World.execStmt, hopen, if_true, hexec,
        Option.map_some, Option.some.injEq, Prod.mk.injEq] at h
      obtain ⟨rfl, -⟩ := h
      rw [StoreAct.of] at hact
      split at hact <;> cases hact
  · exact .inl ha

/-- A commit that does not fail writes the file. -/
theorem exec_of_commit {e : Eff} {r : e.Ret} (h : exec t .done e w = some (r, w'))
    (he : e = .sync .commit) (hopen : w.dbOpen = true) : w'.db = w'.disk := by
  subst he
  simp only [exec, execQuietly, execSync, World.execCommit, hopen, if_true, Option.map_some,
    Option.some.injEq, Prod.mk.injEq] at h
  obtain ⟨-, rfl⟩ := h
  rfl

/-- An effect settles the database, if it leaves nothing to be committed. -/
theorem written_of_step {a : Answer} {e : Eff} {r : e.Ret} (hinv : StoreInv G w)
    (hsettled : Written G w) (hothers : ∀ u, u ≠ t → (G u).isDirty = false)
    (hallow : steady w (.effect t e a)) (hexec : exec t a e w = some (r, w'))
    (hstep : StoreStep (G t) (StoreAct.of e r) .clean) : w'.db = w'.disk := by
  have hclean : G t = .clean → w.db = w.disk := by
    refine fun ht => hsettled fun u => ?_
    by_cases hut : u = t
    · rwa [hut]
    · exact StoreStage.isDirty_eq_false (hothers u hut)
  have hchange := exec_store hexec
  generalize hg : G t = g at hstep
  generalize hact : StoreAct.of e r = act at hstep hchange
  cases hstep with
  | failed s =>
    cases hchange with
    | failed hsame => rw [hsame.1, hsame.2.1, hclean hg]
  | other =>
    cases hchange with
    | still hsame => rw [hsame.1, hsame.2.1, hclean hg]
    | close hdb => exact hdb
  | failedSessions cutoff =>
    have hopen := hinv.opened t (by rw [hg]; rfl)
    obtain ⟨rfl, hfailed⟩ := exec_of_failed hexec hact hopen
    obtain ⟨x, hx⟩ := hfailed.resolve_left fun hne => hne hallow
    -- the aliases that refer to these sessions are gone
    rw [Stmt.exec, Tables.deleteStaleSessions, if_neg (by simp [hinv.cut t cutoff hg])] at hx
    cases hx
  | failedSweep =>
    have hopen := hinv.opened t (by rw [hg]; rfl)
    obtain ⟨rfl, hfailed⟩ := exec_of_failed hexec hact hopen
    obtain ⟨x, hx⟩ := hfailed.resolve_left fun hne => hne hallow
    cases hx
  | commit =>
    obtain rfl : e = .sync .commit := by
      rw [StoreAct.of.eq_def] at hact
      split at hact <;> first | rfl | (split at hact <;> cases hact) | cases hact
    obtain rfl : a = .done := hallow
    cases hopen : w.dbOpen with
    | true => exact exec_of_commit hexec rfl hopen
    | false =>
      -- nothing was to be committed
      have ht : G t = .clean := by
        refine StoreStage.isDirty_eq_false (Bool.eq_false_iff.mpr fun hdirty => ?_)
        rw [hinv.opened t hdirty] at hopen
        cases hopen
      cases hchange with
      | commit hdb hdisk =>
        rcases hdisk with hdisk | hdisk
        · rw [hdb, hdisk]
        · rw [hdb, hdisk, hclean ht]

/-- While no commit fails, what is not to be committed is in the file. -/
def writtenInvariant (config : MatrixDispatcher.Config) :
    (storeInvariant config steady).Extension where
  inv := Written
  effect := by
    intro G w w' t e a r g' _ hinv _ hsettled hothers hallow hexec hnext hall
    have hg' : g' = .clean := by
      have ht := hall t
      rwa [Function.update_self] at ht
    subst hg'
    exact written_of_step hinv hsettled hothers hallow hexec (StoreStage.step_cases hnext)
  finish := by
    intro G w t _ hsettled hfinal hall
    refine hsettled fun u => ?_
    by_cases hut : u = t
    · rw [hut]
      exact hfinal
    · have hu := hall u
      rwa [Function.update_of_ne hut] at hu
  env := by
    intro G w w' a _ _ hsettled _ henv hall
    obtain ⟨m, -, hmoved⟩ := env_eq henv
    have hsame := (moved_same hmoved).2
    have hdb : w'.db = w.db := hsame .db (by decide) (by decide) (by decide) (by decide)
    have hdisk : w'.disk = w.disk := hsame .disk (by decide) (by decide) (by decide) (by decide)
    rw [hdb, hdisk, hsettled hall]
  start := by
    intro G w w' t fiber a _ _ hsettled _ hstart hidle hall
    obtain ⟨n, request, -, -, -, rfl⟩ := start_eq hstart
    refine hsettled fun u => ?_
    by_cases hut : u = t
    · rw [hut]
      exact hidle
    · have hu := hall u
      rwa [Function.update_of_ne hut] at hu
  crash := by
    intro G w w' a _ _ _ hcrash _
    obtain ⟨-, rfl⟩ := crash_eq hcrash
    rfl

/-- In every run, no foreign key makes the second statement of the cleanup fail. -/
theorem deleteStaleSessions_ok {allow : World → Step → Prop}
    {c : Machine.Config Tid Eff Eff.Ret World} {cutoff : Int} (h : Reaches config allow c)
    (habout : c.About t (.sync (.execute (.deleteStaleSessions cutoff)))) :
    ∃ n, c.world.db.deleteStaleSessions cutoff = .ok n := by
  obtain ⟨G, -, hinv, -, haccepts⟩ := (storeInvariant config allow).about h
    (storeCircuit.coverage config).good_initial (.of_clean fun _ => rfl) habout
  obtain ⟨g', hnext⟩ := haccepts (.ok 0)
  have hcut : G t = .cut cutoff := StoreStage.cut_of_step hnext
  exact ⟨_, if_neg (Bool.eq_false_iff.mp (hinv.cut t cutoff hcut))⟩

/-- Once all writes are in the file, and while no commit fails, they are in the file whenever nobody
has the processor: no write is lost if the process is killed there. In every run, no foreign key
keeps the cleanup from deleting the stale sessions. -/
theorem writes_last {allow : World → Step → Prop} {c : Machine.Config Tid Eff Eff.Ret World}
    (h : Reaches config allow c) :
    (c.world.db = c.world.disk → ∀ c', (dispatcher config).Reachable steady c c' →
      c'.running = none → c'.world.db = c'.world.disk) ∧
    ∀ t cutoff, c.About t (.sync (.execute (.deleteStaleSessions cutoff))) →
      ∃ n, c.world.db.deleteStaleSessions cutoff = .ok n := by
  refine ⟨fun hall c' hrun hidle => ?_, fun t cutoff => deleteStaleSessions_ok h⟩
  obtain ⟨G, htracked, hgood, hinv⟩ := (storeInvariant config allow).tracked h
    (storeCircuit.coverage config).good_initial (.of_clean fun _ => rfl) (.ofWorld World.initial)
  obtain ⟨G', htracked', -, -, hsettled⟩ :=
    ((storeInvariant config steady).extend (writtenInvariant config)).tracked hrun hgood
      ⟨hinv, fun _ => hall⟩ htracked
  refine hsettled fun t => StoreStage.isDirty_eq_false (Bool.eq_false_iff.mpr fun hdirty => ?_)
  have hrunning := htracked'.running t hdirty
  rw [hidle] at hrunning
  cases hrunning

/-! ## Scenarios -/

/-- `steady`, evaluated. -/
def isSteady : Step → Bool
  | .effect _ (.sync .commit) .done => true
  | .effect _ (.sync .commit) _ => false
  | .effect _ (.sync (.execute (.deleteStaleSessions _))) .done => true
  | .effect _ (.sync (.execute (.deleteStaleSessions _))) _ => false
  | .effect _ (.sync (.execute .sweepOrphanAliases)) .done => true
  | .effect _ (.sync (.execute .sweepOrphanAliases)) _ => false
  | _ => true

theorem steady_of_check (w : World) (e : Step) (h : isSteady e = true) : steady w e := by
  rw [steady.eq_def]
  split
  all_goals first | trivial | skip
  all_goals
    rw [isSteady.eq_def] at h
    split at h <;> simp_all

/-- The effect deletes stale sessions. -/
def isDeleteSessions : Eff → Bool
  | .sync (.execute (.deleteStaleSessions _)) => true
  | _ => false

theorem eq_of_isDeleteSessions {e : Eff} (h : isDeleteSessions e = true) :
    ∃ cutoff, e = .sync (.execute (.deleteStaleSessions cutoff)) := by
  rw [isDeleteSessions.eq_def] at h
  split at h
  · exact ⟨_, rfl⟩
  · cases h

/-- A session is spawned and recorded as pending, and the cleanup begins. -/
def cleaning (n : Nat) : List Cue := gating ++ [.step (.start (.pick 0)), .go .cleanup n]

/-- A session is spawned and recorded as pending, the cleanup runs, and the process dies; the
cleanup is looked at before its second statement, too. -/
theorem writes_last_restarted :
    (∃ c, Reaches oneAgent steady c ∧ c.running = none ∧ c.world.db.sessions.rows.length = 1 ∧
      c.world.db.pendingApprovals.rows.length = 1 ∧ c.world.db = c.world.disk) ∧
    ∃ c t cutoff, Reaches oneAgent (fun _ _ => True) c ∧
      c.About t (.sync (.execute (.deleteStaleSessions cutoff))) ∧
      ∃ n, c.world.db.deleteStaleSessions cutoff = .ok n := by
  constructor
  · obtain ⟨c, h, hgoal⟩ := reaches_of_play oneAgent
      (cleaning 7 ++ [.step (.crash .done), .step (.start (.pick 0)), .go .main 7])
      (fun c => c.running.isNone && decide (c.world.db.sessions.rows.length = 1) &&
        decide (c.world.db.pendingApprovals.rows.length = 1))
      (fun w e (h : isSteady e = true) => steady_of_check w e h) (by decide +kernel)
    simp only [Bool.and_eq_true, decide_eq_true_eq, Option.isNone_iff_eq_none] at hgoal
    obtain ⟨⟨hidle, hsessions⟩, hpending⟩ := hgoal
    -- The process dies with both rows written, and starts again on the file.
    have hinit : Reaches oneAgent (fun _ _ => True) (.ofWorld World.initial) := .refl
    exact ⟨c, h, hidle, hsessions, hpending, (writes_last hinit).1 rfl c h hidle⟩
  · obtain ⟨c, h, hgoal⟩ := reaches_of_play oneAgent (cleaning 3)
      (fun c => meets c .cleanup isDeleteSessions) (fun _ _ (_ : true = true) => trivial)
      (by decide +kernel)
    obtain ⟨e, habout, he⟩ := about_of_meets hgoal
    obtain ⟨cutoff, rfl⟩ := eq_of_isDeleteSessions he
    exact ⟨c, .cleanup, cutoff, h, habout, (writes_last h).2 .cleanup cutoff habout⟩

end MatrixDispatcher
