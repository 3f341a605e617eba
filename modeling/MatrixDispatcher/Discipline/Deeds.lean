import MatrixDispatcher.Coro.Interference
import MatrixDispatcher.Discipline.TurnEffect
import MatrixDispatcher.Dispatcher

/-!
# A handler among the other tasks

The arena in which the program of one handler is verified: its Matrix posts and its statements
succeed, and the other tasks do to the database no more than the surroundings allow.

* `Deed`, `World.deeds` — what a task has done, as the trace tells it.
* `Surroundings` — what the others may do to the sessions; `Apart` is the rely made of it.
* `watch` — the arena of handler `n`.
* `Stands` — the assertions about a handler: what it has done so far, and facts that last.
* `Returns.sync`, `Returns.network`, … — the rules for its effects.
-/

namespace MatrixDispatcher

open Coro Py

/-! ## Deeds -/

/-- What a task does for a session. -/
inductive Deed where
  | posted (roomId : RoomId) (body : Str)
  | called (turn : Turn)
  /-- `_record_pending_if_gated` is called. -/
  | checked (roomId : RoomId) (sessionId : SessionId) (threadRootId : EventId)
  deriving DecidableEq

/-- The deed of task `t` that is observed. -/
def deedOf (t : Tid) : Obs → Option Deed
  | .posted u room body _ _ => if u = t then some (.posted room body) else none
  | .marked u (.runnerCall turn) => if u = t then some (.called turn) else none
  | .marked u (.recording room session root) =>
    if u = t then some (.checked room session root) else none
  | _ => none

/-- The deeds of task `t`, in their order. -/
def World.deeds (w : World) (t : Tid) : List Deed := (w.trace.filterMap (deedOf t)).reverse

section

variable {t u : Tid} {a : Answer} {w w' : World} {e : Eff} {r : e.Ret}

/-- An effect adds the deed that is observed of it, if there is one. -/
theorem exec_deeds (h : exec u a e w = some (r, w')) :
    w'.deeds t = w.deeds t ++ ((obsOf u e r).bind (deedOf t)).toList := by
  rw [World.deeds, World.deeds, exec_filterMap (deedOf t) h, List.reverse_append]
  cases (obsOf u e r).bind (deedOf t) <;> rfl

/-- The deed of an effect of the task itself. -/
def Eff.deed : Eff → Option Deed
  | .await (.roomSend room body _) => some (.posted room body)
  | .sync (.mark (.runnerCall turn)) => some (.called turn)
  | .sync (.mark (.recording room session root)) => some (.checked room session root)
  | _ => none

/-- What is observed of an effect is the deed of the task that makes it. -/
theorem deed_of_obsOf {d : Deed} (h : (obsOf u e r).bind (deedOf t) = some d) :
    u = t ∧ e.deed = some d := by
  obtain ⟨o, ho, hdeed⟩ := Option.bind_eq_some_iff.mp h
  cases e with
  | sync e =>
    cases e with
    | execute s =>
      cases s with
      -- These two are observed when they succeed, but are no deeds.
      | getSince | insertPendingApproval _ =>
        cases r <;> cases ho
        cases hdeed
      | _ => cases ho
    | createTask request =>
      cases request <;> cases ho
      cases hdeed
    | sendSignal room pid =>
      cases ho
      cases hdeed
    | mark m =>
      cases ho
      cases m with
      | runnerCall turn | recording _ _ _ =>
        rw [deedOf] at hdeed
        split at hdeed
        · exact ⟨‹_›, hdeed⟩
        · cases hdeed
      | _ => cases hdeed
    | _ => cases ho
  | await e =>
    cases e with
    | roomSend room body replyTo =>
      cases r <;> cases ho
      rw [deedOf] at hdeed
      split at hdeed
      · exact ⟨‹_›, hdeed⟩
      · cases hdeed
    | sync _ | fetchStates _ =>
      cases r <;> cases ho
      cases hdeed
    | _ => cases ho

/-- The deeds of a task are its own. -/
theorem deeds_of_ne (h : exec u a e w = some (r, w')) (hne : u ≠ t) : w'.deeds t = w.deeds t := by
  rw [exec_deeds h]
  cases hdeed : (obsOf u e r).bind (deedOf t) with
  | none => simp
  | some d => exact (hne (deed_of_obsOf hdeed).1).elim

/-- An effect that is no deed of any task adds none. -/
theorem deeds_of_deed_eq_none (h : exec u a e w = some (r, w')) (hnone : e.deed = none) :
    w'.deeds t = w.deeds t := by
  rw [exec_deeds h]
  cases hdeed : (obsOf u e r).bind (deedOf t) with
  | none => simp
  | some d => cases hnone.symm.trans (deed_of_obsOf hdeed).2

end

/-! ## What lasts -/

/-- Children that exist stay, and those that have exited stay as they are. -/
structure Lasts (w w' : World) : Prop where
  procs : ∀ (pid : Pid) p, w.procs[pid]? = some p → ∃ p', w'.procs[pid]? = some p' ∧
    p'.starter = p.starter ∧ p'.turn = p.turn ∧ p'.argv = p.argv
  exits : ∀ pid x, w.exitOf pid = some x → w'.exitOf pid = some x

/-- Where the processes are the same, all of them last. -/
theorem Lasts.of_eq {w w' : World} (h : w'.procs = w.procs) : Lasts w w' := by
  refine ⟨fun pid p hp => ⟨p, by rwa [h], rfl, rfl, rfl⟩, fun pid x hx => ?_⟩
  rwa [World.exitOf, h]

/-- `Lasts` is transitive. -/
theorem Lasts.trans {w w' w'' : World} (h : Lasts w w') (h' : Lasts w' w'') : Lasts w w'' := by
  refine ⟨fun pid p hp => ?_, fun pid x hx => h'.exits pid x (h.exits pid x hx)⟩
  obtain ⟨p', hp', hstarter, hturn, hargv⟩ := h.procs pid p hp
  obtain ⟨p'', hp'', hstarter', hturn', hargv'⟩ := h'.procs pid p' hp'
  exact ⟨p'', hp'', hstarter'.trans hstarter, hturn'.trans hturn, hargv'.trans hargv⟩

/-- A new child leaves the others alone. -/
theorem Lasts.launch {w w' : World} {p : Proc} (h : w'.procs = w.procs ++ [p]) : Lasts w w' := by
  have hget : ∀ {pid : Pid} {q}, w.procs[pid]? = some q → w'.procs[pid]? = some q := by
    intro pid q hq
    rw [h, List.getElem?_append_left (List.getElem?_eq_some_iff.mp hq).1, hq]
  refine ⟨fun pid q hq => ⟨q, hget hq, rfl, rfl, rfl⟩, fun pid x hx => ?_⟩
  rw [World.exitOf] at hx ⊢
  rcases hq : w.procs[pid]? with _ | q
  · simp [hq] at hx
  · rw [hq] at hx
    rw [hget hq]
    exact hx

/-- An effect starts at most one child and ends none. -/
theorem Lasts.of_exec {u : Tid} {a : Answer} {w w' : World} {e : Eff} {r : e.Ret}
    (h : exec u a e w = some (r, w')) : Lasts w w' := by
  have hprocs := (exec_turn h).procs
  generalize TurnAct.of e r = act at hprocs
  cases act with
  | launch agent turn pid =>
    obtain ⟨argv, cwd, hprocs⟩ := hprocs
    exact .launch hprocs
  | _ => exact .of_eq hprocs

/-- A move of the world ends at most one child, and none for the second time. -/
theorem Lasts.of_moved {w w' : World} {m : Move} (h : w.moved m = some w') : Lasts w w' := by
  cases m with
  | exit pid rc out err =>
    rw [World.moved.eq_def] at h
    dsimp only at h
    split at h
    · next hp =>
      cases h
      have hget : ∀ q : Pid, (setStatus w.procs pid (.exited rc out err))[q]? =
          if pid = q then w.procs[q]?.map fun p => { p with status := .exited rc out err }
          else w.procs[q]? := by
        intro q
        rw [setStatus, List.getElem?_modify]
        split <;> simp
      refine ⟨fun q p hq => ?_, fun q x hx => ?_⟩
      · by_cases heq : pid = q
        · subst heq
          exact ⟨{ p with status := .exited rc out err }, by simp [hget, hq], rfl, rfl, rfl⟩
        · exact ⟨p, by simp [hget, heq, hq], rfl, rfl, rfl⟩
      · -- the child that exits was alive
        have hne : pid ≠ q := by
          rintro rfl
          simp [World.exitOf, hp] at hx
        rw [World.exitOf] at hx ⊢
        simp only [hget, if_neg hne]
        exact hx
    · cases h
  | _ =>
    rw [World.moved] at h
    split at h <;> cases h
    exact .of_eq rfl

/-! ## The arena -/

/-- What the other tasks do to the sessions while handler `n` runs, and whether the children that
it starts end by themselves. -/
structure Surroundings (n : Nat) where
  keeps : World → World → Prop
  /-- The sessions are the same ones. -/
  of_keys : ∀ {w w'}, (∀ k, w'.db.sessions.hasKey k = w.db.sessions.hasKey k) → keeps w w'
  trans : ∀ {w w' w''}, w'.deeds (.handler n) = w.deeds (.handler n) → keeps w w' →
    keeps w' w'' → keeps w w''
  calm : Prop

variable {n : Nat} (S : Surroundings n)

/-- The handler is not cut off, and what is known of it and of the sessions remains. -/
structure Onward (w w' : World) : Prop where
  opened : w.dbOpen = true → w'.dbOpen = true
  uncancelled : .handler n ∉ w.cancelled → .handler n ∉ w'.cancelled
  deeds : w.deeds (.handler n) <+: w'.deeds (.handler n)
  lasts : Lasts w w'
  keeps : S.keeps w w'

/-- What may happen between two effects of the handler. -/
structure Apart (w w' : World) : Prop extends Onward S w w' where
  same : w'.deeds (.handler n) = w.deeds (.handler n)

/-- Posts and writes succeed; so do the children, if it is calm. -/
def Surroundings.Succeeds : Eff → Answer → Prop
  | .await (.roomSend _ _ _), a | .sync (.execute _), a | .sync .commit, a => ∀ x, a ≠ .raised x
  | .await (.exec _ _ _ _), a | .await (.communicate _ _), a => S.calm → ∀ x, a ≠ .raised x
  | _, _ => True

/-- A statement that is executed violates no constraint. -/
def Eff.Sound : Eff → World → Prop
  | .sync (.execute s), w => ∃ v db, s.exec w.db = .ok (v, db)
  | _, _ => True

/-- The operation ends only when another task or a child is ready. -/
def Eff.waits : Eff → Bool
  | .await (.lockWait _) | .await (.communicate _ _) | .await (.wait _) | .await (.drain _)
  | .await (.join _) | .await .gather | .await .gatherCancelled => true
  | _ => false

/-- Every effect that does not wait can be answered. -/
theorem exec_usualAnswer {t : Tid} {w : World} {e : Eff} (h : e.waits = false) :
    ∃ r w', exec t (usualAnswer w e) e w = some (r, w') := by
  suffices hquiet : (execQuietly t (usualAnswer w e) e w).isSome by
    obtain ⟨⟨r, w'⟩, hrw⟩ := Option.isSome_iff_exists.mp hquiet
    exact ⟨r, _, by rw [exec, hrw]; rfl⟩
  cases e with
  | sync e =>
    cases e with
    | execute s =>
      change (w.execStmt .done s).isSome
      rw [World.execStmt]
      split
      · split <;> rfl
      · rfl
    | commit =>
      change (w.execCommit .done).isSome
      rw [World.execCommit]
      split <;> rfl
    | lockTry room =>
      change (execSync t .done w (.lockTry room)).isSome
      rw [execSync]
      split <;> rfl
    | cancelTask u =>
      change (execSync t .done w (.cancelTask u)).isSome
      rw [execSync]
      split <;> rfl
    | _ => rfl
  | await e =>
    change (execAwait t _ w e).isSome
    rw [execAwait]
    split
    · rfl
    · cases e <;> first | rfl | cases h

/-- The arena of handler `n`. -/
def watch : Arena Eff Eff.Ret World where
  rely := Apart S
  step w e r w' := ∃ a, S.Succeeds e a ∧ exec (.handler n) a e w = some (r, w')
  safe e w := e.Sound w ∧
    (e.waits = true ∨ ∃ a r w', S.Succeeds e a ∧ exec (.handler n) a e w = some (r, w'))
  rely_refl _ := ⟨⟨id, id, List.prefix_rfl, .of_eq rfl, S.of_keys fun _ => rfl⟩, rfl⟩
  rely_trans h h' := ⟨⟨h'.opened ∘ h.opened, h'.uncancelled ∘ h.uncancelled,
    h.deeds.trans h'.deeds, h.lasts.trans h'.lasts, S.trans h.same h.keeps h'.keeps⟩,
    h'.same.trans h.same⟩

/-! ## What effects do to the surroundings -/

section

variable {t u : Tid} {a : Answer} {w w' : World} {e : Eff} {r : e.Ret}

/-- The statement leaves it open which sessions there are. -/
def Stmt.writesKeys : Stmt → Bool
  | .insertSession _ _ _ _ _ | .deleteStaleSessions _ => true
  | _ => false

/-- The effect leaves it open which sessions there are. -/
def Eff.writesKeys : Eff → Bool
  | .sync (.execute s) => s.writesKeys
  | .sync .closeDb => true
  | _ => false

/-- `touch_session` changes no key of the sessions. -/
theorem Tables.hasKey_touchSession (db : Tables) (root : EventId) (now : Int) (k : EventId) :
    (db.touchSession root now).sessions.hasKey k = db.sessions.hasKey k := by
  simp only [Tables.touchSession, Table.hasKey_update]

/-- Only statements on the keys of the sessions, and the end of the connection, change which
sessions there are. -/
theorem hasKey_of_exec (h : exec u a e w = some (r, w')) (he : e.writesKeys = false)
    (k : EventId) : w'.db.sessions.hasKey k = w.db.sessions.hasKey k := by
  have hframe : Component.db ∉ e.writes →
      w'.db.sessions.hasKey k = w.db.sessions.hasKey k := fun hmem => by
    rw [show w'.db = w.db from frame h hmem]
  cases e with
  | sync e =>
    cases e with
    | execute s =>
      obtain ⟨⟨r', w''⟩, hquiet, heq⟩ := Option.map_eq_some_iff.mp h
      cases heq
      rcases execStmt_eq hquiet with ⟨_, -, -, rfl⟩ | ⟨v, db, -, rfl, hexec, -⟩
      · rfl
      · rcases sessions_of_exec hexec with hsame | ⟨root, now, rfl⟩ | ⟨_, _, _, _, _, rfl⟩ |
          ⟨_, rfl⟩
        · exact congrArg (Table.hasKey · k) hsame
        · cases hexec
          exact w.db.hasKey_touchSession root now k
        · cases he
        · cases he
    | closeDb => cases he
    | _ => exact hframe (by simp [Eff.writes])
  | await e => exact hframe (by cases e <;> simp [Eff.writes, AwaitEff.writes])

/-- Only closing the database closes it. -/
theorem opened_of_exec (h : exec u a e w = some (r, w')) (he : e ≠ .sync .closeDb)
    (hopen : w.dbOpen = true) : w'.dbOpen = true := by
  have hmem : Component.dbOpen ∉ e.writes := by
    cases e with
    | sync e =>
      cases e with
      | closeDb => exact absurd rfl he
      | _ => simp [Eff.writes]
    | await e => cases e <;> simp [Eff.writes, AwaitEff.writes]
  rw [show w'.dbOpen = w.dbOpen from frame h hmem]
  exact hopen

/-- The effect may cancel task `t`. -/
def Eff.cancels (t : Tid) : Eff → Answer → Bool
  | .sync (.cancelTask u), _ => decide (u = t)
  | .await .gather, .raised .timeoutError => true
  | _, _ => false

/-- Only `cancel` on the task, and a gather that times out, cancel it. -/
theorem uncancelled_of_exec (h : exec u a e w = some (r, w')) (he : e.cancels t a = false)
    (hnot : t ∉ w.cancelled) : t ∉ w'.cancelled := by
  intro hmem
  by_cases hact : TurnAct.of e r = .cancel
  · obtain ⟨⟨r', w''⟩, hquiet, heq⟩ := Option.map_eq_some_iff.mp h
    cases heq
    change t ∈ w''.cancelled at hmem
    cases e with
    | sync e =>
      cases e with
      | cancelTask v =>
        rw [Eff.cancels, decide_eq_false_iff_not] at he
        change execSync u a w (.cancelTask v) = _ at hquiet
        rw [execSync] at hquiet
        split at hquiet <;> cases hquiet
        · exact hnot hmem
        · rcases List.mem_cons.mp hmem with rfl | hmem
          · exact he rfl
          · exact hnot (List.mem_of_mem_erase hmem)
      | execute s => cases s <;> first | cases hact | (cases r <;> cases hact)
      | createTask request => cases request <;> cases hact
      | kill _ => cases r <;> cases hact
      | mark m => cases m <;> cases hact
      | _ => cases hact
    | await e =>
      cases e with
      | gather =>
        rcases execAwait_eq hquiet with ⟨-, -, rfl⟩ | ⟨-, hop⟩
        · exact hnot (List.mem_of_mem_filter hmem)
        · rw [execOperation.eq_def] at hop
          dsimp only at hop
          split at hop
          · split at hop <;> cases hop
            exact hnot hmem
          · cases he
          · cases hop
      | communicate _ _ | wait _ =>
        rcases r with x | _
        · cases x <;> cases hact
        · cases hact
      | lockWait _ | fetchPending _ _ | exec _ _ _ _ | pause => cases r <;> cases hact
      | _ => cases hact
  · exact hnot (exec_cancelled h hact hmem)

end

/-! ## Assertions -/

/-- The effect of a handler neither cuts a handler off nor touches which sessions there are. -/
def Eff.tame : Eff → Bool
  | .sync .closeDb | .sync (.cancelTask _) | .await .gather => false
  | e => !e.writesKeys

section

variable {S} {a : Answer} {w w' : World} {e : Eff} {r : e.Ret}

/-- `F` stays true while the handler goes on. -/
def Surroundings.Lasting (S : Surroundings n) (F : World → Prop) : Prop :=
  ∀ ⦃w w'⦄, Onward S w w' → F w → F w'

/-- Two facts that last do so together. -/
theorem Surroundings.Lasting.and {F F' : World → Prop} (h : S.Lasting F) (h' : S.Lasting F') :
    S.Lasting fun w => F w ∧ F' w :=
  fun _ _ hon hF => ⟨h hon hF.1, h' hon hF.2⟩

/-- After a tame effect of its own, the handler goes on. -/
theorem Onward.of_tame (h : exec (.handler n) a e w = some (r, w')) (he : e.tame = true) :
    Onward S w w' where
  opened := opened_of_exec h (by rintro rfl; cases he)
  uncancelled := uncancelled_of_exec h <| by
    cases e with
    | sync e => cases e <;> first | rfl | cases he
    | await e => cases e <;> first | rfl | cases he
  deeds := by
    rw [exec_deeds h]
    exact List.prefix_append _ _
  lasts := .of_exec h
  keeps := S.of_keys <| hasKey_of_exec h <| by
    cases e with
    | sync e => cases e <;> first | rfl | cases he | simpa [Eff.tame] using he
    | await e => rfl

variable (n)

/-- The handler is alive and well, has done `ds`, and `F` is known. -/
structure Stands (F : World → Prop) (ds : List Deed) (w : World) : Prop where
  opened : w.dbOpen = true
  uncancelled : .handler n ∉ w.cancelled
  deeds : w.deeds (.handler n) = ds
  facts : F w

variable {n} {F : World → Prop} {ds : List Deed}

/-- While the handler goes on, it stands with the deeds that it has then. -/
theorem Stands.onward (hF : S.Lasting F) (h : Stands n F ds w) (hon : Onward S w w')
    {ds' : List Deed} (hdeeds : w'.deeds (.handler n) = ds') : Stands n F ds' w' :=
  ⟨hon.opened h.opened, hon.uncancelled h.uncancelled, hdeeds, hF hon h.facts⟩

/-- What others do leaves a handler standing. -/
theorem Stands.stable (hF : S.Lasting F) : (watch S).Stable (Stands n F ds) :=
  fun _ _ h hapart => h.onward hF hapart.toOnward (hapart.same.trans h.deeds)

/-- A tame effect that is no deed leaves a handler standing with the same deeds. -/
theorem Stands.quiet (hF : S.Lasting F) (h : Stands n F ds w)
    (hexec : exec (.handler n) a e w = some (r, w')) (he : e.tame = true)
    (hdeed : e.deed = none) : Stands n F ds w' :=
  h.onward hF (.of_tame hexec he) ((deeds_of_deed_eq_none hexec hdeed).trans h.deeds)

end

/-! ## Rules -/

section

variable {S} {F : World → Prop} {ds : List Deed} {α β : Type}

/-- What makes an effect safe in the arena. -/
theorem watch_safe {e : Eff} {w : World} (hsound : e.Sound w) : (watch S).safe e w := by
  refine ⟨hsound, ?_⟩
  by_cases hwaits : e.waits = true
  · exact .inl hwaits
  · obtain ⟨r, w', h⟩ := exec_usualAnswer (t := .handler n) (w := w) (Bool.eq_false_iff.mpr hwaits)
    refine .inr ⟨_, r, w', ?_, h⟩
    cases e with
    | sync e => cases e <;> first | trivial | exact nofun
    | await e => cases e <;> first | trivial | exact fun _ => nofun

/-- The effect is no deed of a handler, leaves the sessions alone and is not a statement. -/
def Eff.quiet : Eff → Bool
  | .sync (.execute _) => false
  | e => e.tame && e.deed.isNone

/-- An effect that is no deed and leaves things as they are. `V` is what is known of its
response. -/
theorem Triple.tame {e : Eff} {V : e.Ret → Prop} (hF : S.Lasting F) (he : e.tame = true)
    (hdeed : e.deed = none) (hsound : ∀ w, Stands n F ds w → e.Sound w)
    (hV : ∀ w a r w', Stands n F ds w → S.Succeeds e a →
      exec (.handler n) a e w = some (r, w') → V r) :
    (watch S).Triple (Stands n F ds) (Coro.perform e) fun r w => V r ∧ Stands n F ds w :=
  .perform (Stands.stable hF) (fun _ => (Arena.stable_const _).and (Stands.stable hF))
    (fun w h => watch_safe (hsound w h)) fun w r w' h ⟨a, hsucc, hexec⟩ =>
      ⟨hV w a r w' h hsucc hexec, h.quiet hF hexec he hdeed⟩

/-- A quiet effect is tame, is no deed, and is always sound. -/
theorem Eff.quiet_iff {e : Eff} (h : e.quiet = true) :
    e.tame = true ∧ e.deed = none ∧ ∀ w, e.Sound w := by
  cases e with
  | sync e =>
    cases e with
    | execute s => cases h
    | _ => simpa [Eff.quiet, Eff.Sound] using h
  | await e => simpa [Eff.quiet, Eff.Sound] using h

/-- A quiet effect, with what is known of its response. -/
theorem Triple.quiet {e : Eff} {V : e.Ret → Prop} (hF : S.Lasting F) (he : e.quiet = true)
    (hV : ∀ w a r w', Stands n F ds w → S.Succeeds e a →
      exec (.handler n) a e w = some (r, w') → V r) :
    (watch S).Triple (Stands n F ds) (Coro.perform e) fun r w => V r ∧ Stands n F ds w :=
  Triple.tame hF (Eff.quiet_iff he).1 (Eff.quiet_iff he).2.1
    (fun w _ => (Eff.quiet_iff he).2.2 w) hV

/-- A quiet effect from which something is learnt that lasts. -/
theorem Triple.learn {e : Eff} {F' : e.Ret → World → Prop} (hF : S.Lasting F)
    (hF' : ∀ r, S.Lasting (F' r)) (he : e.quiet = true)
    (hlearn : ∀ w a r w', Stands n F ds w → S.Succeeds e a →
      exec (.handler n) a e w = some (r, w') → F' r w') :
    (watch S).Triple (Stands n F ds) (Coro.perform e) fun r =>
      Stands n (fun w => F w ∧ F' r w) ds := by
  obtain ⟨htame, hdeed, hsound⟩ := Eff.quiet_iff he
  refine .perform (Stands.stable hF) (fun r => Stands.stable (hF.and (hF' r)))
    (fun w _ => watch_safe (hsound w)) fun w r w' h ⟨a, hsucc, hexec⟩ => ?_
  have hstands := h.quiet hF hexec htame hdeed
  exact ⟨hstands.opened, hstands.uncancelled, hstands.deeds, hstands.facts,
    hlearn w a r w' h hsucc hexec⟩

/-- A quiet synchronous effect. -/
theorem Returns.sync {e : SyncEff} {V : e.Ret → Prop} (hF : S.Lasting F)
    (he : (Eff.sync e).quiet = true)
    (hV : ∀ w a r w', Stands n F ds w → exec (.handler n) a (.sync e) w = some (r, w') → V r) :
    (watch S).Returns (Stands n F ds) (Py.sync e) fun r w => V r ∧ Stands n F ds w :=
  Arena.Returns.lift (fun _ => (Arena.stable_const _).and (Stands.stable hF))
    (Triple.quiet hF he fun w a r w' h _ hexec => hV w a r w' h hexec)

/-- A quiet synchronous effect, whatever its response, then `f`. -/
theorem Triple.sync_bind {e : SyncEff} {f : e.Ret → Py α} {Q : Except Exn α → World → Prop}
    (hF : S.Lasting F) (he : (Eff.sync e).quiet = true)
    (hf : ∀ r, (watch S).Triple (Stands n F ds) (f r).run Q) :
    (watch S).Triple (Stands n F ds) (Py.sync e >>= f).run Q :=
  (Returns.sync (V := fun _ => True) hF he fun _ _ _ _ _ _ => trivial).bindE fun r =>
    Arena.Triple.of_fact fun _ => hf r

/-- A statement that violates no constraint succeeds, unless the database fails. -/
theorem ok_of_execute {t : Tid} {a : Answer} {w w' : World} {s : Stmt} {r : Except Exn s.Ret}
    (h : exec t a (.sync (.execute s)) w = some (r, w')) (hopen : w.dbOpen = true)
    (hsound : ∃ v db, s.exec w.db = .ok (v, db)) (ha : ∀ x, a ≠ .raised x) : ∃ v, r = .ok v := by
  obtain ⟨v, db, hok⟩ := hsound
  obtain ⟨⟨r', w''⟩, hquiet, heq⟩ := Option.map_eq_some_iff.mp h
  cases heq
  change w.execStmt a s = _ at hquiet
  rw [World.execStmt.eq_def] at hquiet
  split at hquiet
  · exact (ha _ rfl).elim
  · rw [if_pos hopen, hok] at hquiet
    cases hquiet
    exact ⟨v, rfl⟩
  · cases hquiet

/-- A statement that neither adds nor removes sessions, and violates no constraint. -/
theorem Returns.execute {s : Stmt} (hF : S.Lasting F) (hs : s.writesKeys = false)
    (hsound : ∀ w, Stands n F ds w → ∃ v db, s.exec w.db = .ok (v, db)) :
    (watch S).Returns (Stands n F ds) (Py.execute s) fun _ => Stands n F ds := by
  have htame : (Eff.sync (.execute s)).tame = true := by simp [Eff.tame, Eff.writesKeys, hs]
  refine (Triple.tame (V := fun r : Except Exn s.Ret => ∃ v, r = .ok v) hF htame rfl hsound
    ?_).mono ?_
  · exact fun w a r w' h hsucc hexec => ok_of_execute hexec h.opened (hsound w h) hsucc
  · rintro r w ⟨⟨v, rfl⟩, h⟩
    exact ⟨v, rfl, h⟩

/-- A commit returns and leaves the handler standing. -/
theorem Returns.commit (hF : S.Lasting F) :
    (watch S).Returns (Stands n F ds) Py.commit fun _ => Stands n F ds := by
  refine (Triple.quiet (V := fun r : Except Exn Unit => r = .ok ()) hF rfl ?_).mono ?_
  · intro w a r w' h hsucc hexec
    obtain ⟨⟨r', w''⟩, hquiet, heq⟩ := Option.map_eq_some_iff.mp hexec
    cases heq
    change w.execCommit a = _ at hquiet
    rw [World.execCommit.eq_def] at hquiet
    split at hquiet
    · exact (hsucc _ rfl).elim
    · rw [if_pos h.opened] at hquiet
      cases hquiet
      rfl
    · cases hquiet
  · rintro r w ⟨rfl, h⟩
    exact ⟨(), rfl, h⟩

/-! ### Awaited operations -/

/-- A task that is not cancelled sees no `CancelledError`. -/
theorem isException_of_exec {t : Tid} {a : Answer} {w w' : World} {e : AwaitEff} {x : Exn}
    (h : exec t a (.await e) w = some (.error x, w')) (hnot : t ∉ w.cancelled) :
    x.isException = true := by
  obtain ⟨⟨r', w''⟩, hquiet, heq⟩ := Option.map_eq_some_iff.mp h
  cases heq
  -- A cancellation is delivered to cancelled tasks only.
  rcases execAwait_eq hquiet with ⟨hmem, -⟩ | ⟨-, hop⟩
  · exact (hnot hmem).elim
  rw [execOperation.eq_def] at hop
  cases e with
  | start | sleep | pause =>
    cases a <;> cases hop
  | lockWait _ | join _ | gatherCancelled =>
    dsimp only at hop
    split at hop <;> cases hop
  | openRegistry => cases a <;> cases hop
  -- The child exits, or the call times out.
  | communicate _ _ =>
    dsimp only at hop
    split at hop
    · obtain ⟨_, -, heq⟩ := Option.map_eq_some_iff.mp hop
      cases heq
    · cases hop
      rfl
    · cases hop
  | wait _ =>
    dsimp only at hop
    split at hop
    · split at hop <;> cases hop
    · cases hop
  | drain _ =>
    dsimp only at hop
    split at hop
    · split at hop <;> cases hop
    · obtain ⟨-, _, heq, hx⟩ := failure_eq hop
      cases heq
      exact hx
  | gather =>
    dsimp only at hop
    split at hop
    · split at hop <;> cases hop
    · cases hop
    · cases hop
  | _ =>
    dsimp only at hop
    split at hop
    · cases hop
    · obtain ⟨-, _, heq, hx⟩ := failure_eq hop
      cases heq
      exact hx

/-- An operation that cannot fail while the task is not cancelled. -/
theorem Returns.await {e : AwaitEff} (hF : S.Lasting F) (he : (Eff.await e).quiet = true)
    (hok : ∀ w a x w', exec (.handler n) a (.await e) w = some (.error x, w') →
      x.isException = true → ¬ S.Succeeds (.await e) a) :
    (watch S).Returns (Stands n F ds) (Py.await e) fun _ => Stands n F ds := by
  refine (Triple.quiet (V := fun r : Except Exn e.Val => ∃ v, r = .ok v) hF he ?_).mono ?_
  · intro w a r w' h hsucc hexec
    cases r with
    | ok v => exact ⟨v, rfl⟩
    | error x =>
      exact (hok w a x w' hexec (isException_of_exec hexec h.uncancelled) hsucc).elim
  · rintro r w ⟨⟨v, rfl⟩, h⟩
    exact ⟨v, rfl, h⟩

/-- A pause returns and leaves the handler standing. -/
theorem Returns.pause (hF : S.Lasting F) :
    (watch S).Returns (Stands n F ds) (Py.await .pause) fun _ => Stands n F ds := by
  refine Returns.await hF rfl fun w a x w' h hx => ?_
  obtain ⟨⟨r', w''⟩, hquiet, heq⟩ := Option.map_eq_some_iff.mp h
  cases heq
  rcases execAwait_eq hquiet with ⟨-, heq, -⟩ | ⟨-, hop⟩
  · cases heq
    cases hx
  · cases a <;> cases hop

/-- An operation of another program, which fails only if `b`. -/
theorem Triple.network {e : AwaitEff} {b : Prop} {F' : e.Val → World → Prop} {ds' : List Deed}
    (hF : S.Lasting F) (hF' : ∀ v, S.Lasting (F' v))
    (h : (watch S).Triple (Stands n F ds) (Coro.perform (Eff.await e)) fun r w =>
      match r with
      | .ok v => Stands n (F' v) ds' w
      | .error x => (b ∧ x.isException = true) ∧ Stands n F ds w) :
    (watch S).Triple (Stands n F ds) (Py.network e).run fun r w =>
      match r with
      | .ok v => Stands n (F' v) ds' w
      | .error x => (b ∧ x.isException = true) ∧ Stands n F ds w := by
  -- The response comes first, whether or not it is a failure.
  have hattempt : (watch S).Returns (Stands n F ds) (Coro.attempt (Py.await e)) fun r w =>
      match r with
      | .ok v => Stands n (F' v) ds' w
      | .error x => (b ∧ x.isException = true) ∧ Stands n F ds w := by
    refine Arena.Returns.attempt (fun r => ?_) h
    cases r with
    | ok v => exact Stands.stable (hF' v)
    | error x => exact (Arena.stable_const _).and (Stands.stable hF)
  refine hattempt.bindE fun r => ?_
  cases r with
  | ok v =>
    refine (Returns.pause (hF' v)).bindE fun _ => ?_
    exact Arena.Triple.ret (Stands.stable (hF' v))
  | error x =>
    refine Arena.Triple.of_fact fun hx => ?_
    cases x with
    | cancelledError => cases hx.2
    | _ =>
      refine (Returns.pause hF).bindE fun _ => ?_
      exact fun w h w' hrely => ⟨⟨hx.1, rfl⟩, Stands.stable hF h hrely⟩

end

end MatrixDispatcher
