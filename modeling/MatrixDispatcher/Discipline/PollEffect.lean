import MatrixDispatcher.Discipline.PollWalk
import MatrixDispatcher.Runtime.Frame

/-!
# What the acts of the poll loop do to the world

The effects restated for the acts of the poll loop and the stored token.

* `PollChange` — what an act does to the token on the connection and in the file.
* `pollObserver` — an act is either seen in the trace or silent.
* `pollInvariant` — in every run, `main` is the one task that polls.
-/

namespace MatrixDispatcher

open Py Coro

namespace PollAct

/-- The token on the connection after an act. -/
def token (w : World) : PollAct → Option Token
  | write next => some next
  | close => w.disk.getSince
  | _ => w.db.getSince

/-- The token in the database file after an act. -/
def saved (w : World) : PollAct → Option Token
  | commit true => w.db.getSince
  | _ => w.disk.getSince

/-- The connection is open after an act. -/
def isOpen (w : World) : PollAct → Bool
  | close => false
  | _ => w.dbOpen

/-- What an act says about the world it takes place in. -/
def Guard (w : World) : PollAct → Prop
  | read found => found = w.db.getSince
  | _ => True

/-- The act leaves no observation in the trace. -/
def silent : PollAct → Bool
  | write _ | refused | commit _ | close | other => true
  | _ => false

end PollAct

/-- What an act does to the world. -/
structure PollChange (act : PollAct) (w w' : World) : Prop where
  guard : act.Guard w
  token : w'.db.getSince = act.token w
  saved : w'.disk.getSince = act.saved w
  isOpen : w'.dbOpen = act.isOpen w

/-- The act that an observation shows. -/
def Obs.pollAct : Obs → PollAct
  | started since => .read since
  | synced since result => .synced since result
  | dispatched args => .dispatch args
  | marked _ .closing => .closing
  | _ => .other

theorem Tables.getSince_setSince (db : Tables) (since : Token) (now : Int) :
    (db.setSince since now).getSince = some since := by
  simp [Tables.getSince, Tables.setSince, Table.find?_insertOrReplace]

section

variable {t : Tid} {a : Answer} {w w' : World}

/-- The token after a statement. -/
theorem token_of_exec {s : Stmt} {v : s.Ret} {db : Tables} (h : s.exec w.db = .ok (v, db)) :
    db.getSince = (PollAct.of (.sync (.execute s)) (.ok v)).token w := by
  cases s with
  | setSince since now =>
    cases h
    exact Tables.getSince_setSince _ _ _
  | _ =>
    rcases (exec_tables h).1 with hsame | ⟨_, _, hset⟩
    · rw [Tables.getSince, hsame]
      rfl
    · cases hset

/-- What a synchronous act does. -/
theorem execSync_poll {e : SyncEff} {r : e.Ret} (h : execSync t a w e = some (r, w')) :
    PollChange (PollAct.ofSync e r) w w' := by
  -- Most effects change neither the tables nor the file.
  have hstill : ∀ {act : PollAct}, act.Guard w → act.token w = w.db.getSince →
      act.saved w = w.disk.getSince → act.isOpen w = w.dbOpen →
      Component.db ∉ (Eff.sync e).writes → Component.disk ∉ (Eff.sync e).writes →
      Component.dbOpen ∉ (Eff.sync e).writes → PollChange act w w' := by
    intro act hguard htoken hsaved hisOpen hdb hdisk hopen
    have hdb' : w'.db = w.db := (frame_sync h).2 .db hdb
    have hdisk' : w'.disk = w.disk := (frame_sync h).2 .disk hdisk
    have hopen' : w'.dbOpen = w.dbOpen := (frame_sync h).2 .dbOpen hopen
    exact ⟨hguard, by rw [hdb', htoken], by rw [hdisk', hsaved], hopen'.trans hisOpen.symm⟩
  cases e with
  | execute s =>
    rcases execStmt_eq h with ⟨x, rfl, -, rfl⟩ | ⟨v, db, rfl, rfl, hexec, hopen⟩
    · cases s <;> exact ⟨trivial, rfl, rfl, rfl⟩
    · have htoken := token_of_exec hexec
      cases s with
      | getSince =>
        cases hexec
        exact ⟨rfl, rfl, rfl, rfl⟩
      | _ => exact ⟨trivial, htoken, rfl, rfl⟩
  | commit =>
    rcases execCommit_eq h with ⟨x, rfl, -, rfl⟩ | ⟨rfl, rfl, hopen⟩ <;>
      exact ⟨trivial, rfl, rfl, rfl⟩
  | closeDb =>
    cases h
    exact ⟨trivial, rfl, rfl, rfl⟩
  | mark m =>
    cases h
    cases m <;> exact ⟨trivial, rfl, rfl, rfl⟩
  | createTask request =>
    cases request <;> exact hstill trivial rfl rfl rfl (by simp [Eff.writes]) (by simp [Eff.writes])
      (by simp [Eff.writes])
  | _ =>
    exact hstill trivial rfl rfl rfl (by simp [Eff.writes]) (by simp [Eff.writes])
      (by simp [Eff.writes])

/-- What an act does. -/
theorem exec_poll {e : Eff} {r : e.Ret} (h : exec t a e w = some (r, w')) :
    PollChange (PollAct.of e r) w w' := by
  cases e with
  | sync e =>
    obtain ⟨⟨r', w''⟩, hquiet, heq⟩ := Option.map_eq_some_iff.mp h
    cases heq
    have hchange : PollChange _ w w'' := execSync_poll hquiet
    exact ⟨hchange.guard, hchange.token, hchange.saved, hchange.isOpen⟩
  | await e =>
    have hdb : w'.db = w.db :=
      frame h (c := .db) (by cases e <;> simp [Eff.writes, AwaitEff.writes])
    have hdisk : w'.disk = w.disk :=
      frame h (c := .disk) (by cases e <;> simp [Eff.writes, AwaitEff.writes])
    have hopen : w'.dbOpen = w.dbOpen :=
      frame h (c := .dbOpen) (by cases e <;> simp [Eff.writes, AwaitEff.writes])
    cases e with
    | sync since => cases r <;> exact ⟨trivial, by rw [hdb]; rfl, by rw [hdisk]; rfl, hopen⟩
    | _ => exact ⟨trivial, by rw [hdb]; rfl, by rw [hdisk]; rfl, hopen⟩

/-- What is observed of effects, as acts of the poll loop. -/
def pollObserver : Observer PollAct where
  of := PollAct.of
  seen := Obs.pollAct
  silent := PollAct.silent
  shown := by
    intro t e r o ho
    cases e with
    | sync e =>
      cases e with
      | execute s => cases s <;> cases r <;> first | (cases ho; rfl) | cases ho
      | createTask request => cases request <;> first | (cases ho; rfl) | cases ho
      | mark m => cases m <;> (cases ho; rfl)
      | sendSignal _ _ =>
        cases ho
        rfl
      | _ => cases ho
    | await e =>
      cases e with
      | sync _ | roomSend _ _ _ | fetchStates _ => cases r <;> first | (cases ho; rfl) | cases ho
      | _ => cases ho
  hidden := by
    intro t e r ho
    cases e with
    | sync e =>
      cases e with
      | execute s => cases s <;> cases r <;> first | rfl | cases ho
      | commit => cases r <;> rfl
      | createTask request => cases request <;> first | rfl | cases ho
      | mark m => cases ho
      | _ => rfl
    | await e =>
      cases e with
      | sync _ => cases r <;> first | rfl | cases ho
      | _ => rfl

/-- A sync succeeds with the answer of the homeserver. -/
theorem eq_synced {e : Eff} {r : e.Ret} {since : Option Token} {result : SyncResult}
    (h : exec t a e w = some (r, w')) (hact : PollAct.of e r = .synced since result) :
    e = .await (.sync since) ∧ a = .synced result := by
  cases e with
  | sync e =>
    cases e with
    | execute s => cases s <;> cases r <;> cases hact
    | commit => cases r <;> cases hact
    | createTask request => cases request <;> cases hact
    | mark m => cases m <;> cases hact
    | _ => cases hact
  | await e =>
    cases e with
    -- The only effect with this act; a cancelled task has no response.
    | sync since' =>
      cases r with
      | error _ => cases hact
      | ok result' =>
        cases hact
        obtain ⟨⟨r', w''⟩, hquiet, heq⟩ := Option.map_eq_some_iff.mp h
        cases heq
        rcases execAwait_eq hquiet with ⟨-, hr, -⟩ | ⟨-, hop⟩
        · cases hr
        rw [execOperation.eq_def] at hop
        dsimp only at hop
        split at hop
        · cases hop
          exact ⟨rfl, rfl⟩
        · obtain ⟨-, x, hx, -⟩ := failure_eq hop
          cases hx
    | _ => cases hact

end

/-! ## The one task that polls -/

variable {config : MatrixDispatcher.Config} {w w' : World}

/-- `main` does not come into its stages from others. -/
theorem PollStage.polls_step {act : PollAct} {g g' : PollStage} (hstep : PollStep config g act g')
    (h : g'.polls = true) : g.polls = true := by
  cases hstep with
  | other | commit => exact h
  | synced _ _ _ hhead => exact polls_of_head? hhead
  | closing _ hpolls => exact hpolls
  | _ => rfl

/-- A task that does not poll may commit at most. -/
theorem PollStage.act_of_apart {act : PollAct} {g g' : PollStage} (hg : g.polls = false)
    (hstep : PollStep config g act g') : act = .other ∨ ∃ done, act = .commit done := by
  cases hstep with
  | other => exact .inl rfl
  | commit _ done => exact .inr ⟨done, rfl⟩
  | synced _ _ _ hhead => simp [polls_of_head? hhead] at hg
  | closing _ hpolls => simp [hpolls] at hg
  | _ => cases hg

/-- In every run, `main` is the one task that polls. -/
noncomputable def pollInvariant (config : MatrixDispatcher.Config)
    (allow : World → Step → Prop) : Invariant (pollCoverage config).supervision allow where
  inv G _ := ∀ t, (G t).polls = true → t = .main
  effect := by
    intro G w w' t e a r g' _ hinv _ _ _ hnext u hu
    by_cases hut : u = t
    · subst hut
      rw [Function.update_self] at hu
      exact hinv u (PollStage.polls_step (PollStage.step_cases hnext) hu)
    · rw [Function.update_of_ne hut] at hu
      exact hinv u hu
  finish := by
    intro G w t _ hinv _ u hu
    by_cases hut : u = t
    · subst hut
      simp [pollMonitor, PollStage.polls] at hu
    · rw [Function.update_of_ne hut] at hu
      exact hinv u hu
  env _ hinv _ _ := hinv
  start := by
    intro G w w' t fiber a hgood hinv _ hstart _ u hu
    obtain ⟨n, request, henter, hruns, -⟩ := (pollCoverage config).start_good hgood hstart
    by_cases hut : u = t
    · subst hut
      rw [Function.update_self, henter] at hu
      cases request <;> cases u <;>
        first | rfl | exact Bool.noConfusion hu | exact Bool.noConfusion hruns
    · rw [Function.update_of_ne hut] at hu
      exact hinv u hu
  crash _ _ _ _ u hu := by simp [pollMonitor, PollStage.polls] at hu

end MatrixDispatcher
