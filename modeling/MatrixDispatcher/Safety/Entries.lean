import MatrixDispatcher.Coro.Refinement
import MatrixDispatcher.Discipline.Entries
import MatrixDispatcher.Safety.Liveness
import MatrixDispatcher.Safety.Order

/-!
# New sessions and the turns after them

The row of a new session is there before the session is spawned, so a reply may find it while the
spawn runs, or is yet to come. The turn of the reply comes after both.

* `EntryInv` — the handler of a message that begins a session has the lock of its room where the
  discipline says so; `entryInvariant` — every run keeps it.
* `Entered` — a handler that has inserted its session has kept the lock since, or it is over.
* `over_of_call` — whoever calls the runner for the room finds it over.
-/

namespace MatrixDispatcher

open Py Coro

variable {config : MatrixDispatcher.Config} {allow : World → Step → Prop}
  {G : Tid → TurnStage × EntryStage} {g' : TurnStage × EntryStage} {w w' : World} {t : Tid}

/-! ## Locks and new sessions -/

/-- Who takes a lock in a new session takes it in a turn. -/
theorem TurnAct.take_of {e : Eff} {r : e.Ret} {room : RoomId} (h : EntryAct.of e r = .take room) :
    TurnAct.of e r = .tryLock room true ∨ TurnAct.of e r = .waitLock room true := by
  -- Only the two effects on locks take one, when they succeed.
  cases e with
  | sync e =>
    cases e with
    | lockTry room' =>
      cases r with
      | true =>
        cases h
        exact .inl rfl
      | false => cases h
    | execute s => cases s <;> cases h
    | _ => cases h
  | await e =>
    cases e with
    | lockWait room' =>
      cases r with
      | ok _ =>
        cases h
        exact .inr rfl
      | error _ => cases h
    | _ => cases h

/-- Who gives a lock up in a turn gives it up in a new session. -/
theorem EntryAct.release_of {e : Eff} {r : e.Ret} {room : RoomId}
    (h : TurnAct.of e r = .release room) : EntryAct.of e r = .release room := by
  have hreleases := TurnAct.release_of h
  unfold Eff.releases at hreleases
  split at hreleases
  · rw [of_decide_eq_true hreleases]
    rfl
  · cases hreleases

/-- The handlers of messages that begin sessions have the locks that the discipline gives them. -/
structure EntryInv (G : Tid → TurnStage × EntryStage) (w : World) : Prop where
  numbered : w.Numbered
  paired : ∀ t args, (G t).2 = .locked args → (G t).1.room? = some args.roomId
  runs : ∀ t args, (G t).2.args? = some args → w.Runs t (.handle args)
  apart : ∀ n, (G (.handler n)).2 = .apart → ∃ args, w.argsOf n = some args ∧ ¬ args.Begins

/-- Whose message a handler handles does not change. -/
theorem EntryStep.args? {g g' : EntryStage} {act : EntryAct} (h : EntryStep g act g')
    {args : HandlerArgs} (hargs : g'.args? = some args) : g.args? = some args := by
  cases h <;> first | exact hargs | cases hargs

theorem EntryStep.apart_of {g g' : EntryStage} {act : EntryAct} (h : EntryStep g act g')
    (hg' : g' = .apart) : g = .apart := by
  cases h <;> first | rfl | cases hg'

/-- How a handler comes to have the lock: it takes it, or it has it and keeps it. -/
theorem EntryStep.locked_cases {g g' : EntryStage} {act : EntryAct} (h : EntryStep g act g')
    {args : HandlerArgs} (hg' : g' = .locked args) :
    act = .take args.roomId ∨ g = .locked args ∧ ∀ room, act ≠ .release room := by
  cases h <;> cases hg'
  · exact .inl rfl
  · exact .inr ⟨rfl, by simp⟩
  · exact .inr ⟨rfl, by simp⟩

namespace EntryInv

/-- One task goes on to stages that fit the world. -/
theorem move (h : EntryInv G w) (hgrows : Grows w w') (hnumbered : w'.Numbered)
    (hpaired : ∀ args, g'.2 = .locked args → g'.1.room? = some args.roomId)
    (hruns : ∀ args, g'.2.args? = some args → w'.Runs t (.handle args))
    (hapart : ∀ n, t = .handler n → g'.2 = .apart →
      ∃ args, w'.argsOf n = some args ∧ ¬ args.Begins) :
    EntryInv (Function.update G t g') w' where
  numbered := hnumbered
  paired := by
    rw [Function.forall_update_iff G fun _ g => ∀ args, g.2 = .locked args →
      g.1.room? = some args.roomId]
    exact ⟨hpaired, fun u _ => h.paired u⟩
  runs := by
    rw [Function.forall_update_iff G fun u g => ∀ args, g.2.args? = some args →
      w'.Runs u (.handle args)]
    exact ⟨hruns, fun u _ args hargs => (h.runs u args hargs).mono hgrows.dispatched⟩
  apart n hn := by
    -- The task itself by assumption, the others as before.
    by_cases hnt : Tid.handler n = t
    · subst hnt
      rw [Function.update_self] at hn
      exact hapart n rfl hn
    · rw [Function.update_of_ne hnt] at hn
      obtain ⟨args, hargs, hnot⟩ := h.apart n hn
      exact ⟨args, argsOf_mono hgrows.dispatched hargs, hnot⟩

/-- Acts of the tasks keep the invariant. -/
theorem step {a : Answer} {e : Eff} {r : e.Ret} (h : EntryInv G w)
    (hexec : exec t a e w = some (r, w')) (hturn : TurnStep config (G t).1 (TurnAct.of e r) g'.1)
    (hentry : EntryStep (G t).2 (EntryAct.of e r) g'.2) :
    EntryInv (Function.update G t g') w' := by
  have hgrows := Grows.of_exec hexec
  refine h.move hgrows (h.numbered.exec hexec) (fun args hlocked => ?_) (fun args hargs => ?_)
    fun n hn hapart => ?_
  · -- the two disciplines see the same locks
    rcases hentry.locked_cases hlocked with htake | ⟨hold, hkeep⟩
    · rcases TurnAct.take_of htake with hact | hact <;> rw [hact] at hturn
      all_goals
        generalize (G t).1 = g at hturn
        generalize g'.1 = g₁ at hturn
        cases hturn
        rfl
    · refine (hturn.room?_eq (h.paired t args hold)).resolve_right fun hrelease => ?_
      exact hkeep _ (EntryAct.release_of hrelease)
  · exact (h.runs t args (hentry.args? hargs)).mono hgrows.dispatched
  · subst hn
    obtain ⟨args, hargs, hnot⟩ := h.apart n (hentry.apart_of hapart)
    exact ⟨args, argsOf_mono hgrows.dispatched hargs, hnot⟩

/-- A task starts. -/
theorem start {request : Request} {i : Nat} (h : EntryInv G w) (hruns : w.Runs t request)
    (hentered : g'.2 = (entryCoverage config).enter request) :
    EntryInv (Function.update G t g') { w with inbox := w.inbox.eraseIdx i } := by
  -- The inbox is all that changes.
  have hgrows : Grows w { w with inbox := w.inbox.eraseIdx i } := .of_eq rfl
  refine h.move hgrows (h.numbered.started i) (fun args hlocked => ?_) (fun args hargs => ?_)
    fun n hn hapart => ?_
  -- A task that starts has no lock yet.
  · rw [hentered, entryCoverage] at hlocked
    cases request with
    | handle args' =>
      dsimp only at hlocked
      split at hlocked <;> cases hlocked
    | _ => cases hlocked
  · rw [hentered, entryCoverage] at hargs
    cases request with
    | handle args' =>
      dsimp only at hargs
      split at hargs
      · cases hargs
        exact hruns.mono hgrows.dispatched
      · cases hargs
    | _ => cases hargs
  · subst hn
    rw [hentered, entryCoverage] at hapart
    cases request with
    | handle args' =>
      dsimp only at hapart
      obtain ⟨m, hm, hargs⟩ := hruns
      cases hm
      split at hapart
      · cases hapart
      · next hnot => exact ⟨args', hargs, hnot⟩
    | _ => cases hruns

end EntryInv

/-- The disciplines of turns and of new sessions together. -/
abbrev entryCoverages (config : MatrixDispatcher.Config) :
    Supervision (dispatcher config) ((turnMonitor config).prod entryMonitor) :=
  (turnCoverage config).supervision.prod (entryCoverage config).supervision

/-- In every run, the handlers of messages that begin sessions have their locks. -/
def entryExtension (config : MatrixDispatcher.Config) (allow : World → Step → Prop) :
    ((lockInvariant config allow).left (entryCoverage config).supervision).Extension where
  inv := EntryInv
  effect := by
    intro G w w' t e a r g' _ _ _ hinv _ _ hexec hnext
    obtain ⟨hturn, hentry⟩ := Monitor.prod_next.mp hnext
    exact hinv.step hexec (TurnStage.step_cases hturn) (EntryStage.step_cases hentry)
  finish := by
    intro G w t _ hinv _
    exact hinv.move (.of_eq rfl) hinv.numbered (fun _ hlocked => (by cases hlocked))
      (fun _ hargs => (by cases hargs)) fun _ _ hapart => by cases hapart
  env := by
    intro G w w' a _ _ hinv _ henv
    obtain ⟨m, -, hmoved⟩ := env_eq henv
    have hgrows := Grows.of_eq (moved_same hmoved).1
    refine ⟨hinv.numbered.moved hmoved, hinv.paired,
      fun t args hargs => (hinv.runs t args hargs).mono hgrows.dispatched, fun n hn => ?_⟩
    obtain ⟨args, hargs, hnot⟩ := hinv.apart n hn
    exact ⟨args, argsOf_mono hgrows.dispatched hargs, hnot⟩
  start := by
    intro G w w' t fiber a hgood _ hinv _ hstart _
    obtain ⟨i, request, rfl, hitem, -, rfl⟩ := start_eq hstart
    exact hinv.start (hinv.numbered.inbox _ (List.mem_of_getElem? hitem))
      ((entryCoverage config).entered_eq hitem)
  crash := by
    intro G w w' a _ hinv _ hcrash
    obtain ⟨-, rfl⟩ := crash_eq hcrash
    exact ⟨hinv.numbered.crashed, fun _ _ hlocked => (by cases hlocked),
      fun _ _ hargs => (by cases hargs), fun _ hapart => by cases hapart⟩

/-- The locks, and the handlers of messages that begin sessions, are as they should be. -/
abbrev entryInvariant (config : MatrixDispatcher.Config) (allow : World → Step → Prop) :
    Invariant (entryCoverages config) allow :=
  ((lockInvariant config allow).left (entryCoverage config).supervision).extend
    (entryExtension config allow)

/-! ## From the insertion of a session on -/

/-- Handler `m`, which has begun, has the lock of its room or is over. -/
def Entered (m : Nat) (args : HandlerArgs) (g : TurnStage × EntryStage) (w : World) : Prop :=
  Begun (.ofWorld w) m ∧ (g.2 = .locked args ∨ g.2 = .ended ∨ g.2 = .absent)

/-- A handler that has the lock gives it up once, and then ends. -/
theorem EntryStep.entered {args : HandlerArgs} {g g' : EntryStage} {act : EntryAct}
    (h : EntryStep g act g') (hg : g = .locked args ∨ g = .ended ∨ g = .absent) :
    g' = .locked args ∨ g' = .ended ∨ g' = .absent := by
  cases h with
  | insert | work => exact hg
  | release => exact .inr (.inl rfl)
  | finish => exact .inr (.inr rfl)
  | _ => rcases hg with hg | hg | hg <;> cases hg

/-- Once a handler has inserted a session, every step leaves it with the lock, or over. -/
def enteredFocus (config : MatrixDispatcher.Config) (allow : World → Step → Prop) (m : Nat)
    (args : HandlerArgs) : (entryInvariant config allow).Focus (.handler m) where
  inv := Entered m args
  own := by
    intro G w w' e a r g' _ hinv _ hexec hnext
    have hentry := EntryStage.step_cases (Monitor.prod_next.mp hnext).2
    exact ⟨begun_of_exec hexec hinv.1, hentry.entered hinv.2⟩
  other := by
    intro G w w' t e a r g' _ _ _ hinv _ hexec _
    exact ⟨begun_of_exec hexec hinv.1, hinv.2⟩
  finish hinv _ := ⟨hinv.1, .inr (.inr rfl)⟩
  env := by
    intro g w w' a hinv _ henv
    obtain ⟨m', -, hmoved⟩ := env_eq henv
    have hinbox : w'.inbox = w.inbox :=
      (moved_same hmoved).2 .inbox (by decide) (by decide) (by decide) (by decide)
    have hnext : w'.nextHandler = w.nextHandler :=
      (moved_same hmoved).2 .nextHandler (by decide) (by decide) (by decide) (by decide)
    exact ⟨hinv.1.of_subset hnext fun item hitem => hinbox ▸ hitem, hinv.2⟩
  enter := by
    -- it has begun, so it does not start again
    intro w w' fiber a _ hinv hstart
    obtain ⟨i, request, rfl, hitem, -, rfl⟩ := start_eq hstart
    exact absurd (List.mem_of_getElem? hitem) (hinv.1.2 request)
  start := by
    intro g w w' t fiber a _ hinv hstart
    obtain ⟨i, request, rfl, hitem, -, rfl⟩ := start_eq hstart
    exact ⟨hinv.1.of_subset rfl fun item hmem => List.eraseIdx_subset hmem, hinv.2⟩
  crash := by
    intro g w w' a hinv hcrash
    obtain ⟨-, rfl⟩ := crash_eq hcrash
    exact ⟨hinv.1.crashed, .inr (.inr rfl)⟩

section

variable {m : Nat} {args : HandlerArgs} {c₁ c : Machine.Config Tid Eff Eff.Ret World}

/-- A handler that is about to insert a session has the lock of its room, if its message begins
one. -/
theorem locked_of_insert (hinv : EntryInv G w) (hargs : w.argsOf m = some args)
    (hbegins : args.Begins) {root : EventId} {room : RoomId} {agent : AgentName}
    {session : SessionId} {now : Int} {r : Except Exn Unit} {g' : EntryStage}
    (hnext : entryMonitor.next (G (.handler m)).2
      (.sync (.execute (.insertSession root room agent session now))) r = some g') :
    (G (.handler m)).2 = .locked args := by
  have hstep : EntryStep (G (.handler m)).2 .insert g' := EntryStage.step_cases hnext
  generalize hg : (G (.handler m)).2 = g at hstep
  cases hstep with
  | apart =>
    obtain ⟨args', hargs', hnot⟩ := hinv.apart m hg
    cases hargs.symm.trans hargs'
    exact absurd hbegins hnot
  | insert args' =>
    have hruns : w.Runs (.handler m) (.handle args') := hinv.runs _ _ (by rw [hg]; rfl)
    rw [hruns.unique ⟨m, rfl, hargs⟩]

/-- A task that the discipline takes for absent does not run. -/
theorem tasks_none_of_absent
    (htracked : Tracked (dispatcher config) ((turnMonitor config).prod entryMonitor) c G)
    (hparked : c.Parked Eff.awaits) (hrunning : c.running ≠ some t) (habsent : (G t).2 = .absent) :
    c.tasks t = none := by
  cases htask : c.tasks t with
  | none => rfl
  | some fiber =>
    have hawaits := hparked t fiber htask hrunning
    obtain ⟨J, hprog, -⟩ := htracked.conforms t fiber htask
    rw [Fiber.holdsProcessor] at hawaits
    split at hawaits
    · cases hawaits
    next e k hop =>
    rw [hop] at hprog
    -- what it awaits is not accepted
    cases e with
    | sync e => cases hawaits
    | await e =>
      obtain ⟨g', hnext, -⟩ := hprog.2 (.error .cancelledError)
      have hentry := EntryStage.step_cases (Monitor.prod_next.mp hnext).2
      rw [habsent] at hentry
      generalize g'.2 = g at hentry
      cases hentry

/-- Whoever calls the runner for a room comes after the handlers that have inserted sessions in
it: they do not run any more. -/
theorem over_of_call (h₁ : Reaches config allow c₁) (hargs : c₁.world.argsOf m = some args)
    (hbegins : args.Begins) {root : EventId} {room : RoomId} {agent : AgentName}
    {session : SessionId} {now : Int} (habout : c₁.About (.handler m)
      (.sync (.execute (.insertSession root room agent session now))))
    (hrun : (dispatcher config).Reachable allow c₁ c) {turn : Turn}
    (hcall : c.About t (.sync (.mark (.runnerCall turn)))) (hroom : turn.roomId = args.roomId)
    (hne : t ≠ .handler m) : ¬ Present c (.handler m) := by
  have hinit : EntryInv (fun _ => (.absent, .absent)) World.initial :=
    ⟨.initial, fun _ _ hlocked => (by cases hlocked), fun _ _ hargs => (by cases hargs),
      fun _ hapart => by cases hapart⟩
  have hidle : (entryInvariant config allow).inv (fun _ => (.absent, .absent)) World.initial :=
    ⟨.idle fun _ => rfl, hinit⟩
  obtain ⟨G₁, htracked₁, hgood₁, hlock₁, hinv₁⟩ := (entryInvariant config allow).tracked h₁
    ⟨(turnCoverage config).good_initial, (entryCoverage config).good_initial⟩ hidle
    (.ofWorld World.initial)
  -- the handler has begun, and has the lock
  have htask : c₁.tasks (.handler m) ≠ none := by
    obtain ⟨-, fiber, k, htask, -⟩ := habout
    rw [htask]
    exact Option.some_ne_none _
  have hcounted := counted_of_reaches h₁
  have hentered₁ : Entered m args (G₁ (.handler m)) c₁.world := by
    obtain ⟨g', hnext⟩ := htracked₁.accepts habout (.ok ())
    refine ⟨⟨hcounted.bound m (.inl htask), fun request hmem =>
      htask (hcounted.apart m request hmem)⟩, .inl ?_⟩
    exact locked_of_insert hinv₁ hargs hbegins (Monitor.prod_next.mp hnext).2
  obtain ⟨G, htracked, -, ⟨hlock, hinv⟩, hbegun, hentered⟩ :=
    ((entryInvariant config allow).extend (enteredFocus config allow m args).extension).tracked
      hrun hgood₁ ⟨⟨hlock₁, hinv₁⟩, hentered₁⟩ htracked₁
  have howner : (G t).1.room? = some args.roomId := by
    obtain ⟨g', hnext⟩ := htracked.accepts hcall ()
    have hturn : TurnStep config (G t).1 (.call turn) g'.1 :=
      TurnStage.step_cases (Monitor.prod_next.mp hnext).1
    generalize (G t).1 = g at hturn
    generalize g'.1 = g₁ at hturn
    cases hturn
    exact congrArg some hroom
  have habsent : (G (.handler m)).2 = .absent := by
    rcases hentered with hlocked | hover | habsent
    · exact absurd (hlock.unique howner (hinv.paired _ _ hlocked)) hne
    · have hatomic := htracked.atomic_ne hcall.1 (Ne.symm hne)
      rw [Monitor.prod_atomic, hover] at hatomic
      exact Bool.noConfusion hatomic.2
    · exact habsent
  have hparked : c.Parked Eff.awaits := parked_of_reaches (Machine.Reachable.trans h₁ hrun)
  have hrunning : c.running ≠ some (.handler m) := by
    intro hrunning
    rcases hcall.1 with hnone | hsome
    · rw [hnone] at hrunning
      cases hrunning
    · exact hne (Option.some.inj (hsome.symm.trans hrunning))
  rintro (hruns | ⟨request, hmem⟩)
  · exact hruns (tasks_none_of_absent htracked hparked hrunning habsent)
  · exact hbegun.2 request hmem

end

end MatrixDispatcher
