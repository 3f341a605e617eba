import MatrixDispatcher.Coro.Progress
import MatrixDispatcher.Discipline.Circuits
import MatrixDispatcher.Discipline.Lives
import MatrixDispatcher.Safety.Fairness

/-!
# Freedom from deadlock

Tasks wait for each other in three ways: for the lock of a room, and in the shutdown for the end of
a loop and for the end of the handlers. In every run, over cancelled tasks, restarts and a shutdown
in the middle of turns, these waits lead to a task that waits for none of the others.

* `LifeInv` — the tasks whose ends `main` waits for are alive, in the inbox or have ended.
* `QueueInv` — whoever is in the line of a lock stands at the wait for this lock.
* `WaitsFor` — a task waits for another one; `CanGoOn` — it waits for none.
* `no_deadlock` — waiting is well-founded, and leads to a task that can go on.
-/

namespace MatrixDispatcher

open Coro

variable {config : MatrixDispatcher.Config} {w w' : World} {t u : Tid}

/-! ## The ends of tasks -/

/-- What an effect of a task does to the inbox and to the lists of tasks. -/
inductive RollChange (t : Tid) (w w' : World) : Eff → Prop
  | create (request : Request) (hinbox : w'.inbox = (w.create request).inbox)
      (hhandlers : w'.handlers = (w.create request).handlers) (hfinished : w'.finished = w.finished)
      (hnext : w'.nextHandler = (w.create request).nextHandler) :
      RollChange t w w' (.sync (.createTask request))
  | done (hinbox : w'.inbox = w.inbox) (hhandlers : w'.handlers = w.handlers.erase t)
      (hfinished : w'.finished = t :: w.finished) (hnext : w'.nextHandler = w.nextHandler) :
      RollChange t w w' (.sync .taskDone)
  | still {e : Eff} (hcreate : ∀ request, e ≠ .sync (.createTask request))
      (hdone : e ≠ .sync .taskDone) (hinbox : w'.inbox = w.inbox)
      (hhandlers : w'.handlers = w.handlers) (hfinished : w'.finished = w.finished)
      (hnext : w'.nextHandler = w.nextHandler) : RollChange t w w' e

/-- A task that is created is in the inbox. -/
theorem RollChange.created {request : Request}
    (h : RollChange t w w' (.sync (.createTask request))) :
    ∃ u, request.runsAs u = true ∧ (u, request) ∈ w'.inbox := by
  cases h with
  | create _ hinbox =>
    rw [hinbox]
    cases request <;> exact ⟨_, by rfl, List.mem_append_right _ (List.mem_singleton.mpr rfl)⟩
  | still hcreate => exact absurd rfl (hcreate request)

theorem exec_roll {a : Answer} {e : Eff} {r : e.Ret} (h : exec t a e w = some (r, w')) :
    RollChange t w w' e := by
  -- Only `create_task` and the end of a task write these components.
  by_cases hcreate : ∃ request, e = .sync (.createTask request)
  · obtain ⟨request, rfl⟩ := hcreate
    cases request <;> cases h <;> exact .create _ rfl rfl rfl rfl
  by_cases hdone : e = .sync .taskDone
  · subst hdone
    cases h
    exact .done rfl rfl rfl rfl
  -- Every other effect leaves them alone, by the frame.
  have hsame : ∀ {c : Component}, c ∈ [.inbox, .handlers, .finished, .nextHandler] →
      c.Same w w' := by
    intro c hc
    refine frame h fun hmem => ?_
    simp only [List.mem_cons, List.not_mem_nil, or_false] at hc
    cases e with
    | sync e =>
      cases e <;> first
        | exact hcreate ⟨_, rfl⟩
        | exact hdone rfl
        | (rcases hc with rfl | rfl | rfl | rfl <;> simp [Eff.writes] at hmem)
    | await e =>
      rcases hc with rfl | rfl | rfl | rfl <;> cases e <;>
        simp [Eff.writes, AwaitEff.writes] at hmem
  exact .still (fun request he => hcreate ⟨request, he⟩) hdone
    (hsame (c := .inbox) (by simp)) (hsame (c := .handlers) (by simp))
    (hsame (c := .finished) (by simp)) (hsame (c := .nextHandler) (by simp))

/-- The task is alive, or it is about to start. -/
def Lives (G : Tid → LifeStage) (w : World) (u : Tid) : Prop :=
  G u = .alive ∨ ∃ request, (u, request) ∈ w.inbox

/-- What the stages of the tasks say about the lists of tasks. -/
structure LifeInv (G : Tid → LifeStage) (w : World) : Prop where
  main : (G .main).IsMain
  other : ∀ u, u ≠ .main → (G u).IsOther
  nodup : w.handlers.Nodup
  bound : ∀ u ∈ w.handlers, ∃ n, u = .handler n ∧ n < w.nextHandler
  handlers : ∀ u ∈ w.handlers, Lives G w u
  done : ∀ u, G u = .done → u ∈ w.finished
  cleanup : G .main = .halfway ∨ G .main = .serving → Lives G w .cleanup ∨ .cleanup ∈ w.finished
  reconcile : G .main = .serving → Lives G w .reconcile ∨ .reconcile ∈ w.finished

namespace LifeInv

variable {G : Tid → LifeStage}

/-- A task goes on, or another one changes the lists. -/
theorem move {g' : LifeStage} (h : LifeInv G w) (hmain : t = .main → g'.IsMain)
    (hother : t ≠ .main → g'.IsOther) (hinbox : ∀ item ∈ w.inbox, item ∈ w'.inbox ∨
      item.1 = t ∧ (t ≠ .main → g' = .alive))
    (halive : G t = .alive → g' = .alive ∨ t ∈ w'.finished ∧ t ∉ w'.handlers)
    (hfinished : w.finished ⊆ w'.finished) (hdone : g' = .done → t ∈ w'.finished)
    (hhandlers : ∀ u ∈ w'.handlers, u ∈ w.handlers ∨ ∃ request, (u, request) ∈ w'.inbox)
    (hnodup : w'.handlers.Nodup)
    (hbound : ∀ u ∈ w'.handlers, ∃ n, u = .handler n ∧ n < w'.nextHandler)
    (hcleanup : t = .main → g' = .halfway ∨ g' = .serving →
      (G t = .halfway ∨ G t = .serving) ∨ ∃ request, (.cleanup, request) ∈ w'.inbox)
    (hreconcile : t = .main → g' = .serving →
      G t = .serving ∨ ∃ request, (.reconcile, request) ∈ w'.inbox) :
    LifeInv (Function.update G t g') w' := by
  -- Another task lives on as before; task `t` lives on unless it ends.
  have hlives : ∀ {u}, u ≠ .main → Lives G w u → Lives (Function.update G t g') w' u ∨
      u = t ∧ t ∈ w'.finished ∧ t ∉ w'.handlers := by
    rintro u hne (hu | ⟨request, hmem⟩)
    · by_cases hut : u = t
      · subst hut
        refine (halive hu).imp (fun hg => .inl ?_) fun hend => ⟨rfl, hend⟩
        rw [Function.update_self, hg]
      · exact .inl (.inl (by rwa [Function.update_of_ne hut]))
    · rcases hinbox _ hmem with hold | ⟨rfl, hg⟩
      · exact .inl (.inr ⟨request, hold⟩)
      · exact .inl (.inl (by rw [Function.update_self, hg hne]))
  -- Hence nobody who lived or had ended is lost.
  have hpresent : ∀ {u}, u ≠ .main → Lives G w u ∨ u ∈ w.finished →
      Lives (Function.update G t g') w' u ∨ u ∈ w'.finished := by
    rintro u hne (hu | hu)
    · exact (hlives hne hu).imp_right fun ⟨heq, hend, _⟩ => heq ▸ hend
    · exact .inr (hfinished hu)
  refine ⟨?_, fun u hu => ?_, hnodup, hbound, fun u hu => ?_, fun u hu => ?_, fun hg => ?_,
    fun hg => ?_⟩
  · by_cases ht : t = .main
    · subst ht
      rw [Function.update_self]
      exact hmain rfl
    · rw [Function.update_of_ne (Ne.symm ht)]
      exact h.main
  · by_cases hut : u = t
    · subst hut
      rw [Function.update_self]
      exact hother hu
    · rw [Function.update_of_ne hut]
      exact h.other u hu
  -- A handler is an old one that lives on, or waits in the inbox.
  · rcases hhandlers u hu with hold | hnew
    · have hne : u ≠ .main := by
        obtain ⟨n, rfl, -⟩ := h.bound u hold
        simp
      rcases hlives hne (h.handlers u hold) with hu' | ⟨rfl, -, hnot⟩
      · exact hu'
      · exact absurd hu hnot
    · exact .inr hnew
  · by_cases hut : u = t
    · subst hut
      rw [Function.update_self] at hu
      exact hdone hu
    · rw [Function.update_of_ne hut] at hu
      exact hfinished (h.done u hu)
  · by_cases ht : t = .main
    · subst ht
      rw [Function.update_self] at hg
      rcases hcleanup rfl hg with hold | hnew
      · exact hpresent (by simp) (h.cleanup hold)
      · exact .inl (.inr hnew)
    · rw [Function.update_of_ne (Ne.symm ht)] at hg
      exact hpresent (by simp) (h.cleanup hg)
  · by_cases ht : t = .main
    · subst ht
      rw [Function.update_self] at hg
      rcases hreconcile rfl hg with hold | hnew
      · exact hpresent (by simp) (h.reconcile hold)
      · exact .inl (.inr hnew)
    · rw [Function.update_of_ne (Ne.symm ht)] at hg
      exact hpresent (by simp) (h.reconcile hg)

/-- Acts of tasks keep the invariant. -/
theorem step {e : Eff} (h : LifeInv G w) (hroll : RollChange t w w' e) :
    LifeInv (Function.update G t ((G t).goes e)) w' := by
  -- A task ends its stages with `taskDone` only.
  have hgoes : (G t).goes e = .done → t ∈ w.finished ∨ e = .sync .taskDone := fun hg =>
    (LifeStage.of_goes_done hg).imp_left (h.done t)
  have hmain : t = .main → ((G t).goes e).IsMain := by
    rintro rfl
    exact h.main.goes e
  have hother : t ≠ .main → ((G t).goes e).IsOther := fun ht => (h.other t ht).goes e
  -- `main` goes on to these stages by the creation of the loops themselves.
  have hcleanup : t = .main → (G t).goes e = .halfway ∨ (G t).goes e = .serving →
      (G t = .halfway ∨ G t = .serving) ∨ ∃ request, (.cleanup, request) ∈ w'.inbox := by
    refine fun _ hg => (LifeStage.of_goes_created hg).imp_right ?_
    rintro rfl
    obtain ⟨u, hruns, hmem⟩ := hroll.created
    obtain rfl : u = .cleanup := by cases u <;> first | rfl | cases hruns
    exact ⟨.cleanup, hmem⟩
  have hreconcile : t = .main → (G t).goes e = .serving →
      G t = .serving ∨ ∃ request, (.reconcile, request) ∈ w'.inbox := by
    refine fun _ hg => (LifeStage.of_goes_serving hg).imp_right ?_
    rintro rfl
    obtain ⟨u, hruns, hmem⟩ := hroll.created
    obtain rfl : u = .reconcile := by cases u <;> first | rfl | cases hruns
    exact ⟨.reconcile, hmem⟩
  cases hroll with
  -- A new task joins the inbox, and a new handler the set of handlers under the next number.
  | create request hinbox hhandlers hfinished hnext =>
    have hold : ∀ item ∈ w.inbox, item ∈ w'.inbox := by
      rw [hinbox]
      cases request <;> exact fun item => List.mem_append_left _
    refine h.move hmain hother (fun item hitem => .inl (hold item hitem))
      (fun hg => .inl (by rw [hg]; rfl)) (by rw [hfinished]; exact fun _ => id) (fun hg => ?_)
      (fun v hv => ?_) ?_ (fun v hv => ?_) hcleanup hreconcile
    · rw [hfinished]
      exact (hgoes hg).resolve_right (by simp)
    · rw [hhandlers] at hv
      cases request with
      | handle args =>
        rcases List.mem_cons.mp hv with rfl | hv
        · exact .inr ⟨.handle args, by rw [hinbox]; simp [World.create]⟩
        · exact .inl hv
      | _ => exact .inl hv
    · rw [hhandlers]
      cases request with
      | handle args =>
        refine List.nodup_cons.mpr ⟨fun hmem => ?_, h.nodup⟩
        obtain ⟨n, heq, hlt⟩ := h.bound _ hmem
        cases heq
        exact absurd hlt (lt_irrefl _)
      | _ => exact h.nodup
    · rw [hhandlers] at hv
      rw [hnext]
      cases request with
      | handle args =>
        rcases List.mem_cons.mp hv with rfl | hmem
        · exact ⟨_, rfl, Nat.lt_succ_self _⟩
        · obtain ⟨n, heq, hlt⟩ := h.bound v hmem
          exact ⟨n, heq, Nat.lt_succ_of_lt hlt⟩
      | _ => exact h.bound v hv
  -- The task that ends leaves the handlers and is finished.
  | done hinbox hhandlers hfinished hnext =>
    have hend : t ∈ w'.finished := by rw [hfinished]; simp
    have hnot : t ∉ w'.handlers := by
      rw [hhandlers]
      exact h.nodup.not_mem_erase
    have hsub : ∀ v ∈ w'.handlers, v ∈ w.handlers := by
      rw [hhandlers]
      exact fun v => List.mem_of_mem_erase
    exact h.move hmain hother (fun item hitem => .inl (hinbox ▸ hitem)) (fun _ => .inr ⟨hend, hnot⟩)
      (by rw [hfinished]; exact List.subset_cons_self _ _) (fun _ => hend)
      (fun v hv => .inl (hsub v hv)) (hhandlers ▸ h.nodup.erase t)
      (fun v hv => hnext ▸ h.bound v (hsub v hv)) hcleanup hreconcile
  | still hcreate hne hinbox hhandlers hfinished hnext =>
    exact h.move hmain hother (fun item hitem => .inl (hinbox ▸ hitem))
      (fun hg => .inl (by rw [hg, LifeStage.goes_alive hne])) (by rw [hfinished]; exact fun _ => id)
      (fun hg => hfinished ▸ (hgoes hg).resolve_right hne) (fun v hv => .inl (hhandlers ▸ hv))
      (hhandlers ▸ h.nodup) (fun v hv => hnext ▸ h.bound v (hhandlers ▸ hv)) hcleanup hreconcile

/-- The world changes elsewhere. -/
theorem of_same (h : LifeInv G w) (hinbox : w'.inbox = w.inbox)
    (hhandlers : w'.handlers = w.handlers) (hfinished : w'.finished = w.finished)
    (hnext : w'.nextHandler = w.nextHandler) : LifeInv G w' := by
  have hstill : LifeInv (Function.update G .main ((G .main).goes (.sync .uuid4))) w' :=
    h.step (.still (by simp) (by simp) hinbox hhandlers hfinished hnext)
  have hgoes : ∀ g : LifeStage, g.goes (.sync .uuid4) = g := fun g => by cases g <;> rfl
  rwa [hgoes, Function.update_eq_self] at hstill

/-- A task starts. -/
theorem start {n : Nat} {request : Request} (h : LifeInv G w)
    (hitem : w.inbox[n]? = some (t, request)) (hruns : request.runsAs t = true)
    (habsent : G t = .absent) :
    LifeInv (Function.update G t (LifeStage.first request))
      { w with inbox := w.inbox.eraseIdx n } := by
  -- A task starts alive, and `main` starts booting.
  have hfirst : t ≠ .main → LifeStage.first request = .alive := by
    intro ht
    cases request with
    | main => cases t <;> contradiction
    | _ => rfl
  have hmain : t = .main → LifeStage.first request = .booting := by
    rintro rfl
    cases request <;> first | rfl | cases hruns
  refine h.move (fun ht => ?_) (fun ht => .inr (.inl (hfirst ht))) (fun item hmem => ?_) ?_
    (fun _ => id) (fun hg => ?_) (fun u => .inl) h.nodup h.bound (fun ht hg => ?_) fun ht hg => ?_
  · rw [hmain ht]
    simp [LifeStage.IsMain]
  -- The request that was taken from the inbox is that of `t`; the others stay.
  · obtain ⟨i, hi⟩ := List.mem_iff_getElem?.mp hmem
    by_cases hin : i = n
    · subst hin
      obtain rfl := Option.some.inj (hi.symm.trans hitem)
      exact .inr ⟨rfl, hfirst⟩
    · exact .inl (List.mem_eraseIdx_iff_getElem?.mpr ⟨i, hin, hi⟩)
  · simp [habsent]
  · by_cases ht : t = .main
    · rw [hmain ht] at hg
      cases hg
    · rw [hfirst ht] at hg
      cases hg
  · rw [hmain ht] at hg
    simp at hg
  · rw [hmain ht] at hg
    cases hg

/-- No task runs, and none is waited for. -/
theorem idle (hhandlers : w.handlers = []) : LifeInv (fun _ => .absent) w where
  main := by simp [LifeStage.IsMain]
  other _ _ := .inl rfl
  nodup := by simp [hhandlers]
  bound := by simp [hhandlers]
  handlers := by simp [hhandlers]
  done := by simp
  cleanup := by simp
  reconcile := by simp

end LifeInv

/-- In every run, the tasks that are waited for are alive, in the inbox or have ended. -/
def lifeInvariant (config : MatrixDispatcher.Config) (allow : World → Step → Prop) :
    Invariant (lifeCoverage config).supervision allow where
  inv := LifeInv
  effect := by
    intro G w w' t e a r g' _ hinv _ _ hexec hnext
    obtain ⟨-, rfl⟩ := of_life_next hnext
    exact hinv.step (exec_roll hexec)
  finish := by
    intro G w t _ hinv hfinal
    refine hinv.move (fun _ => ?_) (fun _ => .inl rfl) (fun _ => .inl) (fun hg => absurd hg hfinal)
      (fun _ => id) ?_ (fun _ => .inl) hinv.nodup hinv.bound ?_ ?_ <;>
      simp [lifeMonitor, LifeStage.IsMain]
  env := by
    intro G w w' a _ hinv _ henv
    obtain ⟨m, -, hmoved⟩ := env_eq henv
    have hsame := (moved_same hmoved).2
    exact hinv.of_same (hsame .inbox (by decide) (by decide) (by decide) (by decide))
      (hsame .handlers (by decide) (by decide) (by decide) (by decide))
      (hsame .finished (by decide) (by decide) (by decide) (by decide))
      (hsame .nextHandler (by decide) (by decide) (by decide) (by decide))
  start := by
    intro G w w' t fiber a hgood hinv _ hstart habsent
    obtain ⟨n, request, rfl, hitem, -, rfl⟩ := start_eq hstart
    have henter : (lifeCoverage config).supervision.enter (.pick n) w = LifeStage.first request :=
      (lifeCoverage config).entered_eq hitem
    rw [henter]
    exact hinv.start hitem (hgood _ (List.mem_of_getElem? hitem)).2 habsent
  crash := by
    intro G w w' a _ _ _ hcrash
    obtain ⟨-, rfl⟩ := crash_eq hcrash
    exact .idle rfl

/-! ## The lines -/

section

variable {a : Answer} {e : Eff} {r : e.Ret} {room : RoomId} {got : Bool}

/-- Who waits for a lock. -/
theorem TurnAct.lockWait_of (h : TurnAct.of e r = .waitLock room got) :
    e = .await (.lockWait room) := by
  cases e with
  | sync e =>
    cases e with
    | execute s => cases s <;> cases r <;> cases h
    | createTask request => cases request <;> cases h
    | kill _ => cases r <;> cases h
    | mark m => cases m <;> cases h
    | _ => cases h
  | await e =>
    cases e with
    | lockWait _ => cases r <;> cases h <;> rfl
    | communicate _ _ | wait _ =>
      rcases r with x | _
      · cases x <;> cases h
      · cases h
    | fetchPending _ _ | exec _ _ _ _ | pause => cases r <;> cases h
    | _ => cases h

/-- Whoever gets a lock has asked for it. -/
theorem lockOwner_of_exec (h : exec t a e w = some (r, w'))
    (howner : (w'.locks room).owner = some u) :
    (w.locks room).owner = some u ∨ u = t ∧ e.locks = true := by
  have hlocks := (exec_turn h).locks
  generalize hact : TurnAct.of e r = act at hlocks
  -- A change of one lock says nothing about the others.
  have hupdate : ∀ {room' l}, w'.locks = Function.update w.locks room' l →
      (l.owner = some u → (w.locks room').owner = some u ∨ u = t ∧ e.locks = true) →
      (w.locks room).owner = some u ∨ u = t ∧ e.locks = true := by
    intro room' l hlocks hl
    rw [hlocks] at howner
    by_cases hroom : room = room'
    · subst hroom
      rw [Function.update_self] at howner
      exact hl howner
    · rw [Function.update_of_ne hroom] at howner
      exact .inl howner
  -- A new owner is the task that takes the lock or is done waiting for it.
  cases act with
  | tryLock room' got =>
    have hlock : e.locks = true := by
      obtain rfl := TurnAct.lockTry_of hact
      rfl
    cases got with
    | true => exact hupdate hlocks fun heq => .inr ⟨(Option.some.inj heq).symm, hlock⟩
    | false => exact hupdate hlocks .inl
  | waitLock room' got =>
    have hlock : e.locks = true := by
      obtain rfl := TurnAct.lockWait_of hact
      rfl
    cases got with
    | true => exact hupdate hlocks fun heq => .inr ⟨(Option.some.inj heq).symm, hlock⟩
    | false => exact hupdate hlocks .inl
  | release room' => exact hupdate hlocks (by simp)
  | _ =>
    rw [hlocks] at howner
    exact .inl howner

end

/-- `main` has no room lock. -/
def lockless (config : MatrixDispatcher.Config) (allow : World → Step → Prop) :
    (lifeInvariant config allow).Extension where
  inv _ w := ∀ room, (w.locks room).owner ≠ some .main
  effect := by
    intro G w w' t e a r g' _ hlife _ hinv _ _ hexec hnext room howner
    rcases lockOwner_of_exec hexec howner with hold | ⟨rfl, hlocks⟩
    · exact hinv room hold
    · -- `main` does not ask for a lock
      obtain ⟨haccepts, -⟩ := of_life_next hnext
      obtain ⟨halive, hdone⟩ := hlife.main
      generalize G .main = g at haccepts halive hdone
      cases g <;> simp_all [LifeStage.accepts]
  finish _ hinv _ := hinv
  env := by
    intro G w w' a _ _ hinv _ henv
    obtain ⟨m, -, hmoved⟩ := env_eq henv
    have hlocks : w'.locks = w.locks :=
      (moved_same hmoved).2 .locks (by decide) (by decide) (by decide) (by decide)
    rwa [hlocks]
  start := by
    intro G w w' t fiber a _ _ hinv _ hstart _
    obtain ⟨n, request, -, -, -, rfl⟩ := start_eq hstart
    exact hinv
  crash := by
    intro G w w' a _ _ _ hcrash room
    obtain ⟨-, rfl⟩ := crash_eq hcrash
    simp [World.crashed, World.initial, Lock.free]

/-- Where a task stands in a line. -/
inductive WaitStage where
  | free
  | waiting (roomId : RoomId)

/-- Whoever is in a line does nothing but wait. -/
def WaitStage.step : WaitStage → TurnAct → Option WaitStage
  | .free, .tryLock room false => some (.waiting room)
  | .free, .waitLock _ _ => none
  | .free, _ => some .free
  | .waiting room, .waitLock room' _ => if room' = room then some .free else none
  | .waiting _, _ => none

/-- The discipline of lines, as a monitor. -/
def waitMonitor : Monitor Eff Eff.Ret WaitStage where
  next g e r := g.step (TurnAct.of e r)
  atomic _ := false
  final g := g = .free
  idle := .free
  atomic_idle := rfl

theorem wait_ignores {e : Eff} (h : e.locks = false) : waitMonitor.Ignores .free e := by
  intro r
  change WaitStage.step .free (TurnAct.of e r) = some .free
  rw [WaitStage.step.eq_def]
  split
  · next hact =>
    obtain rfl := TurnAct.lockTry_of hact
    cases h
  · next hact =>
    obtain rfl := TurnAct.lockWait_of hact
    cases h
  · rfl
  · next heq _ => cases heq
  · next heq _ => cases heq

/-- The only place at which a task stands in a line is where it acquires a lock. -/
theorem waitCircuit : Circuit waitMonitor .free where
  calm := rfl
  final := rfl
  ignores := by
    intro e he
    refine wait_ignores ?_
    cases e with
    | sync e => cases e <;> first | rfl | cases he
    | await e => cases e <;> first | rfl | cases he
  write _ _ := Monitor.Follows.of_performs
    (performsE_bind (performsE_execute (wait_ignores rfl)) fun _ =>
      performsE_commit (wait_ignores rfl)) rfl
  -- The cleanup asks for no lock.
  cleanup := by
    refine Monitor.Follows.of_performs ((still_runCleanup _).mono fun e he => wait_ignores ?_) rfl
    cases e with
    | sync e => cases e <;> first | rfl | cases he.1
    | await e => cases e <;> first | rfl | cases he.1
  -- The task asks once, and waits if the lock is held.
  acquire := by
    intro room
    refine Follows.sync_bind fun got => ?_
    cases got with
    | true => exact ⟨.free, rfl, rfl⟩
    | false =>
      refine ⟨.waiting room, rfl, Follows.await rfl fun r => ⟨.free, ?_, rfl⟩⟩
      cases r <;> exact if_pos rfl

/-- The tasks in the line of a lock wait for this lock, each of them once. -/
def QueueInv (G : Tid → WaitStage) (w : World) : Prop :=
  ∀ room, (w.locks room).waiters.Nodup ∧ ∀ u ∈ (w.locks room).waiters, G u = .waiting room

namespace QueueInv

variable {G : Tid → WaitStage} {g' : WaitStage}

/-- A task that stands in no line goes on, and the lines stay. -/
theorem still (h : QueueInv G w) (hlocks : w'.locks = w.locks) (hfree : G t = .free) :
    QueueInv (Function.update G t g') w' := by
  intro room
  rw [hlocks]
  refine ⟨(h room).1, fun u hu => ?_⟩
  have hut : u ≠ t := by
    rintro rfl
    rw [(h room).2 u hu] at hfree
    cases hfree
  rw [Function.update_of_ne hut]
  exact (h room).2 u hu

/-- A task goes on, and one line changes. -/
theorem move {room : RoomId} {l : Lock} (h : QueueInv G w)
    (hlocks : w'.locks = Function.update w.locks room l)
    (hstage : G t = .free ∨ G t = .waiting room) (hnodup : l.waiters.Nodup)
    (hself : t ∈ l.waiters → g' = .waiting room)
    (hsub : ∀ u, u ≠ t → u ∈ l.waiters → u ∈ (w.locks room).waiters) :
    QueueInv (Function.update G t g') w' := by
  intro room'
  rw [hlocks]
  -- Only this room's lock changes.
  by_cases hroom : room' = room
  · subst hroom
    rw [Function.update_self]
    refine ⟨hnodup, fun u hu => ?_⟩
    by_cases hut : u = t
    · subst hut
      rw [Function.update_self]
      exact hself hu
    · rw [Function.update_of_ne hut]
      exact (h room').2 u (hsub u hut hu)
  · rw [Function.update_of_ne hroom]
    refine ⟨(h room').1, fun u hu => ?_⟩
    -- Who waits in another room is not `t`, which waits in this one or nowhere.
    have hut : u ≠ t := by
      rintro rfl
      rw [(h room').2 u hu] at hstage
      rcases hstage with hfree | hwaiting
      · cases hfree
      · exact hroom (by injection hwaiting)
    rw [Function.update_of_ne hut]
    exact (h room').2 u hu

/-- Acts of tasks keep the lines. -/
theorem step {act : TurnAct} (h : QueueInv G w) (hact : TurnChange t act w w')
    (hstep : (G t).step act = some g') : QueueInv (Function.update G t g') w' := by
  have hlocks := hact.locks
  have hguard := hact.guard
  generalize hg : G t = g at hstep
  cases g with
  | free =>
    have hnot : ∀ room, t ∉ (w.locks room).waiters := by
      intro room hmem
      rw [(h room).2 t hmem] at hg
      cases hg
    cases act with
    | tryLock room got =>
      cases got with
      | true =>
        exact h.move hlocks (.inl hg) List.nodup_nil (fun hmem => by cases hmem)
          fun u _ hu => by cases hu
      | false =>
        refine h.move hlocks (.inl hg) ?_ (fun _ => ?_) fun u hu hmem => ?_
        · exact (h room).1.append (List.nodup_singleton t) (by simpa using hnot room)
        · exact (Option.some.inj hstep).symm
        · exact (List.mem_append.mp hmem).resolve_right (by simpa using hu)
    | waitLock room got => cases hstep
    | release room =>
      exact h.move hlocks (.inl hg) (h room).1 (fun hmem => absurd hmem (hnot room)) fun _ _ => id
    | _ => exact h.still hlocks hg
  | waiting room =>
    cases act with
    | waitLock room' got =>
      obtain ⟨rfl, -⟩ := Option.ite_none_right_eq_some.mp hstep
      cases got with
      | true =>
        obtain ⟨ws, hws⟩ := List.head?_eq_some_iff.mp hguard.2
        have hnodup := (h room').1
        rw [hws, List.nodup_cons] at hnodup
        rw [TurnAct.locks, hws, List.tail_cons] at hlocks
        refine h.move hlocks (.inr hg) hnodup.2 (fun hmem => absurd hmem hnodup.1) fun u _ hu => ?_
        rw [hws]
        exact List.mem_cons_of_mem _ hu
      | false =>
        exact h.move hlocks (.inr hg) ((h room').1.erase t)
          (fun hmem => absurd hmem (h room').1.not_mem_erase) fun u _ => List.mem_of_mem_erase
    | _ => cases hstep

/-- There are no lines. -/
theorem idle (hlocks : ∀ room, w.locks room = .free) : QueueInv G w := by
  intro room
  rw [hlocks]
  exact ⟨List.nodup_nil, fun u hu => by cases hu⟩

end QueueInv

/-- In every run, whoever is in the line of a lock stands at the wait for this lock. -/
def queueInvariant (config : MatrixDispatcher.Config) (allow : World → Step → Prop) :
    Invariant (waitCircuit.coverage config).supervision allow where
  inv := QueueInv
  effect _ hinv _ _ hexec hnext := hinv.step (exec_turn hexec) hnext
  finish _ hinv hfinal := hinv.still rfl hfinal
  env := by
    intro G w w' a _ hinv _ henv
    obtain ⟨m, -, hmoved⟩ := env_eq henv
    have hlocks : w'.locks = w.locks :=
      (moved_same hmoved).2 .locks (by decide) (by decide) (by decide) (by decide)
    intro room
    rw [hlocks]
    exact hinv room
  start := by
    intro G w w' t fiber a _ hinv _ hstart hidle
    obtain ⟨n, request, -, -, -, rfl⟩ := start_eq hstart
    exact hinv.still rfl hidle
  crash := by
    intro G w w' a _ _ _ hcrash
    obtain ⟨-, rfl⟩ := crash_eq hcrash
    exact .idle fun _ => rfl

/-! ## Who waits for whom -/

/-- The operation waits for something outside of the process, or for time to pass. -/
def AwaitEff.outward : AwaitEff → Bool
  | .lockWait _ | .join _ | .gather | .gatherCancelled => false
  | _ => true

variable {c : Machine.Config Tid Eff Eff.Ret World}

/-- A task waits for another one. -/
inductive WaitsFor (c : Machine.Config Tid Eff Eff.Ret World) (t u : Tid) : Prop
  /-- Another task has the lock. -/
  | owner {room : RoomId} (hnext : c.next t = some (.await (.lockWait room)))
      (howner : (c.world.locks room).owner = some u)
  /-- The lock is free, and another task is the first in line. -/
  | line {room : RoomId} (hnext : c.next t = some (.await (.lockWait room)))
      (howner : (c.world.locks room).owner = none)
      (hhead : (c.world.locks room).waiters.head? = some u) (hne : u ≠ t)
  /-- A loop has not ended. -/
  | loop (hnext : c.next t = some (.await (.join u))) (hfinished : u ∉ c.world.finished)
  /-- A handler has not ended. -/
  | handler {e : Eff} (hnext : c.next t = some e) (hgathers : e.gathers = true)
      (hhandler : u ∈ c.world.handlers)

/-- The task runs, or it is about to start. -/
def Present (c : Machine.Config Tid Eff Eff.Ret World) (t : Tid) : Prop :=
  c.tasks t ≠ none ∨ ∃ request, (t, request) ∈ c.world.inbox

/-- The task waits for none of the others. -/
inductive CanGoOn (config : MatrixDispatcher.Config) (c : Machine.Config Tid Eff Eff.Ret World)
    (t : Tid) : Prop
  /-- It waits for something outside of the process. -/
  | outside {e : AwaitEff} (hnext : c.next t = some (.await e)) (h : e.outward = true)
  /-- It makes a step. -/
  | step {c' : Machine.Config Tid Eff Eff.Ret World}
      (hstep : (dispatcher config).step c (.task t .done) = some c')
  /-- It starts. -/
  | start {n : Nat} {c' : Machine.Config Tid Eff Eff.Ret World} (hnew : c.tasks t = none)
      (hstep : (dispatcher config).step c (.start (.pick n)) = some c') (htask : c'.tasks t ≠ none)

/-- How many tasks follow each other in a wait of the task. -/
def waitRank (c : Machine.Config Tid Eff Eff.Ret World) (t : Tid) : Nat :=
  match c.next t with
  | some (.await (.lockWait room)) =>
    if (c.world.locks room).owner = none ∧ (c.world.locks room).waiters.head? = some t then 0 else 1
  | some (.await (.join _)) | some (.await .gather) | some (.await .gatherCancelled) => 2
  | _ => 0

/-! ## The tasks when nobody has the processor -/

theorem task_of_next {e : Eff} (hnext : c.next t = some e) : c.tasks t ≠ none := by
  intro hnone
  rw [Machine.Config.next, hnone] at hnext
  cases hnext

/-- In every run, the tasks without the processor stand at effects that await. -/
theorem parked_of_reaches {allow : World → Step → Prop} (h : Reaches config allow c) :
    c.Parked Eff.awaits := by
  refine Machine.Reachable.parked (S := dispatcher config) ?_ h
  intro a w t fiber w' hstart
  obtain ⟨n, request, -, -, rfl, -⟩ := start_eq hstart
  cases request <;> rfl

section

variable {allow : World → Step → Prop} (h : Reaches config allow c) (hidle : c.running = none)
  {room : RoomId}

include h hidle

/-- Every task awaits something. -/
theorem next_of_task (htask : c.tasks t ≠ none) : ∃ e, c.next t = some (.await e) := by
  obtain ⟨fiber, hfiber⟩ := Option.ne_none_iff_exists'.mp htask
  obtain ⟨e, habout, hawaits⟩ := (parked_of_reaches h).about hidle hfiber
  cases e with
  | sync e => cases hawaits
  | await e => exact ⟨e, (Machine.Config.about_iff.mp habout).2⟩

/-- Whoever awaits a lock is in its line. -/
theorem waits_of_next (hnext : c.next t = some (.await (.lockWait room))) :
    t ∈ (c.world.locks room).waiters := by
  obtain ⟨G, hlock, haccept⟩ := locks_about h (Machine.Config.about_iff.mpr ⟨.inl hidle, hnext⟩)
  obtain ⟨g', hstep⟩ := haccept (.ok ())
  refine ((hlock room).waiter t).mpr ?_
  change TurnStep config (G t) (.waitLock room true) g' at hstep
  generalize G t = g at hstep
  cases hstep
  rfl

/-- Whoever is in the line of a lock awaits it. -/
theorem next_of_waits (hwaits : t ∈ (c.world.locks room).waiters) :
    c.next t = some (.await (.lockWait room)) := by
  obtain ⟨G, htracked, -, hqueue⟩ := (queueInvariant config allow).tracked h
    (waitCircuit.coverage config).good_initial (.idle fun _ => rfl) (.ofWorld World.initial)
  have hstage := (hqueue room).2 t hwaits
  have htask : c.tasks t ≠ none := by
    intro hnone
    have hfree := htracked.idle t hnone
    rw [hstage] at hfree
    cases hfree
  obtain ⟨e, hnext⟩ := next_of_task h hidle htask
  -- nothing but the wait is accepted
  obtain ⟨g', haccept⟩ := htracked.accepts (Machine.Config.about_iff.mpr ⟨.inl hidle, hnext⟩)
    (.error .cancelledError)
  change (G t).step (TurnAct.of (.await e) (.error .cancelledError)) = some g' at haccept
  rw [hstage] at haccept
  generalize hact : TurnAct.of (.await e) (.error .cancelledError) = act at haccept
  cases act with
  | waitLock room' got =>
    obtain ⟨rfl, -⟩ := Option.ite_none_right_eq_some.mp haccept
    rw [hnext, TurnAct.lockWait_of hact]
  | _ => cases haccept

/-- The owner of a lock is a task that waits for no lock. -/
theorem owner_stands (howner : (c.world.locks room).owner = some u) :
    c.tasks u ≠ none ∧ ∀ room', c.next u ≠ some (.await (.lockWait room')) := by
  obtain ⟨G, htracked, -, hlock⟩ := (lockInvariant config allow).tracked h
    (turnCoverage config).good_initial (.idle fun _ => rfl) (.ofWorld World.initial)
  have hholds := ((hlock room).owner u).mp howner
  refine ⟨fun hnone => ?_, fun room' hnext => ?_⟩
  · rw [htracked.idle u hnone] at hholds
    cases hholds
  · have hwaits := waits_of_next h hidle hnext
    obtain ⟨G', hlock', -⟩ := locks_about h (Machine.Config.about_iff.mpr ⟨.inl hidle, hnext⟩)
    have hwaiting := ((hlock' room').waiter u).mp hwaits
    rw [TurnStage.waits?_of_room? (((hlock' room).owner u).mp howner)] at hwaiting
    cases hwaiting

/-- Only `main` waits for the end of others: for a loop that runs, is about to start or has ended,
or for the handlers, which run or are about to start. And `main` has no lock. -/
theorem main_waits : (∀ room, (c.world.locks room).owner ≠ some .main) ∧
    (∀ t u, c.next t = some (.await (.join u)) →
      t = .main ∧ u ≠ .main ∧ (Present c u ∨ u ∈ c.world.finished)) ∧
    (∀ t e, c.next t = some e → e.gathers = true → t = .main) ∧
    ∀ u ∈ c.world.handlers, u ≠ .main ∧ Present c u := by
  obtain ⟨G, htracked, -, hlife, hlockless⟩ :=
    ((lifeInvariant config allow).extend (lockless config allow)).tracked h
      (lifeCoverage config).good_initial ⟨.idle rfl, fun _ howner => by cases howner⟩
      (.ofWorld World.initial)
  -- Who lives runs or is about to start.
  have hpresent : ∀ {u}, Lives G c.world u → Present c u := by
    rintro u (halive | hinbox)
    · refine .inl fun hnone => ?_
      rw [htracked.idle u hnone] at halive
      cases halive
    · exact .inr hinbox
  -- What a task waits for is accepted in its stage, even if it is cancelled there.
  have haccepts : ∀ {t e}, c.next t = some e → (G t).accepts e = true := by
    intro t e hnext
    obtain ⟨e, rfl⟩ : ∃ e', e = .await e' := by
      obtain ⟨e', he'⟩ := next_of_task h hidle (task_of_next hnext)
      exact ⟨e', Option.some.inj (hnext.symm.trans he')⟩
    obtain ⟨g', hnext'⟩ := htracked.accepts (Machine.Config.about_iff.mpr ⟨.inl hidle, hnext⟩)
      (.error .cancelledError)
    exact (of_life_next hnext').1
  -- Only the stage `serving` accepts these waits, and only `main` is ever in it.
  have hserving : ∀ {t e}, c.next t = some e → e.gathers = true ∨ e.joins?.isSome = true →
      G t = .serving ∧ t = .main := by
    intro t e hnext hwaits
    have haccept := haccepts hnext
    have hstage : G t = .serving := by
      cases hg : G t with
      | serving => rfl
      | _ =>
        rw [hg] at haccept
        rcases hwaits with hgathers | hjoins
        · simp [LifeStage.accepts, hgathers] at haccept
        · obtain ⟨u, hu⟩ := Option.isSome_iff_exists.mp hjoins
          simp [LifeStage.accepts, hu] at haccept
    refine ⟨hstage, ?_⟩
    by_contra hne
    have hother := hlife.other t hne
    simp [hstage, LifeStage.IsOther] at hother
  refine ⟨hlockless, fun t u hnext => ?_, fun t e hnext hgathers => ?_, fun u hu => ?_⟩
  -- The loops were created before `main` came to serve.
  · obtain ⟨hstage, rfl⟩ := hserving hnext (.inr rfl)
    have haccept := haccepts hnext
    rw [hstage] at haccept
    have hloop : u = .cleanup ∨ u = .reconcile := by
      simpa [LifeStage.accepts, Eff.joins?, Eff.locks] using haccept
    rcases hloop with rfl | rfl
    · exact ⟨rfl, by simp, (hlife.cleanup (.inr hstage)).imp_left hpresent⟩
    · exact ⟨rfl, by simp, (hlife.reconcile hstage).imp_left hpresent⟩
  · exact (hserving hnext (.inl hgathers)).2
  · obtain ⟨n, rfl, -⟩ := hlife.bound u hu
    exact ⟨by simp, hpresent (hlife.handlers _ hu)⟩

/-- Only `main` waits for somebody who waits for a lock. -/
theorem waitRank_le_one (hne : u ≠ .main) : waitRank c u ≤ 1 := by
  obtain ⟨-, hjoins, hgathers, -⟩ := main_waits h hidle
  rw [waitRank.eq_def]
  split
  · split <;> omega
  · next hnext => exact absurd (hjoins u _ hnext).1 hne
  · next hnext => exact absurd (hgathers u _ hnext rfl) hne
  · next hnext => exact absurd (hgathers u _ hnext rfl) hne
  · omega

/-- Whoever has a lock waits for none of the others. -/
theorem waitRank_owner (howner : (c.world.locks room).owner = some u) : waitRank c u = 0 := by
  obtain ⟨-, hwaits⟩ := owner_stands h hidle howner
  obtain ⟨hlockless, hjoins, hgathers, -⟩ := main_waits h hidle
  have hne : u ≠ .main := by
    rintro rfl
    exact hlockless room howner
  rw [waitRank.eq_def]
  split
  · next hnext => exact absurd hnext (hwaits _)
  · next hnext => exact absurd (hjoins u _ hnext).1 hne
  · next hnext => exact absurd (hgathers u _ hnext rfl) hne
  · next hnext => exact absurd (hgathers u _ hnext rfl) hne
  · rfl

/-- A wait leads to a task of lower rank. -/
theorem waitRank_lt (hwaits : WaitsFor c t u) : waitRank c u < waitRank c t := by
  obtain ⟨-, hjoins, hgathers, hhandlers⟩ := main_waits h hidle
  cases hwaits with
  | owner hnext howner =>
    rw [waitRank_owner h hidle howner, waitRank.eq_def, hnext]
    simp [howner]
  -- The first in line of a free lock is the only one of rank 0 there.
  | line hnext howner hhead hne =>
    have hu := next_of_waits h hidle (List.mem_of_mem_head? hhead)
    rw [waitRank.eq_def, waitRank.eq_def, hnext, hu]
    simp [howner, hhead, hne]
  -- `main` is of rank 2, and nobody else is above 1.
  | loop hnext =>
    have hle := waitRank_le_one h hidle (hjoins t u hnext).2.1
    rw [waitRank.eq_def c t, hnext]
    exact Nat.lt_succ_of_le hle
  | @handler e hnext hgather hhandler =>
    have hle := waitRank_le_one h hidle (hhandlers u hhandler).1
    rw [waitRank.eq_def c t, hnext]
    cases e with
    | sync e => cases hgather
    | await e => cases e <;> first | exact Nat.lt_succ_of_le hle | cases hgather

/-- Whoever is waited for runs, or is about to start. -/
theorem present_of_waitsFor (hwaits : WaitsFor c t u) : Present c u := by
  obtain ⟨-, hjoins, -, hhandlers⟩ := main_waits h hidle
  cases hwaits with
  | owner _ howner => exact .inl (owner_stands h hidle howner).1
  | line _ _ hhead =>
    exact .inl (task_of_next (next_of_waits h hidle (List.mem_of_mem_head? hhead)))
  | loop hnext hfinished => exact (hjoins t u hnext).2.2.resolve_right hfinished
  | handler _ _ hhandler => exact (hhandlers u hhandler).2

omit h in
/-- An operation of the process itself succeeds, or the task is cancelled. -/
theorem canGoOn_of_operation {e : AwaitEff} (hnext : c.next t = some (.await e))
    (hoperation : (execOperation t .done c.world e).isSome = true) : CanGoOn config c t := by
  have hexec : (exec t .done (.await e) c.world).isSome = true := by
    by_cases hcancelled : t ∈ c.world.cancelled
    · simp [exec, execQuietly, execAwait, hcancelled]
    · simp [exec, execQuietly, execAwait, hcancelled, hoperation]
  obtain ⟨⟨r, w⟩, hexec⟩ := Option.isSome_iff_exists.mp hexec
  obtain ⟨hfree, ⟨State, prog, round⟩, k, htask, hop⟩ :=
    (Machine.Config.about_iff.mpr ⟨.inl hidle, hnext⟩ : c.About t (.await e))
  dsimp only at hop
  rw [hop] at htask
  exact .step (Machine.step_op (S := dispatcher config) hfree htask hexec)

/-- A task waits for another one, or it can go on. -/
theorem canGoOn_or_waits (hpresent : Present c t) : CanGoOn config c t ∨ ∃ u, WaitsFor c t u := by
  by_cases htask : c.tasks t = none
  · -- the task is in the inbox
    obtain ⟨request, hmem⟩ := hpresent.resolve_left fun hne => hne htask
    obtain ⟨n, hitem⟩ := List.mem_iff_getElem?.mp hmem
    have hstep : (dispatcher config).step c (.start (.pick n)) =
        some ⟨{ c.world with inbox := c.world.inbox.eraseIdx n },
          Function.update c.tasks t (some (taskOf config request)), c.running⟩ := by
      simp [Machine.step, dispatcher, hitem, htask]
    exact .inl (.start htask hstep (by simp))
  obtain ⟨e, hnext⟩ := next_of_task h hidle htask
  by_cases houtward : e.outward = true
  · exact .inl (.outside hnext houtward)
  cases e with
  -- A free lock goes to the first in line: the task itself or the one that it waits for.
  | lockWait room =>
    cases howner : (c.world.locks room).owner with
    | some u => exact .inr ⟨u, .owner hnext howner⟩
    | none =>
      have hwaits := waits_of_next h hidle hnext
      obtain ⟨u, hhead⟩ := Option.isSome_iff_exists.mp
        (List.isSome_head?.mpr (List.ne_nil_of_mem hwaits))
      by_cases hut : u = t
      · subst hut
        refine .inl (canGoOn_of_operation hidle hnext ?_)
        rw [execOperation, if_pos ⟨howner, hhead⟩]
        rfl
      · exact .inr ⟨u, .line hnext howner hhead hut⟩
  | join u =>
    by_cases hfinished : u ∈ c.world.finished
    · refine .inl (canGoOn_of_operation hidle hnext ?_)
      rw [execOperation, if_pos hfinished]
      rfl
    · exact .inr ⟨u, .loop hnext hfinished⟩
  -- With no handlers left, there is nothing to wait for.
  | gather =>
    cases hhandlers : c.world.handlers with
    | nil =>
      refine .inl (canGoOn_of_operation hidle hnext ?_)
      simp [execOperation, hhandlers]
    | cons u us => exact .inr ⟨u, .handler hnext rfl (by simp [hhandlers])⟩
  | gatherCancelled =>
    cases hhandlers : c.world.handlers with
    | nil =>
      refine .inl (canGoOn_of_operation hidle hnext ?_)
      simp [execOperation, hhandlers]
    | cons u us => exact .inr ⟨u, .handler hnext rfl (by simp [hhandlers])⟩
  | _ => exact absurd rfl houtward

end

/-- The dispatcher has no deadlock. In every configuration that a run reaches, when nobody has the
processor, no waits lead round or on without end, and from each task they lead to one that can go
on by itself. -/
theorem no_deadlock {allow : World → Step → Prop} (h : Reaches config allow c)
    (hidle : c.running = none) :
    WellFounded (fun u t => WaitsFor c t u) ∧
      ∀ t, Present c t → ∃ u, Relation.ReflTransGen (WaitsFor c) t u ∧ CanGoOn config c u := by
  have hwf : WellFounded fun u t => WaitsFor c t u :=
    Subrelation.wf (fun hwaits => waitRank_lt h hidle hwaits) (measure (waitRank c)).wf
  exact ⟨hwf, exists_able hwf (fun _ => present_of_waitsFor h hidle)
    (canGoOn_or_waits h hidle)⟩

/-! ## Scenarios -/

/-- `main` is interrupted while one handler has the lock, another one waits for it, and a third one
is about to start. It joins the loops and waits for the handlers. -/
def closing : List Cue :=
  lining ++
    [.move .interrupt, .go .main 3, .step (.start (.pick 0)), .go .cleanup 3, .go .main 2,
      .step (.start (.pick 0)), .go .reconcile 3, .go .main 7]

/-- The next effect of the task waits for the handlers. -/
def isGathering : Option Eff → Bool
  | some (.await .gather) => true
  | _ => false

theorem no_deadlock_closing : ∃ c, Reaches oneAgent (fun _ _ => True) c ∧ c.running = none ∧
    WaitsFor c .main (.handler 2) ∧ (c.world.locks (lit "!room")).owner = some (.handler 1) ∧
    WellFounded (fun u t => WaitsFor c t u) ∧
    ∀ t, Present c t → ∃ u, Relation.ReflTransGen (WaitsFor c) t u ∧ CanGoOn oneAgent c u := by
  obtain ⟨c, h, hgoal⟩ := reaches_of_play oneAgent closing
    (fun c => c.running.isNone && isGathering (c.next .main) &&
      decide (.handler 2 ∈ c.world.handlers) && holdsLock (lit "!room") (.handler 1) c)
    (fun _ _ (_ : true = true) => trivial) (by decide +kernel)
  simp only [Bool.and_eq_true, decide_eq_true_eq] at hgoal
  obtain ⟨⟨⟨hidle, hgathering⟩, hhandler⟩, howner⟩ := hgoal
  have hidle : c.running = none := Option.isNone_iff_eq_none.mp hidle
  have hwaits : WaitsFor c .main (.handler 2) := by
    rw [isGathering.eq_def] at hgathering
    split at hgathering
    · next hnext => exact .handler hnext rfl hhandler
    · cases hgathering
  exact ⟨c, h, hidle, hwaits, of_decide_eq_true howner, no_deadlock h hidle⟩

end MatrixDispatcher
