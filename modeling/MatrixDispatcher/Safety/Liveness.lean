import MatrixDispatcher.Coro.Fair
import MatrixDispatcher.Safety.Deadlock

/-!
# Every handler ends

A message is handled by a task of its own, which may stand in the line of a room lock behind any
number of others, while new ones arrive and the reconcile loop takes the lock again and again. If
the event loop is fair and the surroundings answer, every handler ends all the same.

* `OwnersRelease` — the program of the owner of a lock comes to the release of this lock.
* `lock_released` — in a fair run, a lock is given up.
* `TurnAct.line_of_change` — what the others do to a line never sets a waiting task back.
* `waiter_moves` — in a fair run, whoever waits in line goes on.
* `handlers_end` — in a fair run, every handler that is created ends, for good.
-/

namespace MatrixDispatcher

open Coro Machine

variable {config : MatrixDispatcher.Config} {allow : World → Step → Prop} {w w' : World}
  {t u : Tid} {room : RoomId} {c c' : Machine.Config Tid Eff Eff.Ret World}

/-! ## Programs that hold a lock -/

/-- The effect gives up the lock of the room. -/
def Eff.releases (room : RoomId) : Eff → Bool
  | .sync (.lockRelease room') => decide (room' = room)
  | _ => false

/-- Who gives up a lock. -/
theorem TurnAct.release_of {e : Eff} {r : e.Ret} (h : TurnAct.of e r = .release room) :
    e.releases room = true := by
  cases e with
  | sync e =>
    cases e with
    | lockRelease room' =>
      cases h
      simp [Eff.releases]
    | execute s => cases s <;> cases r <;> cases h
    | createTask request => cases request <;> cases h
    | kill _ => cases r <;> cases h
    | mark m => cases m <;> cases h
    | _ => cases h
  | await e =>
    cases e with
    | communicate _ _ | wait _ =>
      rcases r with x | _
      · cases x <;> cases h
      · cases h
    | lockWait _ | fetchPending _ _ | exec _ _ _ _ | pause => cases r <;> cases h
    | _ => cases h

/-- A task that holds a lock holds it until it gives it up. -/
theorem TurnStep.room?_eq {g g' : TurnStage} {act : TurnAct} (h : TurnStep config g act g')
    (hroom : g.room? = some room) : g'.room? = some room ∨ act = .release room := by
  cases h with
  | leave start turn pid outcome fate g' hfate hgone hg' =>
    subst hg'
    split
    · exact .inl hroom
    · exact .inl hroom
  | release g room' hholds =>
    obtain rfl := Option.some.inj (hholds.1.symm.trans hroom)
    exact .inr rfl
  | _ => first | exact .inl hroom | cases hroom

/-- Where a round of a loop, or the program of a handler, ends. -/
abbrev TurnRound (config : MatrixDispatcher.Config) {σ : Type} : Option σ → TurnStage → Prop :=
  (turnMonitor config).RoundEnd fun _ g => g = .idle

/-- A program that keeps the discipline of turns while it holds a lock comes to its release. -/
theorem arrives_release {σ : Type} {p : Coro Eff Eff.Ret (Option σ)} {g : TurnStage}
    (hroom : g.room? = some room)
    (hp : (turnMonitor config).Follows Eff.awaits g p (TurnRound config)) :
    p.Arrives (Eff.releases room) fun _ => False := by
  induction p generalizing g with
  | ret o =>
    -- no round ends with a lock
    cases o with
    | none =>
      obtain ⟨-, rfl | rfl | rfl⟩ := hp
      all_goals cases hroom
    | some s =>
      obtain ⟨-, rfl⟩ := hp
      cases hroom
  | op e k ih =>
    by_cases hrelease : e.releases room = true
    · exact .inl hrelease
    · refine .inr fun r => ?_
      obtain ⟨g', hnext, hk⟩ := hp.2 r
      refine ih r ((TurnStep.room?_eq (TurnStage.step_cases hnext) hroom).resolve_right ?_) hk
      exact fun hact => hrelease (TurnAct.release_of hact)

/-- What is left of the round of a task, and every round to come, keeps the discipline. -/
def Brackets (config : MatrixDispatcher.Config) (t : Tid) (fiber : Fiber Eff Eff.Ret) : Prop :=
  t ≠ .main → ∃ g, (turnMonitor config).Follows Eff.awaits g fiber.prog (TurnRound config) ∧
    ∀ s, (turnMonitor config).Follows Eff.awaits .idle (fiber.next s) (TurnRound config)

/-- If a program does not go into another round, it does not matter how it would. -/
theorem follows_of_endsNow {γ σ : Type} {M : Monitor Eff Eff.Ret γ} {J J' : σ → γ → Prop} {g : γ}
    {p : Coro Eff Eff.Ret (Option σ)} (hends : p.Arrives (fun _ => false) (· = none))
    (hp : M.Follows Eff.awaits g p (M.RoundEnd J)) :
    M.Follows Eff.awaits g p (M.RoundEnd J') := by
  induction p generalizing g with
  | ret o =>
    obtain rfl : o = none := hends
    exact hp
  | op e k ih =>
    refine ⟨hp.1, fun r => ?_⟩
    obtain ⟨g', hnext, hk⟩ := hp.2 r
    exact ⟨g', hnext, ih r (hends.of_op rfl r) hk⟩

/-- Every task but `main` keeps the discipline, from round to round. -/
theorem brackets_taskOf {request : Request} (hruns : request.runsAs t = true)
    (hok : (turnCoverage config).ok request) : Brackets config t (taskOf config request) := by
  intro hmain
  cases request with
  | main => cases t <;> first | exact absurd rfl hmain | cases hruns
  -- The cleanup takes no turns at all.
  | cleanup =>
    have hignores : ∀ e, CleanupEff e → (turnMonitor config).Ignores .idle e := by
      intro e he
      by_cases hplain : Plain e
      · exact turnMonitor_ignores rfl hplain
      intro r
      unfold CleanupEff at he
      split at he
      · rfl
      · rfl
      · exact absurd (Plain.of_aside he.1) hplain
    have hround : ∀ {p : Coro Eff Eff.Ret (Option Unit)}, p.Performs CleanupEff →
        (turnMonitor config).Follows Eff.awaits .idle p (TurnRound config) := by
      intro p hp
      refine (Monitor.Follows.of_performs (hp.mono hignores) rfl).mono fun o g hg => ?_
      subst hg
      cases o with
      | none => exact ⟨rfl, .inl rfl⟩
      | some _ => exact ⟨rfl, rfl⟩
    exact ⟨.idle, hround cleanup_performs.prog, fun s => hround (cleanup_performs.next s)⟩
  | reconcile =>
    refine ⟨.idle, ?_, fun _ => turns_round turns_reconcileRound⟩
    -- The loop first sets the interval of its passes.
    refine Monitor.Follows.bind (Monitor.Follows.bindE
      (Follows.await rfl fun res => ⟨.idle, TurnStage.step_other config _, ?_⟩)
      (Q := fun _ g => g = .idle)) fun res g hg => ?_
    · cases res with
      | ok _ => exact Follows.sync fun _ => ⟨.idle, TurnStage.step_other config _, rfl⟩
      | error _ => exact rfl
    · subst hg
      split
      · exact turns_round turns_reconcileRound
      · exact ⟨fun _ => rfl, fun _ => ⟨.idle, TurnStage.step_other config _, rfl, .inl rfl⟩⟩
  | handle args =>
    obtain ⟨J, hprog, -⟩ := handler_conforms hok
    exact ⟨.idle, follows_of_endsNow (Fiber.endsNow_once _) hprog, fun _ => ⟨rfl, .inl rfl⟩⟩

theorem brackets_of_reaches (h : Reaches config allow c) {fiber : Fiber Eff Eff.Ret}
    (htask : c.tasks t = some fiber) : Brackets config t fiber := by
  refine Reachable.fibers (Q := Brackets config) (I := (turnCoverage config).supervision.good)
    ?_ ?_ ?_ (fun c hreach => (turnCoverage config).good_reached hreach) h t fiber htask
  · intro t σ e k next hbrackets r hmain
    obtain ⟨g, hprog, hnext⟩ := hbrackets hmain
    obtain ⟨g', -, hk⟩ := hprog.2 r
    exact ⟨g', hk, hnext⟩
  · intro t σ s next hbrackets hmain
    obtain ⟨g, ⟨-, rfl⟩, hnext⟩ := hbrackets hmain
    exact ⟨.idle, hnext s, hnext⟩
  · intro a w t fiber w' hgood hstart
    obtain ⟨n, request, -, hitem, rfl, -⟩ := start_eq hstart
    obtain ⟨hok, hruns⟩ := hgood _ (List.mem_of_getElem? hitem)
    exact brackets_taskOf hruns hok

/-! ## The owner of a lock -/

/-- A task that did not have a lock before has just acquired it. -/
theorem acquired_of_exec {a : Answer} {e : Eff} {r : e.Ret} (h : exec t a e w = some (r, w'))
    (howner : (w'.locks room).owner = some u) (hnew : (w.locks room).owner ≠ some u) :
    u = t ∧ (TurnAct.of e r = .tryLock room true ∨ TurnAct.of e r = .waitLock room true) := by
  have hlocks := (exec_turn h).locks
  generalize TurnAct.of e r = act at hlocks ⊢
  -- another lock than that of the room does not matter
  have hupdate : ∀ {room' l}, w'.locks = Function.update w.locks room' l →
      room' = room ∧ l.owner = some u := by
    intro room' l hlocks
    by_cases hroom : room = room'
    · subst hroom
      exact ⟨rfl, by simpa [hlocks] using howner⟩
    · rw [hlocks, Function.update_of_ne hroom] at howner
      exact absurd howner hnew
  cases act with
  | tryLock room' got =>
    cases got with
    | true =>
      obtain ⟨rfl, heq⟩ := hupdate hlocks
      exact ⟨(Option.some.inj heq).symm, .inl rfl⟩
    | false =>
      obtain ⟨rfl, heq⟩ := hupdate hlocks
      exact absurd heq hnew
  | waitLock room' got =>
    cases got with
    | true =>
      obtain ⟨rfl, heq⟩ := hupdate hlocks
      exact ⟨(Option.some.inj heq).symm, .inr rfl⟩
    | false =>
      obtain ⟨rfl, heq⟩ := hupdate hlocks
      exact absurd heq hnew
  | release room' =>
    obtain ⟨-, heq⟩ := hupdate hlocks
    cases heq
  | _ =>
    rw [hlocks] at howner
    exact absurd howner hnew

/-- Whoever gives up a lock does not have it any more. -/
theorem released_of_exec {a : Answer} {e : Eff} {r : e.Ret} (h : exec t a e w = some (r, w'))
    (hrelease : e.releases room = true) : (w'.locks room).owner = none := by
  have hlocks := (exec_turn h).locks
  cases e with
  | sync e =>
    cases e with
    | lockRelease room' =>
      obtain rfl : room' = room := of_decide_eq_true hrelease
      rw [hlocks]
      simp [TurnAct.of, TurnAct.ofSync, TurnAct.locks]
    | _ => cases hrelease
  | await e => cases hrelease

/-- The program of the owner of a lock comes to the release of this lock. -/
def OwnersRelease (c : Machine.Config Tid Eff Eff.Ret World) : Prop :=
  ∀ room u, (c.world.locks room).owner = some u → ∃ fiber, c.tasks u = some fiber ∧
    fiber.prog.Arrives (Eff.releases room) fun _ => False

/-- A lock is acquired by a task whose program comes to its release. -/
theorem arrives_of_acquired {σ : Type} {e : Eff} {k : e.Ret → Coro Eff Eff.Ret (Option σ)}
    {next : σ → Coro Eff Eff.Ret (Option σ)} {r : e.Ret}
    (hbrackets : Brackets config t ⟨σ, .op e k, next⟩) (hmain : t ≠ .main)
    (hact : TurnAct.of e r = .tryLock room true ∨ TurnAct.of e r = .waitLock room true) :
    (k r).Arrives (Eff.releases room) fun _ => False := by
  obtain ⟨g, hprog, -⟩ := hbrackets hmain
  obtain ⟨g', hnext, hk⟩ := hprog.2 r
  have hstep : TurnStep config g (TurnAct.of e r) g' := TurnStage.step_cases hnext
  refine arrives_release (g := g') ?_ hk
  rcases hact with hact | hact
  · rw [hact] at hstep
    cases hstep
    rfl
  · rw [hact] at hstep
    cases hstep
    rfl

/-- `main` never has a room lock. -/
theorem owner_ne_main (h : Reaches config allow c) : (c.world.locks room).owner ≠ some .main := by
  obtain ⟨G, -, -, hlockless⟩ :=
    ((lifeInvariant config allow).extend (lockless config allow)).tracked h
      (lifeCoverage config).good_initial ⟨.idle rfl, fun _ howner => by cases howner⟩
      (.ofWorld World.initial)
  exact hlockless.2 room

theorem ownersRelease_of_reaches (h : Reaches config allow c) : OwnersRelease c := by
  -- By induction on the run: the owner stays on its way to the release.
  induction h with
  | refl =>
    intro room u howner
    -- After a crash no lock has an owner.
    cases howner
  | @step c c' l hreach hallow hstep ih =>
    intro room u howner
    have hreach' : Reaches config allow c' := .step l hreach hallow hstep
    cases l with
    | task t a =>
      cases htask : c.tasks t with
      | none => simp [Machine.step, htask] at hstep
      | some fiber =>
        obtain ⟨-, hwent⟩ := went_of_step hstep htask
        cases hwent with
        | ended =>
          obtain ⟨fiber', hu, harrives⟩ := ih room u howner
          have hut : u ≠ t := by
            rintro rfl
            obtain rfl := Option.some.inj (htask.symm.trans hu)
            exact harrives
          exact ⟨fiber', by simpa [hut] using hu, harrives⟩
        | round =>
          obtain ⟨fiber', hu, harrives⟩ := ih room u howner
          have hut : u ≠ t := by
            rintro rfl
            obtain rfl := Option.some.inj (htask.symm.trans hu)
            exact harrives
          exact ⟨fiber', by simpa [Config.resume, hut] using hu, harrives⟩
        | @performed σ e k next r w hexec =>
          -- An owner that performs an effect has the release before it, unless this was the
          -- release.
          by_cases hold : (c.world.locks room).owner = some u
          · obtain ⟨fiber', hu, harrives⟩ := ih room u hold
            by_cases hut : u = t
            · subst hut
              obtain rfl := Option.some.inj (htask.symm.trans hu)
              refine ⟨_, Function.update_self .., harrives.of_op ?_ r⟩
              by_contra hrelease
              have hnone := released_of_exec hexec (by simpa using hrelease)
              replace howner : (w.locks room).owner = some u := howner
              simp [hnone] at howner
            · exact ⟨fiber', by simpa [Config.resume, hut] using hu, harrives⟩
          -- A new owner has just acquired the lock, and its program brackets it with a release.
          · obtain ⟨rfl, hact⟩ := acquired_of_exec hexec howner hold
            have hmain : u ≠ .main := by
              rintro rfl
              exact owner_ne_main hreach' howner
            exact ⟨_, Function.update_self ..,
              arrives_of_acquired (brackets_of_reaches hreach htask) hmain hact⟩
    | env a =>
      obtain ⟨w, henv, rfl⟩ := Option.map_eq_some_iff.mp hstep
      obtain ⟨m, -, hmoved⟩ := env_eq henv
      have hlocks : w.locks = c.world.locks :=
        (moved_same hmoved).2 .locks (by decide) (by decide) (by decide) (by decide)
      exact ih room u (by simpa [hlocks] using howner)
    | start a =>
      have htasks : ∀ {fiber}, c.tasks u = some fiber → c'.tasks u = some fiber := fun hu =>
        tasks_of_step hstep hu (by simp) (by simp)
      rw [Machine.step] at hstep
      split at hstep
      · cases hstep
      next t fiber w hstart =>
      split at hstep
      · cases hstep
      obtain rfl := Option.some.inj hstep
      obtain ⟨n, request, -, -, -, rfl⟩ := start_eq hstart
      obtain ⟨fiber', hu, harrives⟩ := ih room u howner
      exact ⟨fiber', htasks hu, harrives⟩
    | crash a =>
      obtain ⟨w, hcrash, rfl⟩ := Option.map_eq_some_iff.mp hstep
      obtain ⟨-, rfl⟩ := crash_eq hcrash
      cases howner

/-! ## Lines -/

theorem idxOf_erase_le {α : Type} [DecidableEq α] {x y : α} {xs : List α} (hne : x ≠ y) :
    (xs.erase x).idxOf y ≤ xs.idxOf y := by
  induction xs with
  | nil => simp
  | cons z zs ih =>
    by_cases hz : z = x
    · subst hz
      simp [List.idxOf_cons_ne _ hne]
    · rw [List.erase_cons_tail (by simpa using hz)]
      by_cases hy : z = y
      · simp [hy]
      · simpa [List.idxOf_cons_ne _ hy] using ih

/-- Task `t` comes nearer to the front of the line. -/
def Lock.Nearer (l l' : Lock) (t : Tid) : Prop := l'.waiters.idxOf t < l.waiters.idxOf t

/-- The line up to task `t` stays, and the lock goes to nobody. -/
structure Lock.Still (l l' : Lock) (t : Tid) : Prop where
  place : l'.waiters.idxOf t = l.waiters.idxOf t
  head : l'.waiters.head? = l.waiters.head?
  owner : l'.owner = l.owner ∨ l'.owner = none

theorem Lock.Still.refl (l : Lock) : l.Still l t := ⟨rfl, rfl, .inl rfl⟩

/-- An act of another task does not set a waiting task back. -/
theorem TurnAct.line_of_change {v : Tid} {act : TurnAct} (ht : t ∈ (w.locks room).waiters)
    (hact : TurnChange v act w w') (hne : v ≠ t) : t ∈ (w'.locks room).waiters ∧
      ((w.locks room).Nearer (w'.locks room) t ∨ (w.locks room).Still (w'.locks room) t) := by
  have hupdate : ∀ {room' l}, w'.locks = Function.update w.locks room' l →
      (room' = room → t ∈ l.waiters ∧ ((w.locks room).Nearer l t ∨ (w.locks room).Still l t)) →
      t ∈ (w'.locks room).waiters ∧
        ((w.locks room).Nearer (w'.locks room) t ∨ (w.locks room).Still (w'.locks room) t) := by
    intro room' l hlocks hl
    rw [hlocks]
    by_cases hroom : room = room'
    · subst hroom
      rw [Function.update_self]
      exact hl rfl
    · rw [Function.update_of_ne hroom]
      exact ⟨ht, .inr (.refl _)⟩
  have hguard := hact.guard
  have hlocks := hact.locks
  cases act with
  | tryLock room' got =>
    cases got with
    | true =>
      -- a lock for which somebody waits is not taken at once
      refine hupdate hlocks fun hroom => ?_
      subst hroom
      rw [hguard.2] at ht
      cases ht
    | false =>
      refine hupdate hlocks fun hroom => ?_
      subst hroom
      refine ⟨List.mem_append_left _ ht, .inr ⟨?_, ?_, .inl rfl⟩⟩
      · exact List.idxOf_append_of_mem ht
      · exact List.head?_append_of_ne_nil _ (List.ne_nil_of_mem ht)
  | waitLock room' got =>
    cases got with
    | true =>
      refine hupdate hlocks fun hroom => ?_
      subst hroom
      obtain ⟨ws, hws⟩ := List.head?_eq_some_iff.mp hguard.2
      have hmem : t ∈ ws := (List.mem_cons.mp (hws ▸ ht)).resolve_left hne.symm
      refine ⟨by rwa [hws], .inl ?_⟩
      simp [Lock.Nearer, hws, List.idxOf_cons_ne _ hne]
    | false =>
      refine hupdate hlocks fun hroom => ?_
      subst hroom
      have hmem : t ∈ (w.locks room').waiters.erase v := (List.mem_erase_of_ne hne.symm).mpr ht
      refine ⟨hmem, ?_⟩
      have hle : ((w.locks room').waiters.erase v).idxOf t ≤ (w.locks room').waiters.idxOf t :=
        idxOf_erase_le hne
      rcases hle.lt_or_eq with hlt | heq
      · exact .inl hlt
      refine .inr ⟨heq, ?_, .inl rfl⟩
      -- if the first in the line had left it, `t` would be nearer
      cases hwaiters : (w.locks room').waiters with
      | nil => simp [hwaiters] at ht
      | cons x xs =>
        have hx : x ≠ v := by
          rintro rfl
          rw [hwaiters, List.erase_cons_head, List.idxOf_cons_ne _ hne] at heq
          omega
        rw [List.erase_cons_tail (by simpa using hx)]
        rfl
  | release room' =>
    refine hupdate hlocks fun hroom => ?_
    subst hroom
    exact ⟨ht, .inr ⟨rfl, rfl, .inr rfl⟩⟩
  | _ =>
    rw [hlocks]
    exact ⟨ht, .inr (.refl _)⟩

/-- A step of another task does not set a waiting task back. -/
theorem line_of_step {l : Label Tid Answer} (ht : t ∈ (c.world.locks room).waiters)
    (hstep : (dispatcher config).step c l = some c') (hother : ∀ a, l ≠ .task t a)
    (hcrash : ∀ a, l ≠ .crash a) : t ∈ (c'.world.locks room).waiters ∧
      ((c.world.locks room).Nearer (c'.world.locks room) t ∨
        (c.world.locks room).Still (c'.world.locks room) t) := by
  -- Where the locks stay, so does the line.
  have hsame : c'.world.locks = c.world.locks → t ∈ (c'.world.locks room).waiters ∧
      ((c.world.locks room).Nearer (c'.world.locks room) t ∨
        (c.world.locks room).Still (c'.world.locks room) t) := by
    intro hlocks
    rw [hlocks]
    exact ⟨ht, .inr (.refl _)⟩
  cases l with
  | task v a =>
    have hne : v ≠ t := by
      rintro rfl
      exact hother a rfl
    cases htask : c.tasks v with
    | none => simp [Machine.step, htask] at hstep
    | some fiber =>
      obtain ⟨-, hwent⟩ := went_of_step hstep htask
      cases hwent with
      | ended => exact hsame rfl
      | round => exact hsame rfl
      -- Another task's effect moves the line on or leaves it.
      | performed hexec => exact TurnAct.line_of_change ht (exec_turn hexec) hne
  | env a =>
    obtain ⟨w, henv, rfl⟩ := Option.map_eq_some_iff.mp hstep
    obtain ⟨m, -, hmoved⟩ := env_eq henv
    exact hsame ((moved_same hmoved).2 .locks (by decide) (by decide) (by decide) (by decide))
  | start a =>
    rw [Machine.step] at hstep
    split at hstep
    · cases hstep
    next v fiber w hstart =>
    split at hstep
    · cases hstep
    obtain rfl := Option.some.inj hstep
    obtain ⟨n, request, -, -, -, rfl⟩ := start_eq hstart
    exact hsame rfl
  -- Crashes are excluded.
  | crash a => exact absurd rfl (hcrash a)

/-- The first in a line goes on, and leaves it. -/
theorem nearer_of_head {v : Tid} {a : Answer} {r : Except Exn Unit}
    (hhead : (w.locks room).waiters.head? = some v)
    (hne : v ≠ t) (hexec : exec v a (.await (.lockWait room)) w = some (r, w')) :
    (w.locks room).Nearer (w'.locks room) t := by
  obtain ⟨ws, hws⟩ := List.head?_eq_some_iff.mp hhead
  have hlocks := (exec_turn hexec).locks
  cases r with
  | ok _ =>
    rw [hlocks]
    simp [TurnAct.of, TurnAct.ofAwait, TurnAct.locks, Lock.Nearer, hws, List.idxOf_cons_ne _ hne]
  | error _ =>
    rw [hlocks]
    simp [TurnAct.of, TurnAct.ofAwait, TurnAct.locks, Lock.Nearer, hws, List.idxOf_cons_ne _ hne]

/-! ## Rounds -/

/-- A round that ends with a sleep yields. -/
theorem yields_of_sleep {α : Type} {p : Py α} {f : α → Py Unit} (hf : ∀ a, f a = Py.await .sleep) :
    Arrives Eff.awaits (· = none) (do nextRound endTask (← (p >>= f).run)) := by
  refine Arrives.bind (P := fun res => ∃ x, res = .error x) ?_ ?_
  · rw [ExceptT.run_bind]
    refine Arrives.bind (Arrives.anyhow p.run) fun res _ => ?_
    cases res with
    | ok a =>
      dsimp only
      rw [hf a]
      exact .inl rfl
    | error x => exact ⟨x, rfl⟩
  · rintro _ ⟨x, rfl⟩
    exact (Arrives.anyhow endTask).bind fun _ _ => rfl

/-- No loop goes round without giving up the processor. -/
theorem yields_taskOf (request : Request) : (taskOf config request).Yields Eff.awaits := by
  intro s
  cases request with
  | main => exact .inl rfl
  | cleanup => exact yields_of_sleep fun _ => rfl
  | reconcile => exact yields_of_sleep fun _ => rfl
  | handle args => exact rfl

/-- The tasks of a run yield in their loops, and handlers have none. -/
theorem yields_of_reaches (h : Reaches config allow c) {fiber : Fiber Eff Eff.Ret}
    (htask : c.tasks t = some fiber) :
    fiber.Yields Eff.awaits ∧ (∀ i, t = .handler i → fiber.EndsNow) := by
  refine Reachable.fibers (I := (turnCoverage config).supervision.good)
    (Q := fun t fiber => fiber.Yields Eff.awaits ∧ (∀ i, t = .handler i → fiber.EndsNow))
    ?_ ?_ ?_ (fun c hreach => (turnCoverage config).good_reached hreach) h t fiber htask
  · rintro t σ e k next ⟨hyields, hends⟩ r
    exact ⟨hyields, fun i ht => (hends i ht).of_op rfl r⟩
  · rintro t σ s next ⟨hyields, hends⟩
    refine ⟨hyields, fun i ht => ?_⟩
    cases hends i ht
  · intro a w t fiber w' hgood hstart
    obtain ⟨n, request, -, hitem, rfl, -⟩ := start_eq hstart
    refine ⟨yields_taskOf request, ?_⟩
    rintro i rfl
    obtain ⟨-, hruns⟩ := hgood _ (List.mem_of_getElem? hitem)
    cases request with
    | handle args => exact Fiber.endsNow_once _
    | _ => cases hruns

/-! ## Who can go on -/

/-- A task other than `main` that does not wait for a lock can go on. -/
theorem canGoOn_of_other (h : Reaches config allow c) (hidle : c.running = none)
    (hne : t ≠ .main) (hpresent : Present c t)
    (hnext : ∀ room, c.next t ≠ some (.await (.lockWait room))) : CanGoOn config c t := by
  obtain ⟨-, hjoins, hgathers, -⟩ := main_waits h hidle
  rcases canGoOn_or_waits h hidle hpresent with hgo | ⟨u, hwaits⟩
  · exact hgo
  · cases hwaits with
    | owner hlock => exact absurd hlock (hnext _)
    | line hlock => exact absurd hlock (hnext _)
    | loop hjoin => exact absurd (hjoins t u hjoin).1 hne
    | handler hgather hgathering => exact absurd (hgathers t _ hgather hgathering) hne

/-- The owner of a lock can go on. -/
theorem canGoOn_of_owner (h : Reaches config allow c) (hidle : c.running = none)
    (howner : (c.world.locks room).owner = some u) : CanGoOn config c u := by
  obtain ⟨htask, hnext⟩ := owner_stands h hidle howner
  refine canGoOn_of_other h hidle ?_ (.inl htask) hnext
  rintro rfl
  exact owner_ne_main h howner

/-- The first in the line of a lock that is free can go on. -/
theorem canGoOn_of_head (h : Reaches config allow c) (hidle : c.running = none)
    (howner : (c.world.locks room).owner = none)
    (hhead : (c.world.locks room).waiters.head? = some u) : CanGoOn config c u := by
  refine canGoOn_of_operation hidle (next_of_waits h hidle (List.mem_of_mem_head? hhead)) ?_
  rw [execOperation, if_pos ⟨howner, hhead⟩]
  rfl

/-! ## Fair runs -/

section

variable {r : Run (dispatcher config) allow} {n : Nat} (hreach : Reaches config allow (r.conf 0))
  (hlives : r.Lives) (hfair : r.Fair (CanGoOn config))

include hreach hlives hfair

/-- The event loop is idle again and again. -/
theorem idles (n : Nat) : ∃ m ≥ n, (r.conf m).running = none :=
  Run.exists_idle hreach hlives hfair (fun m _ _ htask =>
    (yields_of_reaches (r.reached hreach m) htask).1) n

/-- A lock is given up. -/
theorem lock_released (howner : ((r.conf n).world.locks room).owner = some u) :
    ∃ m ≥ n, ((r.conf m).world.locks room).owner ≠ some u := by
  by_contra! hkept
  obtain ⟨⟨σ, p, next⟩, htask, harrives⟩ :=
    ownersRelease_of_reaches (r.reached hreach n) room u howner
  have hmoves : ∀ m ≥ n, (r.conf m).tasks u ≠ none → ∃ k ≥ m, r.Moves u k := by
    intro m hm hne
    obtain ⟨fiber, hfiber⟩ := Option.ne_none_iff_exists'.mp hne
    exact Run.moves_of_ready hlives hfair hfiber fun k hk hidle _ =>
      canGoOn_of_owner (r.reached hreach k) hidle (hkept k (by omega))
  rcases Run.arrives hlives harrives hmoves htask with ⟨m, hm, e, hrelease, a, res, hexec⟩ |
    ⟨m, hm, o, hnever, -⟩
  · have hnone := released_of_exec hexec hrelease
    simp [hkept (m + 1) (by omega)] at hnone
  · exact hnever

/-- Whoever waits in the line of a lock goes on. -/
theorem waiter_moves (ht : t ∈ ((r.conf n).world.locks room).waiters) : ∃ m ≥ n, r.Moves t m := by
  -- by induction on the place in the line
  generalize hplace : ((r.conf n).world.locks room).waiters.idxOf t = place
  induction place using Nat.strong_induction_on generalizing n with
  | _ place ih =>
  by_contra! hstill
  have hother : ∀ m ≥ n, ∀ a, r.label m ≠ .task t a := fun m hm a heq => hstill m hm ⟨a, heq⟩
  -- the line up to the task does not change any more
  have hline : ∀ m ≥ n, t ∈ ((r.conf m).world.locks room).waiters ∧
      ((r.conf m).world.locks room).waiters.idxOf t = place := by
    intro m hm
    induction m, hm using Nat.le_induction with
    | base => exact ⟨ht, hplace⟩
    | succ m hm hold =>
      obtain ⟨hmem, hnearer | hsame⟩ :=
        line_of_step hold.1 (r.step m) (hother m hm) (hlives m)
      · obtain ⟨k, hk, hmoves⟩ := ih _ (hold.2 ▸ hnearer) hmem rfl
        exact absurd hmoves (hstill k (by omega))
      · exact ⟨hmem, hsame.place.trans hold.2⟩
  have hsame : ∀ m ≥ n,
      ((r.conf m).world.locks room).Still ((r.conf (m + 1)).world.locks room) t := by
    intro m hm
    refine (line_of_step (hline m hm).1 (r.step m) (hother m hm) (hlives m)).2.resolve_left ?_
    intro hnearer
    rw [Lock.Nearer, (hline m hm).2, (hline (m + 1) (by omega)).2] at hnearer
    omega
  -- the lock becomes free, and stays so
  have hfree : ∃ m ≥ n, ((r.conf m).world.locks room).owner = none := by
    by_contra! hheld
    obtain ⟨u, hu⟩ := Option.ne_none_iff_exists'.mp (hheld n le_rfl)
    obtain ⟨m, hm, hgone⟩ := lock_released hreach hlives hfair hu
    refine hgone ?_
    induction m, hm using Nat.le_induction with
    | base => exact hu
    | succ m hm hkept =>
      have howner := (hsame m hm).owner.resolve_right (hheld (m + 1) (by omega))
      rw [howner]
      by_contra hne
      exact hgone (howner.trans (hkept hne))
  obtain ⟨m₁, hm₁, hnone⟩ := hfree
  have hnone : ∀ m ≥ m₁, ((r.conf m).world.locks room).owner = none := by
    intro m hm
    induction m, hm using Nat.le_induction with
    | base => exact hnone
    | succ m hm hold => exact (hsame m (by omega)).owner.elim (fun heq => heq.trans hold) id
  obtain ⟨v, hv⟩ := Option.isSome_iff_exists.mp
    (List.isSome_head?.mpr (List.ne_nil_of_mem ht))
  have hhead : ∀ m ≥ n, ((r.conf m).world.locks room).waiters.head? = some v := by
    intro m hm
    induction m, hm using Nat.le_induction with
    | base => exact hv
    | succ m hm hold => exact (hsame m hm).head.trans hold
  -- so the first in the line goes on
  obtain ⟨m₂, hm₂, hidle⟩ := idles hreach hlives hfair m₁
  have hnext := next_of_waits (r.reached hreach m₂) hidle
    (List.mem_of_mem_head? (hhead m₂ (by omega)))
  obtain ⟨-, ⟨σ, p, next⟩, k, htask, hop⟩ :=
    (Machine.Config.about_iff.mpr ⟨.inl hidle, hnext⟩ :
      (r.conf m₂).About v (.await (.lockWait room)))
  dsimp only at hop
  rw [hop] at htask
  obtain ⟨m₃, hm₃, hstands, a, hlabel⟩ := Run.next_move hlives htask
    (Run.moves_of_ready hlives hfair htask fun m hm hidle _ =>
      canGoOn_of_head (r.reached hreach m) hidle (hnone m (by omega)) (hhead m (by omega)))
  have hne : v ≠ t := by
    rintro rfl
    exact hother m₃ (by omega) a hlabel
  have hstep := r.step m₃
  rw [hlabel] at hstep
  obtain ⟨-, res, w, hexec, hconf⟩ := of_step_op hstands hstep
  have hnearer := nearer_of_head (hhead m₃ (by omega)) hne hexec
  have hplace' := (hline (m₃ + 1) (by omega)).2
  rw [hconf] at hplace'
  rw [Lock.Nearer, (hline m₃ (by omega)).2] at hnearer
  exact absurd hplace' hnearer.ne

/-- Every task but `main` goes on. -/
theorem task_moves (hne : t ≠ .main) (htask : (r.conf n).tasks t ≠ none) :
    ∃ m ≥ n, r.Moves t m := by
  obtain ⟨fiber, hfiber⟩ := Option.ne_none_iff_exists'.mp htask
  by_contra! hstill
  have hstands : ∀ m ≥ n, (r.conf m).tasks t = some fiber := fun m hm =>
    Run.stands hlives hfiber hm fun k hk _ => hstill k hk
  -- look at where it stands when nobody has the processor
  obtain ⟨m, hm, hidle⟩ := idles hreach hlives hfair n
  obtain ⟨e, hnext⟩ := next_of_task (t := t) (r.reached hreach m) hidle (by simp [hstands m hm])
  by_cases hlock : ∃ room, e = .lockWait room
  · obtain ⟨room, rfl⟩ := hlock
    obtain ⟨k, hk, hmoves⟩ :=
      waiter_moves hreach hlives hfair (waits_of_next (r.reached hreach m) hidle hnext)
    exact hstill k (by omega) hmoves
  · obtain ⟨k, hk, hmoves⟩ := Run.moves_of_ready hlives hfair hfiber fun k hk hidle' hk' => by
      refine canGoOn_of_other (r.reached hreach k) hidle' hne (.inl (by simp [hk'])) ?_
      intro room hnext'
      refine hlock ⟨room, ?_⟩
      have hsame : (r.conf k).next t = (r.conf m).next t := by
        rw [Config.next, Config.next, hk', hstands m hm]
      rw [hsame, hnext] at hnext'
      simpa using hnext'
    exact hstill k hk hmoves

end

/-! ## Handlers start once -/

/-- What a step does to the tasks and to the inbox. -/
inductive RosterChange (c c' : Machine.Config Tid Eff Eff.Ret World) : Prop
  /-- Tasks go on or end. -/
  | still (hinbox : c'.world.inbox = c.world.inbox)
      (hnext : c'.world.nextHandler = c.world.nextHandler)
      (htasks : ∀ v, c.tasks v = none → c'.tasks v = none)
  /-- A task is created. -/
  | created (u : Tid) (request : Request)
      (hinbox : c'.world.inbox = c.world.inbox ++ [(u, request)])
      (hu : u = .handler c.world.nextHandler ∧
          c'.world.nextHandler = c.world.nextHandler + 1 ∨
        (∀ i, u ≠ .handler i) ∧ c'.world.nextHandler = c.world.nextHandler)
      (htasks : ∀ v, c.tasks v = none → c'.tasks v = none)
  /-- A task starts. -/
  | started (n : Nat) (u : Tid) (request : Request) (hitem : c.world.inbox[n]? = some (u, request))
      (hinbox : c'.world.inbox = c.world.inbox.eraseIdx n)
      (hnext : c'.world.nextHandler = c.world.nextHandler) (hnew : c.tasks u = none)
      (hrunning : c'.tasks u ≠ none) (htasks : ∀ v, v ≠ u → c.tasks v = none → c'.tasks v = none)

theorem roster_of_step {l : Label Tid Answer} (hstep : (dispatcher config).step c l = some c')
    (hcrash : ∀ a, l ≠ .crash a) : RosterChange c c' := by
  cases l with
  | task t a =>
    cases htask : c.tasks t with
    | none => simp [Machine.step, htask] at hstep
    | some fiber =>
      -- A task that goes on adds nobody to the tasks.
      have hresume : ∀ {fiber' w} v, c.tasks v = none →
          (c.resume (dispatcher config) t fiber' w).tasks v = none := by
        intro fiber' w v hv
        have hvt : v ≠ t := by
          rintro rfl
          simp [htask] at hv
        simpa [Config.resume, hvt] using hv
      obtain ⟨-, hwent⟩ := went_of_step hstep htask
      cases hwent with
      | ended =>
        refine .still rfl rfl fun v hv => ?_
        by_cases hvt : v = t
        · simp [hvt]
        · simpa [hvt] using hv
      | round => exact .still rfl rfl hresume
      | performed hexec =>
        -- What is created and what ends is read off the effect.
        have hroll := exec_roll hexec
        cases hroll with
        | create request hinbox _ _ hnext =>
          cases request with
          | handle args => exact .created _ _ hinbox (.inl ⟨rfl, hnext⟩) hresume
          | _ => exact .created _ _ hinbox (.inr ⟨by simp, hnext⟩) hresume
        | done hinbox _ _ hnext => exact .still hinbox hnext hresume
        | still _ _ hinbox _ _ hnext => exact .still hinbox hnext hresume
  | env a =>
    obtain ⟨w, henv, rfl⟩ := Option.map_eq_some_iff.mp hstep
    obtain ⟨m, -, hmoved⟩ := env_eq henv
    have hsame := (moved_same hmoved).2
    exact .still (hsame .inbox (by decide) (by decide) (by decide) (by decide))
      (hsame .nextHandler (by decide) (by decide) (by decide) (by decide)) fun _ hv => hv
  | start a =>
    rw [Machine.step] at hstep
    split at hstep
    · cases hstep
    next u fiber w hstart =>
    split at hstep
    · cases hstep
    next hnew =>
    obtain rfl := Option.some.inj hstep
    obtain ⟨n, request, -, hitem, -, rfl⟩ := start_eq hstart
    -- A task that starts leaves the inbox.
    refine .started n u request hitem rfl rfl hnew (by simp) fun v hvu hv => ?_
    simpa [hvu] using hv
  | crash a => exact absurd rfl (hcrash a)

/-- The handlers that run or are about to start have numbers below the next one, and none that runs
is about to start. -/
structure Counted (c : Machine.Config Tid Eff Eff.Ret World) : Prop where
  bound : ∀ i, Present c (.handler i) → i < c.world.nextHandler
  apart : ∀ i request, (Tid.handler i, request) ∈ c.world.inbox → c.tasks (.handler i) = none
  once : c.world.inbox.Pairwise fun x y => ∀ i, x.1 = .handler i → y.1 ≠ .handler i

/-- The rest of a list after one of its elements. -/
theorem pairwise_erased {α : Type} {R : α → α → Prop} (hsymm : ∀ {x y}, R x y → R y x)
    {xs : List α} (h : xs.Pairwise R) {n : Nat} {x : α} (hx : xs[n]? = some x) :
    ∀ y ∈ xs.eraseIdx n, R x y := by
  obtain ⟨hn, rfl⟩ := List.getElem?_eq_some_iff.mp hx
  have hperm := List.getElem_cons_eraseIdx_perm hn
  exact (List.pairwise_cons.mp ((hperm.pairwise_iff hsymm).mpr h)).1

theorem counted_of_step (h : Counted c) (hroster : RosterChange c c') : Counted c' := by
  have hpresent : ∀ {v}, c'.tasks v ≠ none → (c.tasks v = none → c'.tasks v = none) →
      c.tasks v ≠ none := fun hne hnone hv => hne (hnone hv)
  cases hroster with
  -- The same inbox and the same number: only tasks may have ended.
  | still hinbox hnext htasks =>
    refine ⟨fun i hi => ?_, fun i request hmem => ?_, hinbox ▸ h.once⟩
    · rw [hnext]
      refine h.bound i (hi.imp (fun hne => hpresent hne (htasks _)) ?_)
      rw [hinbox]
      exact id
    · exact htasks _ (h.apart i request (hinbox ▸ hmem))
  | created u request hinbox hu htasks =>
    have hle : c.world.nextHandler ≤ c'.world.nextHandler := by
      rcases hu with ⟨-, hnext⟩ | ⟨-, hnext⟩ <;> omega
    -- A new handler gets the next number.
    have hnew : ∀ {i}, u = .handler i →
        i = c.world.nextHandler ∧ i < c'.world.nextHandler := by
      intro i hi
      rcases hu with ⟨rfl, hnext⟩ | ⟨hne, -⟩
      · obtain rfl := Tid.handler.inj hi
        exact ⟨rfl, by omega⟩
      · exact absurd hi (hne i)
    refine ⟨fun i hi => ?_, fun i request' hmem => ?_, ?_⟩
    · rcases hi with hne | ⟨request', hmem⟩
      · exact (h.bound i (.inl (hpresent hne (htasks _)))).trans_le hle
      -- The new request is behind those of smaller numbers.
      · rw [hinbox] at hmem
        rcases List.mem_append.mp hmem with hold | hlast
        · exact (h.bound i (.inr ⟨request', hold⟩)).trans_le hle
        · have heq := (Prod.mk.inj (List.mem_singleton.mp hlast)).1
          exact (hnew heq.symm).2
    · rw [hinbox] at hmem
      rcases List.mem_append.mp hmem with hold | hlast
      · exact htasks _ (h.apart i request' hold)
      · -- no task has the next number yet
        have heq := (Prod.mk.inj (List.mem_singleton.mp hlast)).1
        refine htasks _ (Classical.byContradiction fun hne => ?_)
        have hlt := h.bound i (.inl hne)
        have hlast := (hnew heq.symm).1
        omega
    · rw [hinbox]
      refine List.pairwise_append.mpr ⟨h.once, List.pairwise_singleton _ _, ?_⟩
      intro x hx y hy i hxi
      obtain rfl := List.mem_singleton.mp hy
      intro hyi
      have hlt := h.bound i (.inr ⟨x.2, by rw [← hxi]; exact hx⟩)
      have hlast := (hnew hyi).1
      omega
  | started n u request hitem hinbox hnext hnew hrunning htasks =>
    have hmem : (u, request) ∈ c.world.inbox := List.mem_of_getElem? hitem
    -- The request that is taken from the inbox was the only one of its handler.
    have hrest := pairwise_erased (R := fun x y : Tid × Request =>
      ∀ i, x.1 = .handler i → y.1 ≠ .handler i) (fun hR i hy hx => hR i hx hy) h.once hitem
    refine ⟨fun i hi => ?_, fun i request' hi => ?_, ?_⟩
    · rw [hnext]
      rcases hi with hne | ⟨request', hi⟩
      · by_cases hui : Tid.handler i = u
        · exact h.bound i (.inr ⟨request, hui ▸ hmem⟩)
        · exact h.bound i (.inl (hpresent hne (htasks _ hui)))
      · exact h.bound i (.inr ⟨request', List.eraseIdx_subset (hinbox ▸ hi)⟩)
    · rw [hinbox] at hi
      have hui : Tid.handler i ≠ u := by
        rintro rfl
        exact hrest _ hi i rfl rfl
      exact htasks _ hui (h.apart i request' (List.eraseIdx_subset hi))
    · rw [hinbox]
      exact h.once.sublist (List.eraseIdx_sublist _ _)

/-- When no task runs, and `main` is about to start. -/
theorem Counted.idle (hinbox : w.inbox = [(.main, .main)]) : Counted (.ofWorld w) := by
  have hmem : ∀ {i request}, (Tid.handler i, request) ∉ w.inbox := by
    intro i request hmem
    rw [hinbox] at hmem
    cases List.mem_singleton.mp hmem
  refine ⟨fun i hi => ?_, fun i request hi => absurd hi hmem, ?_⟩
  · rcases hi with hne | ⟨request, hi⟩
    · exact absurd rfl hne
    · exact absurd hi hmem
  · change w.inbox.Pairwise _
    rw [hinbox]
    exact List.pairwise_singleton _ _

/-- In every run, handlers start once. -/
theorem counted_of_reaches (h : Reaches config allow c) : Counted c := by
  induction h with
  | refl => exact .idle rfl
  | @step c c' l _ _ hstep ih =>
    by_cases hcrash : ∃ a, l = .crash a
    · obtain ⟨a, rfl⟩ := hcrash
      obtain ⟨w, hw, rfl⟩ := Option.map_eq_some_iff.mp hstep
      obtain ⟨-, rfl⟩ := crash_eq hw
      exact .idle rfl
    · exact counted_of_step ih (roster_of_step hstep fun a heq => hcrash ⟨a, heq⟩)

/-! ## Handlers end -/

/-- The handler has been created, and is not about to start. -/
def Begun (c : Machine.Config Tid Eff Eff.Ret World) (i : Nat) : Prop :=
  i < c.world.nextHandler ∧ ∀ request, (Tid.handler i, request) ∉ c.world.inbox

/-- A handler that has begun is not created again, and does not start again. -/
theorem Begun.step {i : Nat} (h : Begun c i) (hroster : RosterChange c c') :
    Begun c' i ∧ (c.tasks (.handler i) = none → c'.tasks (.handler i) = none) := by
  obtain ⟨hlt, hout⟩ := h
  cases hroster with
  | still hinbox hnext htasks => exact ⟨⟨hnext ▸ hlt, hinbox ▸ hout⟩, htasks _⟩
  | created u request hinbox hu htasks =>
    -- The new task has a larger number than handler `i`.
    have hui : u ≠ .handler i := by
      rcases hu with ⟨rfl, -⟩ | ⟨hne, -⟩
      · simp only [ne_eq, Tid.handler.injEq]
        omega
      · exact hne i
    refine ⟨⟨?_, fun request' hmem => ?_⟩, htasks _⟩
    · rcases hu with ⟨-, hnext⟩ | ⟨-, hnext⟩ <;> omega
    · rw [hinbox] at hmem
      rcases List.mem_append.mp hmem with hold | hlast
      · exact hout request' hold
      · exact hui (Prod.mk.inj (List.mem_singleton.mp hlast)).1.symm
  | started n u request hitem hinbox hnext hnew hrunning htasks =>
    -- A task that starts was in the inbox, and handler `i` is not.
    have hui : Tid.handler i ≠ u := by
      rintro rfl
      exact hout request (List.mem_of_getElem? hitem)
    refine ⟨⟨hnext ▸ hlt, fun request' hmem => ?_⟩, htasks _ hui⟩
    exact hout request' (List.eraseIdx_subset (hinbox ▸ hmem))

/-- A handler that has begun stays so. -/
theorem begun_of_exec {a : Answer} {e : Eff} {r : e.Ret} {n : Nat}
    (h : exec t a e w = some (r, w')) (hbegun : Begun (.ofWorld w) n) : Begun (.ofWorld w') n := by
  obtain ⟨hlt, hout⟩ := hbegun
  cases exec_roll h with
  | create request hinbox _ _ hnext =>
    -- A request that is created is for a larger number.
    have hold : ∀ request', (Tid.handler n, request') ∈ (w.create request).inbox →
        (Tid.handler n, request') ∈ w.inbox := by
      intro request' hmem
      cases request with
      | handle args =>
        refine (List.mem_append.mp hmem).resolve_right fun hlast => ?_
        have hn : n = w.nextHandler := by simpa using (Prod.mk.inj (List.mem_singleton.mp hlast)).1
        exact absurd hlt (by simp [hn, Machine.Config.ofWorld])
      | _ =>
        refine (List.mem_append.mp hmem).resolve_right fun hlast => ?_
        cases List.mem_singleton.mp hlast
    have hle : w.nextHandler ≤ (w.create request).nextHandler := by
      cases request <;> simp [World.create]
    refine ⟨?_, fun request' hmem => hout request' (hold request' (hinbox ▸ hmem))⟩
    change n < w'.nextHandler
    rw [hnext]
    exact hlt.trans_le hle
  | done hinbox _ _ hnext => exact ⟨hnext ▸ hlt, hinbox ▸ hout⟩
  | still _ _ hinbox _ _ hnext => exact ⟨hnext ▸ hlt, hinbox ▸ hout⟩

/-- A handler that has begun, also when less is about to start. -/
theorem Begun.of_subset {n : Nat} (h : Begun (.ofWorld w) n)
    (hnext : w'.nextHandler = w.nextHandler) (hinbox : ∀ item ∈ w'.inbox, item ∈ w.inbox) :
    Begun (.ofWorld w') n := by
  refine ⟨?_, fun request hmem => h.2 request (hinbox _ hmem)⟩
  change n < w'.nextHandler
  rw [hnext]
  exact h.1

/-- A handler that starts has begun. -/
theorem begun_of_inbox {c : Machine.Config Tid Eff Eff.Ret World} (hcounted : Counted c) {i n : Nat}
    {request : Request} (hitem : c.world.inbox[i]? = some (.handler n, request)) :
    Begun (.ofWorld { c.world with inbox := c.world.inbox.eraseIdx i }) n := by
  refine ⟨hcounted.bound n (.inr ⟨request, List.mem_of_getElem? hitem⟩), fun request' hmem => ?_⟩
  exact pairwise_erased (fun hxy i hy hx => hxy i hx hy) hcounted.once hitem _ hmem n rfl rfl

/-- A handler that has begun has begun when the process dies: what was about to start is lost, and
only `main` starts again. -/
theorem Begun.crashed {n : Nat} (h : Begun (.ofWorld w) n) : Begun (.ofWorld w.crashed) n := by
  refine ⟨h.1, fun request hmem => ?_⟩
  cases List.mem_singleton.mp hmem

/-- A task that is about to start is about to start after a step, or it runs. -/
theorem waiting_of_roster {request : Request} (hmem : (t, request) ∈ c.world.inbox)
    (hroster : RosterChange c c') :
    (∃ request, (t, request) ∈ c'.world.inbox) ∨ c'.tasks t ≠ none := by
  cases hroster with
  | still hinbox => exact .inl ⟨request, hinbox ▸ hmem⟩
  | created u request' hinbox =>
    rw [hinbox]
    exact .inl ⟨request, List.mem_append_left _ hmem⟩
  | started n u request' hitem hinbox hnext hnew hrunning htasks =>
    obtain ⟨m, hm⟩ := List.mem_iff_getElem?.mp hmem
    by_cases hmn : m = n
    · subst hmn
      obtain ⟨rfl, -⟩ := Prod.mk.inj (Option.some.inj (hm.symm.trans hitem))
      exact .inr hrunning
    · rw [hinbox]
      exact .inl ⟨request, List.mem_eraseIdx_iff_getElem?.mpr ⟨m, hmn, hm⟩⟩

section

variable {r : Run (dispatcher config) allow} {n : Nat} (hreach : Reaches config allow (r.conf 0))
  (hlives : r.Lives) (hfair : r.Fair (CanGoOn config))

include hreach hlives hfair

/-- A task that is about to start starts. -/
theorem task_starts (hpresent : Present (r.conf n) t) : ∃ m ≥ n, (r.conf m).tasks t ≠ none := by
  by_contra! hnever
  have hinbox : ∀ m ≥ n, ∃ request, (t, request) ∈ (r.conf m).world.inbox := by
    intro m hm
    induction m, hm using Nat.le_induction with
    | base => exact hpresent.resolve_left fun hne => hne (hnever n le_rfl)
    | succ m hm ih =>
      obtain ⟨request, hmem⟩ := ih
      exact (waiting_of_roster hmem (roster_of_step (r.step m) (hlives m))).resolve_right
        fun hne => hne (hnever (m + 1) (by omega))
  obtain ⟨m, hm, hne⟩ := Run.starts_of_ready (n := n) (t := t) hfair fun m hm hidle hnone => by
    refine (canGoOn_or_waits (r.reached hreach m) hidle (.inr (hinbox m hm))).resolve_right ?_
    -- a task that does not run waits for nobody
    rintro ⟨u, hwaits⟩
    cases hwaits with
    | owner hnext => exact task_of_next hnext hnone
    | line hnext => exact task_of_next hnext hnone
    | loop hnext => exact task_of_next hnext hnone
    | handler hnext => exact task_of_next hnext hnone
  exact hne (hnever m hm)

/-- Every handler ends, for good: in every fair run in which the process does not die, whatever the
surroundings answer, over any number of other handlers that wait for the same lock or come to
wait for it, over passes of the reconcile loop, and over a shutdown. -/
theorem handlers_end {i : Nat} (hpresent : Present (r.conf n) (.handler i)) :
    ∃ m ≥ n, ∀ k ≥ m, ¬ Present (r.conf k) (.handler i) := by
  -- By fairness the handler starts at some time,
  obtain ⟨m₁, hm₁, hne⟩ := task_starts hreach hlives hfair hpresent
  have hcounted := counted_of_reaches (r.reached hreach m₁)
  -- and from then on it is not requested again.
  have hbegun : ∀ k ≥ m₁, Begun (r.conf k) i := by
    intro k hk
    induction k, hk using Nat.le_induction with
    | base =>
      exact ⟨hcounted.bound i (.inl hne), fun request hmem => hne (hcounted.apart i request hmem)⟩
    | succ k _ ih => exact (ih.step (roster_of_step (r.step k) (hlives k))).1
  obtain ⟨fiber, hfiber⟩ := Option.ne_none_iff_exists'.mp hne
  have hends := (yields_of_reaches (r.reached hreach m₁) hfiber).2 i rfl
  -- It moves whenever it waits, so its program comes to its end.
  obtain ⟨m₂, hm₂, hnone⟩ := Run.ends hlives hends (fun m _ htask =>
    task_moves hreach hlives hfair (by simp) htask) hfiber
  -- Once gone it stays so, by `hbegun`.
  have hgone : ∀ k ≥ m₂, (r.conf k).tasks (.handler i) = none := by
    intro k hk
    induction k, hk using Nat.le_induction with
    | base => exact hnone
    | succ k hk ih =>
      exact ((hbegun k (by omega)).step (roster_of_step (r.step k) (hlives k))).2 ih
  refine ⟨m₂, by omega, fun k hk hstill => ?_⟩
  rcases hstill with hrunning | ⟨request, hmem⟩
  · exact hrunning (hgone k hk)
  · exact (hbegun k (by omega)).2 request hmem

end

/-! ## Scenarios -/

/-- The registry sets the state that an approval has. -/
theorem moved_setState_same {a : ApprovalId} {state : ApprovalState}
    (hstate : w.stateOf a = some state) : w.moved (.setState a state) = some w := by
  obtain ⟨row, hfind, hrow⟩ := Option.map_eq_some_iff.mp hstate
  obtain ⟨hmem, hkey⟩ := Table.find?_eq_some.mp hfind
  have hhas : w.approvals.hasKey a = true := by simp [Table.hasKey, hfind]
  -- The row of `a` is the only one to be updated, and it has the state already.
  have hrows : w.approvals.update (·.approvalId == a) ({ · with state := state })
      (fun _ => rfl) = w.approvals := by
    have hmap : (w.approvals.rows.map fun row' =>
        if row'.approvalId == a then { row' with state := state } else row') =
        w.approvals.rows := by
      refine (List.map_congr_left fun row' hmem' => ?_).trans (List.map_id _)
      split
      · next hkey' =>
        obtain rfl : row' = row :=
          Table.eq_of_key_eq hmem' hmem
            ((by simpa using hkey' : row'.approvalId = a).trans hkey.symm)
        subst hrow
        rfl
      · rfl
    cases happrovals : w.approvals
    rw [happrovals] at hmap
    simp only [Table.update, Table.mk.injEq]
    exact hmap
  rw [World.moved, if_pos hhas, hrows]

/-- All tasks have ended, and none is about to start. -/
def allEnded (c : Machine.Config Tid Eff Eff.Ret World) : Bool :=
  c.running.isNone && c.world.inbox.isEmpty &&
    ([Tid.main, .cleanup, .reconcile] ++ (List.range c.world.nextHandler).map Tid.handler).all
      fun t => (c.tasks t).isNone

theorem nobody_of_allEnded (hcounted : Counted c) (h : allEnded c = true) :
    c.running = none ∧ ∀ t, ¬ CanGoOn config c t := by
  obtain ⟨hboth, htasks⟩ := Bool.and_eq_true_iff.mp h
  obtain ⟨hidle, hempty⟩ := Bool.and_eq_true_iff.mp hboth
  have hinbox : c.world.inbox = [] := List.isEmpty_iff.mp hempty
  have hnone : ∀ t, c.tasks t = none := by
    intro t
    by_contra hne
    refine hne (Option.isNone_iff_eq_none.mp (List.all_eq_true.mp htasks t ?_))
    cases t with
    | handler i =>
      have hlt := hcounted.bound i (.inl hne)
      exact List.mem_append_right _ (List.mem_map_of_mem (List.mem_range.mpr hlt))
    | _ => simp
  refine ⟨Option.isNone_iff_eq_none.mp hidle, fun t hgo => ?_⟩
  cases hgo with
  | outside hnext => exact task_of_next hnext (hnone t)
  | step hstep => simp [Machine.step, hnone t] at hstep
  | start _ hstep => simp [Machine.step, dispatcher, hinbox] at hstep

/-- The three handlers take their turns, `main` is interrupted and shuts down, and the child of
another process asks for an approval. -/
def emptying : List Cue :=
  handling 3 2 11 ++
    [.move (.exit 1 0 (lit "ok") []), .go (.handler 1) 19, .go (.handler 2) 6,
      .move (.exit 2 0 (lit "ok") []), .go (.handler 2) 19, .go (.handler 3) 6,
      .move (.exit 3 0 (lit "ok") []), .go (.handler 3) 19, .move .interrupt, .go .main 3,
      .step (.start (.pick 0)), .go .cleanup 3, .go .main 2, .step (.start (.pick 0)),
      .go .reconcile 3, .go .main 10, .move (.mint bashApproval)]

/-- The second handler waits in the line, and the third one has not started. -/
theorem handlers_end_lined : ∃ r : Run (dispatcher oneAgent) survives,
    Reaches oneAgent survives (r.conf 0) ∧ r.Lives ∧ r.Fair (CanGoOn oneAgent) ∧
    .handler 2 ∈ ((r.conf 0).world.locks (lit "!room")).waiters ∧
    Present (r.conf 0) (.handler 3) ∧ ∃ m ≥ 0, ∀ k ≥ m, ¬ Present (r.conf k) (.handler 3) := by
  obtain ⟨c, h, hgoal⟩ := reaches_of_play oneAgent lining
    (fun c => decide (.handler 2 ∈ (c.world.locks (lit "!room")).waiters) &&
      c.world.inbox.any (fun item => decide (item.1 = .handler 3)) &&
      ((dispatcher oneAgent).play usualAnswer (fun _ e => isSurvived e = true) c emptying).any
        fun c' => allEnded c' && decide (c'.world.stateOf (lit "a1") = some .pending))
    survives_of_check (by decide +kernel)
  obtain ⟨hgoal, hplay⟩ := Bool.and_eq_true_iff.mp hgoal
  obtain ⟨hwaits, hitem⟩ := Bool.and_eq_true_iff.mp hgoal
  have hpresent : Present c (.handler 3) := by
    obtain ⟨⟨t, request⟩, hmem, ht⟩ := List.any_eq_true.mp hitem
    obtain rfl : t = .handler 3 := of_decide_eq_true ht
    exact .inr ⟨request, hmem⟩
  obtain ⟨c', hrun, hgoal'⟩ := Machine.exists_reachable survives_of_check hplay
  obtain ⟨hended, hpending⟩ := Bool.and_eq_true_iff.mp hgoal'
  have hcounted : Counted c' := counted_of_reaches (h.trans hrun)
  obtain ⟨hidle, hnobody⟩ :
      c'.running = none ∧ ∀ t, ¬ CanGoOn oneAgent c' t := nobody_of_allEnded hcounted hended
  -- nothing more happens, but that the registry sets the state of the approval again and again
  have hstep : (dispatcher oneAgent).step c' (.env (.move (.setState (lit "a1") .pending))) =
      some c' := by
    change Option.map (fun w => { c' with world := w })
      (c'.world.moved (.setState (lit "a1") .pending)) = some c'
    rw [moved_setState_same (of_decide_eq_true hpending)]
    rfl
  have hallow : survives c'.world
      (Machine.event c' (.env (.move (.setState (lit "a1") .pending)))) := trivial
  obtain ⟨r, rfl, hlives, hfair⟩ := Machine.exists_fair id hrun (Run.stay hallow hstep) rfl
    (fun _ _ heq => by cases heq) (Run.fair_stay hidle hnobody hallow hstep)
  exact ⟨r, h, hlives, hfair, of_decide_eq_true hwaits, hpresent,
    handlers_end h hlives hfair hpresent⟩

end MatrixDispatcher
