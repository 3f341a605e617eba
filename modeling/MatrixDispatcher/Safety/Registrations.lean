import MatrixDispatcher.Discipline.Deeds
import MatrixDispatcher.Safety.RoomLock

/-!
# Registered children

Which children are registered, in every run: over shutdowns, cancelled tasks and restarts.

* `RegInv` — the registrations agree with the stages of the tasks; `registrations` — every run
  keeps this.
* `registered_child` — a registered child is one of the room's, and its starter holds the lock.
* `registered_of_signal` — `!cancel` signals the child that is registered.
-/

namespace MatrixDispatcher

open Coro

variable {config : MatrixDispatcher.Config} {G : Tid → TurnStage} {w w' : World}

/-- The task is `main`. -/
def TurnStage.isMain : TurnStage → Bool
  | system | closing => true
  | _ => false

/-- A task that holds a lock runs, and it is not `main`. -/
theorem TurnStage.of_room? {g : TurnStage} {room : RoomId} (h : g.room? = some room) :
    g ≠ .absent ∧ g.isMain = false := by
  cases g <;> first | cases h; done | exact ⟨nofun, rfl⟩

/-- The registrations and the stages of the tasks agree. -/
structure RegInv (G : Tid → TurnStage) (w : World) : Prop where
  main : ∀ t, G t ≠ .absent → ((G t).isMain = true ↔ t = .main)
  child : ∀ t turn pid, (G t).child? = some (turn, pid) →
    ∃ p, w.procs[pid]? = some p ∧ p.starter = t ∧ p.turn = turn
  active : ∀ room pid, w.active.lookup room = some pid ↔ ∃ t, (G t).registered? = some (room, pid)
  saw : ∀ t room pid, G t = .saw room pid → w.active.lookup room = some pid

/-- The children that there were are the same ones. -/
def ChildrenKept (w w' : World) : Prop :=
  ∀ (pid : Pid) p, w.procs[pid]? = some p → ∃ p', w'.procs[pid]? = some p' ∧
    p'.starter = p.starter ∧ p'.turn = p.turn

namespace RegInv

variable {t : Tid} {g' : TurnStage}

/-- A task goes on, and the registrations change as its own does. -/
theorem move (h : RegInv G w) (hprocs : ChildrenKept w w')
    (hmain : g' ≠ .absent → (g'.isMain = true ↔ t = .main))
    (hchild : ∀ turn pid, g'.child? = some (turn, pid) →
      ∃ p, w'.procs[pid]? = some p ∧ p.starter = t ∧ p.turn = turn)
    (hactive : ∀ room pid, w'.active.lookup room = some pid ↔
      g'.registered? = some (room, pid) ∨ ∃ u, u ≠ t ∧ (G u).registered? = some (room, pid))
    (hsaw : ∀ room pid, g' = .saw room pid → w'.active.lookup room = some pid)
    (hothers : ∀ u room pid, u ≠ t → G u = .saw room pid → w'.active.lookup room = some pid) :
    RegInv (Function.update G t g') w' where
  main u := by
    by_cases hut : u = t
    · subst hut
      rw [Function.update_self]
      exact hmain
    · rw [Function.update_of_ne hut]
      exact h.main u
  child u turn pid hu := by
    by_cases hut : u = t
    · subst hut
      rw [Function.update_self] at hu
      exact hchild turn pid hu
    · rw [Function.update_of_ne hut] at hu
      obtain ⟨p, hp, hstarter, hturn⟩ := h.child u turn pid hu
      obtain ⟨p', hp', hstarter', hturn'⟩ := hprocs pid p hp
      exact ⟨p', hp', hstarter'.trans hstarter, hturn'.trans hturn⟩
  active := registered_update hactive
  saw u room pid hu := by
    by_cases hut : u = t
    · subst hut
      rw [Function.update_self] at hu
      exact hsaw room pid hu
    · rw [Function.update_of_ne hut] at hu
      exact hothers u room pid hut hu

/-- A task goes on, and registers as before; it may have given up its child. -/
theorem still (h : RegInv G w) (hprocs : ChildrenKept w w') (hactive : w'.active = w.active)
    (hmain : g' ≠ .absent → (g'.isMain = true ↔ t = .main))
    (hchild : g'.child? = none ∨ g'.child? = (G t).child?)
    (hregistered : g'.registered? = (G t).registered?)
    (hsaw : ∀ room pid, g' = .saw room pid → w.active.lookup room = some pid) :
    RegInv (Function.update G t g') w' := by
  refine h.move hprocs hmain (fun turn pid hg => ?_) (fun room pid => ?_) ?_ ?_
  · rcases hchild with hnone | hsame
    · rw [hnone] at hg
      cases hg
    · obtain ⟨p, hp, hstarter, hturn⟩ := h.child t turn pid (hsame ▸ hg)
      obtain ⟨p', hp', hstarter', hturn'⟩ := hprocs pid p hp
      exact ⟨p', hp', hstarter'.trans hstarter, hturn'.trans hturn⟩
  · rw [hactive, hregistered]
    exact registered_iff h.active t
  · rw [hactive]
    exact hsaw
  · intro u room pid _ hu
    rw [hactive]
    exact h.saw u room pid hu

/-- The world changes, and no task goes on. -/
theorem moved (h : RegInv G w) (hprocs : ChildrenKept w w') (hactive : w'.active = w.active) :
    RegInv G w' := by
  have hstill := h.still (t := .main) hprocs hactive (h.main .main) (.inr rfl) rfl (h.saw .main)
  rwa [Function.update_eq_self] at hstill

/-- Acts of turns keep the agreement. -/
theorem step {act : TurnAct} (hlock : LockInv G w) (h : RegInv G w)
    (hatomic : ∀ u, u ≠ t → (G u).isAtomic = false) (hstep : TurnStep config (G t) act g')
    (hact : TurnChange t act w w') (hprocs : ChildrenKept w w') :
    RegInv (Function.update G t g') w' := by
  have hguard := hact.guard
  have hactive := hact.active
  have hsaw : ∀ u room pid, u ≠ t → G u = .saw room pid → w'.active.lookup room = some pid := by
    intro u room pid hu hsaw
    have := hatomic u hu
    simp [hsaw, TurnStage.isAtomic] at this
  have hmain := h.main t
  have hlaunch := hact.procs
  generalize hg : G t = g at hstep hmain
  cases hstep with
  | other | interrupt | create | miss | terminate | cancel =>
    exact h.still hprocs hactive hmain (.inr (by rw [hg])) (by rw [hg])
      fun room pid heq => h.saw t room pid (hg.trans heq)
  | close =>
    exact h.still hprocs hactive (fun _ => hmain (by simp)) (.inl rfl) (by rw [hg]; rfl) (by simp)
  | see room pid =>
    refine h.still hprocs hactive (fun _ => hmain (by simp)) (.inl rfl) (by rw [hg]; rfl) ?_
    rintro _ _ ⟨⟩
    exact hguard.symm
  | release g room hheld =>
    obtain ⟨hregistered, -⟩ := TurnStage.of_child?_eq_none hheld.2
    obtain ⟨habsent, hsystem⟩ := TurnStage.of_room? hheld.1
    refine h.still hprocs hactive (fun _ => ?_) (.inl rfl) (by rw [hg, hregistered]; rfl) (by simp)
    rw [← hmain habsent, hsystem]
    rfl
  | launch start turn pid =>
    obtain rfl := hguard
    obtain ⟨argv, cwd, hlaunch⟩ := hlaunch
    have hsame : w'.active = w.active := hactive
    refine h.move hprocs (fun _ => hmain (by simp)) ?_ (fun room pid => ?_) (by simp) hsaw
    · rintro _ _ ⟨⟩
      exact ⟨⟨t, turn, argv, cwd, turn.agentName, .alive⟩, by simp [hlaunch], rfl, rfl⟩
    · rw [hsame, registered_iff h.active t, hg]
      rfl
  | register start turn pid =>
    refine h.move hprocs (fun _ => hmain (by simp)) ?_ (fun room pid' => ?_) (by simp) hsaw
    · rintro _ _ ⟨⟩
      obtain ⟨p, hp, hstarter, hturn⟩ := h.child t turn pid (by rw [hg]; rfl)
      obtain ⟨p', hp', hstarter', hturn'⟩ := hprocs pid p hp
      exact ⟨p', hp', hstarter'.trans hstarter, hturn'.trans hturn⟩
    · rw [hactive, TurnAct.active]
      by_cases hroom : room = turn.roomId
      · subst hroom
        -- nobody else has registered a child for the room, whose lock the task holds
        have hothers : ∀ u, u ≠ t → (G u).registered? ≠ some (turn.roomId, pid') := fun u hu hreg =>
          hu (hlock.unique (TurnStage.room?_of_registered? hreg) (hg ▸ rfl))
        rw [AList.lookup_insert]
        simpa [TurnStage.registered?] using fun u hu hreg => absurd hreg (hothers u hu)
      · rw [AList.lookup_insert_ne hroom, registered_iff h.active t, hg]
        simp [TurnStage.registered?, Ne.symm hroom]
  | pop start turn pid fate =>
    refine h.move hprocs (fun _ => hmain (by simp)) ?_ (fun room pid' => ?_) (by simp) hsaw
    · rintro _ _ ⟨⟩
      obtain ⟨p, hp, hstarter, hturn⟩ := h.child t turn pid (by rw [hg]; rfl)
      obtain ⟨p', hp', hstarter', hturn'⟩ := hprocs pid p hp
      exact ⟨p', hp', hstarter'.trans hstarter, hturn'.trans hturn⟩
    · rw [hactive, TurnAct.active]
      by_cases hroom : room = turn.roomId
      · subst hroom
        have hothers : ∀ u, u ≠ t → (G u).registered? ≠ some (turn.roomId, pid') := fun u hu hreg =>
          hu (hlock.unique (TurnStage.room?_of_registered? hreg) (hg ▸ rfl))
        rw [AList.lookup_erase]
        simpa [TurnStage.registered?] using hothers
      · rw [AList.lookup_erase_ne hroom, registered_iff h.active t, hg]
        simp [TurnStage.registered?, Ne.symm hroom]
  | leave start turn pid outcome fate g' hfate hgone heq =>
    subst heq
    refine h.still hprocs hactive ?_ (.inl ?_) ?_ ?_
    · split <;> exact fun _ => hmain (by simp)
    · split <;> rfl
    · rw [hg]
      split <;> rfl
    · split <;> simp
  | _ =>
    first
      | exact h.still hprocs hactive (fun _ => hmain (by simp)) (.inl rfl) (by rw [hg]; rfl)
          (by simp)
      | exact h.still hprocs hactive (fun _ => hmain (by simp)) (.inr (by rw [hg]; rfl))
          (by rw [hg]; rfl) (by simp)

end RegInv

theorem ChildrenKept.of_eq (h : w'.procs = w.procs) : ChildrenKept w w' :=
  fun _ p hp => ⟨p, by rwa [h], rfl, rfl⟩

theorem ChildrenKept.of_lasts (h : Lasts w w') : ChildrenKept w w' := fun pid p hp => by
  obtain ⟨p', hp', hstarter, hturn, -⟩ := h.procs pid p hp
  exact ⟨p', hp', hstarter, hturn⟩

/-- Nothing is registered in a process without tasks. -/
theorem RegInv.empty (h : w.active = ∅) : RegInv (fun _ => .absent) w where
  main _ habsent := absurd rfl habsent
  child _ _ _ hchild := by cases hchild
  active room pid := by simp [h, TurnStage.registered?]
  saw _ _ _ hsaw := by cases hsaw

/-- Every run keeps the agreement of registrations and stages. -/
def registrations (config : MatrixDispatcher.Config) (allow : World → Step → Prop) :
    (lockInvariant config allow).Extension where
  inv := RegInv
  effect := by
    intro G w w' t e a r g' _ hlock _ hinv hatomic _ hexec hnext
    exact hinv.step hlock hatomic (TurnStage.step_cases hnext) (exec_turn hexec)
      (.of_lasts (.of_exec hexec))
  finish := by
    intro G w t _ hinv hfinal
    refine hinv.still (.of_eq rfl) rfl (fun h => absurd rfl h) (.inl rfl) ?_
      (by simp [turnMonitor])
    rcases hfinal with h | h | h <;> rw [h] <;> rfl
  env := by
    intro G w w' a _ _ hinv _ henv
    obtain ⟨m, -, hmoved⟩ := env_eq henv
    exact hinv.moved (.of_lasts (.of_moved hmoved))
      ((moved_same hmoved).2 .active (by decide) (by decide) (by decide) (by decide))
  start := by
    intro G w w' t fiber a hgood _ hinv _ hstart habsent
    obtain ⟨n, request, henter, hruns, rfl⟩ := (turnCoverage config).start_good hgood hstart
    have habsent : G t = .absent := habsent
    rw [henter]
    refine hinv.still (.of_eq rfl) rfl ?_ (.inl ?_) ?_ ?_
    · intro _
      cases request <;> cases t <;> first
        | exact Bool.noConfusion hruns
        | exact iff_of_true rfl rfl
        | exact iff_of_false Bool.false_ne_true nofun
    · cases request <;> rfl
    · rw [habsent]
      cases request <;> rfl
    · intro room pid heq
      cases request <;> cases heq
  crash := by
    intro G w w' a _ _ _ hcrash
    obtain ⟨-, rfl⟩ := crash_eq hcrash
    exact .empty rfl

section

variable {allow : World → Step → Prop} {c : Machine.Config Tid Eff Eff.Ret World}

/-- A registered child is one of the room's, and its starter holds the lock of the room. -/
theorem registered_child (h : Reaches config allow c) {room : RoomId} {pid : Pid}
    (hreg : c.world.active.lookup room = some pid) :
    ∃ child, c.world.procs[pid]? = some child ∧ child.turn.roomId = room ∧
      (c.world.locks room).owner = some child.starter := by
  obtain ⟨G, -, hlock, hinv⟩ := ((lockInvariant config allow).extend
    (registrations config allow)).reachable h (turnCoverage config).good_initial
    ⟨.idle fun _ => rfl, .empty rfl⟩
  obtain ⟨child, -, hpid, hroom, howner, -⟩ := hlock.registered hinv.active hinv.child hreg
  exact ⟨child, hpid, hroom, howner⟩

/-- The registrations agree with the stages whenever a task is about to perform an effect, which
its stage accepts. -/
theorem registrations_about (h : Reaches config allow c) {t : Tid} {e : Eff}
    (habout : c.About t e) :
    ∃ G, RegInv G c.world ∧ ∀ r, ∃ g', TurnStep config (G t) (TurnAct.of e r) g' := by
  obtain ⟨G, -, ⟨-, hinv⟩, -, haccept⟩ := ((lockInvariant config allow).extend
    (registrations config allow)).about h (turnCoverage config).good_initial
    ⟨.idle fun _ => rfl, .empty rfl⟩ habout
  exact ⟨G, hinv, fun r => (haccept r).imp fun _ => TurnStage.step_cases⟩

/-- `!cancel` signals the child that is registered for its room. -/
theorem registered_of_signal (h : Reaches config allow c) {t : Tid} {room : RoomId} {pid : Pid}
    (ht : t ≠ .main) (habout : c.About t (.sync (.sendSignal room pid))) :
    c.world.active.lookup room = some pid := by
  obtain ⟨G, hinv, haccept⟩ := registrations_about h habout
  obtain ⟨g', hstep⟩ := haccept (.ok ())
  change TurnStep config (G t) (.signal room pid) g' at hstep
  have hmain := hinv.main t
  generalize hg : G t = g at hstep hmain
  cases hstep with
  | terminate => exact absurd ((hmain (by simp)).mp rfl) ht
  | signal => exact hinv.saw t room pid hg

/-- `main` looks for no child. -/
theorem ne_main_of_look (h : Reaches config allow c) {t : Tid} {room : RoomId}
    (habout : c.About t (.sync (.activeGet room))) : t ≠ .main := by
  rintro rfl
  obtain ⟨G, hinv, haccept⟩ := registrations_about h habout
  obtain ⟨g', hstep⟩ := haccept none
  change TurnStep config (G .main) (.look room none) g' at hstep
  have hmain := hinv.main .main
  generalize G .main = g at hstep hmain
  cases hstep
  cases (hmain (by simp)).mpr rfl

end

end MatrixDispatcher
