import MatrixDispatcher.Safety.Registrations

/-!
# The aim of `!cancel`

Which turn the child belongs to that `!cancel` signals, in every run: over other messages, other
rooms, approvals and the shutdown.

* `Aimed` — the turn of the signalled child has held the lock since the command's first check.
* `cancel_aimed` — so it is unless a turn that took the lock after the check registers its child
  before the signal.
* `cancel_misses` — a run in which one does.
-/

namespace MatrixDispatcher

open Coro

variable {config : MatrixDispatcher.Config} {c₀ c₁ c : Machine.Config Tid Eff Eff.Ret World}
  {room : RoomId} {pid : Pid}

/-! ## Steps -/

/-- The process does not die, and no task obtains the lock of the room. -/
def untaken (roomId : RoomId) (w : World) : Step → Prop
  | .crash _ => False
  | .effect _ (.sync (.lockTry room)) _ =>
    room = roomId → ¬((w.locks room).owner = none ∧ (w.locks room).waiters = [])
  | .effect t (.await (.lockWait room)) _ => room = roomId → t ∈ w.cancelled
  | _ => True

/-- The process does not die, and no task registers a child for the room. -/
def unregistered (roomId : RoomId) (_ : World) : Step → Prop
  | .crash _ => False
  | .effect _ (.sync (.activeSet room _)) _ => room ≠ roomId
  | _ => True

/-- The child of the room belongs to the turn that held the lock at `c₀`, and has held it from
there to `c`. -/
def Aimed (config : MatrixDispatcher.Config) (room : RoomId) (pid : Pid)
    (c₀ c : Machine.Config Tid Eff Eff.Ret World) : Prop :=
  ∃ child, c.world.procs[pid]? = some child ∧ child.turn.roomId = room ∧
    (c₀.world.locks room).owner = some child.starter ∧
    (dispatcher config).Reachable (fun w _ => (w.locks room).owner = some child.starter) c₀ c

/-! ## The owner of the lock -/

/-- An effect with which the task does not obtain the lock leaves it to an owner who had it. -/
theorem owner_of_exec {t u : Tid} {e : Eff} {a : Answer} {r : e.Ret} {w w' : World}
    (hallow : untaken room w (.effect t e a)) (hexec : exec t a e w = some (r, w'))
    (howner : (w'.locks room).owner = some u) : (w.locks room).owner = some u := by
  have hlocks := (exec_turn hexec).locks
  have hguard := (exec_turn hexec).guard
  by_cases hmem : Component.locks ∈ e.writes
  case neg => rwa [← frame hexec hmem]
  rw [hlocks] at howner
  cases e with
  | sync e =>
    cases e with
    | lockTry room' =>
      cases r with
      | true =>
        -- the lock is taken, hence it is another room's
        have hne : room ≠ room' := fun heq => hallow heq.symm hguard
        rwa [TurnAct.of, TurnAct.ofSync, TurnAct.locks, Function.update_of_ne hne] at howner
      | false =>
        rw [TurnAct.of, TurnAct.ofSync, TurnAct.locks, Function.update_apply] at howner
        split at howner
        · next heq => rwa [heq]
        · exact howner
    | lockRelease room' =>
      rw [TurnAct.of, TurnAct.ofSync, TurnAct.locks, Function.update_apply] at howner
      split at howner
      · cases howner
      · exact howner
    | _ => simp [Eff.writes] at hmem
  | await e =>
    cases e with
    | lockWait room' =>
      cases r with
      | ok =>
        have hne : room ≠ room' := fun heq => by
          obtain ⟨⟨r', w''⟩, hquiet, heq'⟩ := Option.map_eq_some_iff.mp hexec
          cases heq'
          rcases execAwait_eq hquiet with ⟨-, hr, -⟩ | ⟨hcancelled, -⟩
          · cases hr
          · exact hcancelled (hallow heq.symm)
        rwa [TurnAct.of, TurnAct.ofAwait, TurnAct.locks, Function.update_of_ne hne] at howner
      | error x =>
        rw [TurnAct.of, TurnAct.ofAwait, TurnAct.locks, Function.update_apply] at howner
        split at howner
        · next heq => rwa [heq]
        · exact howner
    | _ => simp [Eff.writes, AwaitEff.writes] at hmem

/-- A step in which no task obtains the lock leaves it to an owner who had it before. -/
theorem owner_before {e : Step} {w : World} {u : Tid} (hallow : untaken room c.world e)
    (hchange : Machine.Change (dispatcher config) c w e)
    (howner : (w.locks room).owner = some u) : (c.world.locks room).owner = some u := by
  cases hchange with
  | effect habout hexec => exact owner_of_exec hallow hexec howner
  | turn h => rwa [← h]
  | env h =>
    obtain ⟨m, -, hmoved⟩ := env_eq h
    rwa [← (moved_same hmoved).2 .locks (by decide) (by decide) (by decide) (by decide)]
  | start h =>
    obtain ⟨n, request, -, -, -, rfl⟩ := start_eq h
    exact howner
  | crash => exact hallow.elim

/-! ## The registered child -/

/-- An effect that registers no child for the room leaves a child that was registered. -/
theorem lookup_of_exec {t : Tid} {e : Eff} {a : Answer} {r : e.Ret} {w w' : World}
    (hallow : unregistered room w (.effect t e a)) (hexec : exec t a e w = some (r, w'))
    (hreg : w'.active.lookup room = some pid) : w.active.lookup room = some pid := by
  have hactive := (exec_turn hexec).active
  by_cases hmem : Component.active ∈ e.writes
  case neg => rwa [← frame hexec hmem]
  rw [hactive] at hreg
  cases e with
  | sync e =>
    cases e with
    | activeSet room' pid' =>
      have hne : room ≠ room' := fun heq => hallow heq.symm
      rwa [TurnAct.of, TurnAct.ofSync, TurnAct.active, AList.lookup_insert_ne hne] at hreg
    | activePop room' =>
      by_cases heq : room = room'
      · subst heq
        rw [TurnAct.of, TurnAct.ofSync, TurnAct.active, AList.lookup_erase] at hreg
        cases hreg
      · rwa [TurnAct.of, TurnAct.ofSync, TurnAct.active, AList.lookup_erase_ne heq] at hreg
    | _ => simp [Eff.writes] at hmem
  | await e => cases e <;> simp [Eff.writes, AwaitEff.writes] at hmem

/-- A step in which no child is registered for the room leaves a child that was registered. -/
theorem lookup_before {e : Step} {w : World} (hallow : unregistered room c.world e)
    (hchange : Machine.Change (dispatcher config) c w e)
    (hreg : w.active.lookup room = some pid) : c.world.active.lookup room = some pid := by
  cases hchange with
  | effect habout hexec => exact lookup_of_exec hallow hexec hreg
  | turn h => rwa [← h]
  | env h =>
    obtain ⟨m, -, hmoved⟩ := env_eq h
    rwa [← (moved_same hmoved).2 .active (by decide) (by decide) (by decide) (by decide)]
  | start h =>
    obtain ⟨n, request, -, -, -, rfl⟩ := start_eq h
    exact hreg
  | crash => exact hallow.elim

/-- Children stay in a step in which the process does not die. -/
theorem lasts_of_change {e : Step} {w : World} (hallow : unregistered room c.world e)
    (hchange : Machine.Change (dispatcher config) c w e) : Lasts c.world w := by
  cases hchange with
  | effect habout hexec => exact .of_exec hexec
  | turn h => exact .of_eq (by rw [h])
  | env h =>
    obtain ⟨m, -, hmoved⟩ := env_eq h
    exact .of_moved hmoved
  | start h =>
    obtain ⟨n, request, -, -, -, rfl⟩ := start_eq h
    exact .of_eq rfl
  | crash => exact hallow.elim

/-- The child is registered for the room, belongs to it, and its starter, who has this name, holds
the lock. -/
structure RegisteredBy (room : RoomId) (pid : Pid) (u : Tid) (w : World) : Prop where
  lookup : w.active.lookup room = some pid
  child : ∃ child, w.procs[pid]? = some child ∧ child.turn.roomId = room ∧ child.starter = u
  owner : (w.locks room).owner = some u

theorem RegisteredBy.of_lookup {allow : World → Step → Prop} (h : Reaches config allow c)
    (hreg : c.world.active.lookup room = some pid) : ∃ u, RegisteredBy room pid u c.world := by
  obtain ⟨child, hpid, hroom, howner⟩ := registered_child h hreg
  exact ⟨child.starter, hreg, ⟨child, hpid, hroom, rfl⟩, howner⟩

/-- While no child is registered for the room, the child that is registered in the end was
registered by the same holder of the lock all the time. -/
theorem registered_since {u : Tid} (h₁ : Reaches config (fun _ _ => True) c₁)
    (hafter : (dispatcher config).Reachable (unregistered room) c₁ c)
    (hreg : RegisteredBy room pid u c.world) :
    RegisteredBy room pid u c₁.world ∧
      (dispatcher config).Reachable (fun w _ => (w.locks room).owner = some u) c₁ c := by
  obtain ⟨hinit, hrun⟩ := hafter.since (I := RegisteredBy room pid u)
    (fun {c' e w} hreach hallow hchange hreg => by
      obtain ⟨v, hv⟩ := RegisteredBy.of_lookup (h₁.trans (hreach.mono fun _ _ _ => trivial))
        (lookup_before hallow hchange hreg.lookup)
      obtain ⟨child, hpid, hroom, rfl⟩ := hv.child
      obtain ⟨child', hpid', hstarter, -⟩ := (lasts_of_change hallow hchange).procs pid child hpid
      obtain ⟨child'', hpid'', -, rfl⟩ := hreg.child
      obtain rfl := Option.some.inj (hpid'.symm.trans hpid'')
      exact hstarter ▸ hv) hreg
  exact ⟨hinit, hrun.mono fun _ _ h => h.2.owner⟩

/-! ## The aim -/

/-- If no turn that takes the lock after the command's first check registers its child before the
command sends `SIGTERM`, then it sends it to the child of the turn that held the lock at the
check. -/
theorem cancel_aimed {t : Tid} (h₀ : Reaches config (fun _ _ => True) c₀)
    (hfirst : c₀.About t (.sync (.activeGet room)))
    (hbefore : (dispatcher config).Reachable (untaken room) c₀ c₁)
    (hafter : (dispatcher config).Reachable (unregistered room) c₁ c)
    (hsignal : c.About t (.sync (.sendSignal room pid))) : Aimed config room pid c₀ c := by
  have h₁ := h₀.trans (hbefore.mono fun _ _ _ => trivial)
  have h := h₁.trans (hafter.mono fun _ _ _ => trivial)
  obtain ⟨u, hreg⟩ := RegisteredBy.of_lookup h
    (registered_of_signal h (ne_main_of_look h₀ hfirst) hsignal)
  obtain ⟨hreg₁, hrun₁⟩ := registered_since h₁ hafter hreg
  obtain ⟨howner, hrun₀⟩ := hbefore.since (I := fun w => (w.locks room).owner = some u)
    (fun _ hallow hchange howner => owner_before hallow hchange howner) hreg₁.owner
  obtain ⟨child, hpid, hroom, rfl⟩ := hreg.child
  exact ⟨child, hpid, hroom, howner, (hrun₀.mono fun _ _ h => h.2).trans hrun₁⟩

/-! ## Runs with `!cancel` -/

/-- The effect looks for the child of the room. -/
def isLook (room : RoomId) : Eff → Bool
  | .sync (.activeGet room') => decide (room' = room)
  | _ => false

theorem eq_of_isLook {e : Eff} (h : isLook room e = true) : e = .sync (.activeGet room) := by
  rw [isLook.eq_def] at h
  split at h
  · rw [of_decide_eq_true h]
  · cases h

/-- The effect sends `SIGTERM` to the child, for the room. -/
def isSignal (room : RoomId) (pid : Pid) : Eff → Bool
  | .sync (.sendSignal room' pid') => decide (room' = room) && decide (pid' = pid)
  | _ => false

theorem eq_of_isSignal {e : Eff} (h : isSignal room pid e = true) :
    e = .sync (.sendSignal room pid) := by
  rw [isSignal.eq_def] at h
  split at h
  · obtain ⟨hroom, hpid⟩ := Bool.and_eq_true_iff.mp h
    rw [of_decide_eq_true hroom, of_decide_eq_true hpid]
  · cases h

/-- `unregistered`, evaluated on runs in which no child is registered at all. -/
def isUnregistered : Step → Bool
  | .crash _ => false
  | .effect _ (.sync (.activeSet _ _)) _ => false
  | _ => true

theorem unregistered_of_check (w : World) (e : Step) (h : isUnregistered e = true) :
    unregistered room w e := by
  rw [isUnregistered.eq_def] at h
  split at h
  · cases h
  · cases h
  · next hcrash hne =>
    rw [unregistered.eq_def]
    split
    · exact (hcrash _ rfl).elim
    · exact (hne _ _ _ _ rfl).elim
    · trivial

/-- `!cancel` while the child of the first message is running. -/
def cancelling : List Cue :=
  spawning ++ batch (lit "t2") (lit "!room")
    [messageOf (lit "$2") (lit "!cancel") (.obj [])] ++ handling 1 2 1

theorem cancel_aimed_running : ∃ c₀ c, Reaches oneAgent (fun _ _ => True) c₀ ∧
    c₀.About (.handler 1) (.sync (.activeGet (lit "!room"))) ∧
    c.About (.handler 1) (.sync (.sendSignal (lit "!room") 0)) ∧
    Aimed oneAgent (lit "!room") 0 c₀ c := by
  obtain ⟨c₀, h₀, hgoal⟩ := reaches_of_play oneAgent cancelling
    (fun c₀ => meets c₀ (.handler 1) (isLook (lit "!room")) &&
      ((dispatcher oneAgent).play usualAnswer (fun _ e => isUnregistered e = true) c₀
        [.go (.handler 1) 1]).any fun c => meets c (.handler 1) (isSignal (lit "!room") 0))
    (fun _ _ (_ : true = true) => trivial) (by decide +kernel)
  obtain ⟨hfirst, hplay⟩ := Bool.and_eq_true_iff.mp hgoal
  have hcheck : ∀ w e, isUnregistered e = true → unregistered (lit "!room") w e :=
    unregistered_of_check
  obtain ⟨c, hafter, hgoal⟩ := Machine.exists_reachable hcheck hplay
  obtain ⟨e₀, habout₀, he₀⟩ := about_of_meets hfirst
  obtain ⟨e, habout, he⟩ := about_of_meets hgoal
  obtain rfl := eq_of_isLook he₀
  obtain rfl := eq_of_isSignal he
  exact ⟨c₀, c, h₀, habout₀, habout, cancel_aimed h₀ habout₀ .refl hafter habout⟩

/-- The first message has its answer, which is being posted, and a second one waits for the lock,
when `!cancel` comes. -/
def cancellingLate : List Cue :=
  spawning ++ batch (lit "t2") (lit "!room")
    [messageOf (lit "$2") (lit "again") (.obj [])] ++ handling 1 2 2 ++
    [.move (.exit 0 0 (lit "ok") []), .go (.handler 0) 5] ++ batch (lit "t3") (lit "!room")
    [messageOf (lit "$3") (lit "!cancel") (.obj [])] ++ handling 2 2 1

/-- `!cancel` finds the lock taken and no child; while it sleeps, the first turn ends, the second
one takes the lock and starts its child, and the command signals that one. -/
theorem cancel_misses : ¬ ∀ (c₀ c : Machine.Config Tid Eff Eff.Ret World) (t : Tid)
    (room : RoomId) (pid : Pid), Reaches oneAgent (fun _ _ => True) c₀ →
    c₀.About t (.sync (.activeGet room)) → (dispatcher oneAgent).Reachable survives c₀ c →
    c.About t (.sync (.sendSignal room pid)) → Aimed oneAgent room pid c₀ c := by
  intro hclaim
  obtain ⟨c₀, h₀, hgoal⟩ := reaches_of_play oneAgent cancellingLate
    (fun c₀ => meets c₀ (.handler 2) (isLook (lit "!room")) &&
      decide ((c₀.world.locks (lit "!room")).owner = some (.handler 0)) &&
      ((dispatcher oneAgent).play usualAnswer (fun _ e => isSurvived e = true) c₀
        [.go (.handler 2) 2, .go (.handler 0) 11, .go (.handler 1) 21, .go (.handler 2) 2]).any
        fun c => meets c (.handler 2) (isSignal (lit "!room") 1) &&
          decide ((c.world.procs[1]?.map Proc.starter) = some (.handler 1)))
    (fun _ _ (_ : true = true) => trivial) (by decide +kernel)
  obtain ⟨hgoal, hplay⟩ := Bool.and_eq_true_iff.mp hgoal
  obtain ⟨hfirst, howner⟩ := Bool.and_eq_true_iff.mp hgoal
  obtain ⟨c, hrun, hgoal⟩ := Machine.exists_reachable survives_of_check hplay
  obtain ⟨hlast, hstarter⟩ := Bool.and_eq_true_iff.mp hgoal
  obtain ⟨e₀, habout₀, he₀⟩ := about_of_meets hfirst
  obtain ⟨e, habout, he⟩ := about_of_meets hlast
  obtain rfl := eq_of_isLook he₀
  obtain rfl := eq_of_isSignal he
  obtain ⟨child, hpid, -, hheld, -⟩ := hclaim c₀ c _ _ _ h₀ habout₀ hrun habout
  have hstarter := of_decide_eq_true hstarter
  rw [hpid, Option.map_some] at hstarter
  -- the first message's handler held the lock, and the second one's started the child
  rw [of_decide_eq_true howner, Option.some.inj hstarter] at hheld
  cases hheld

end MatrixDispatcher
