import MatrixDispatcher.Safety.Locks

/-!
# One child a room

Until `main` begins its shutdown, nothing but `main` is cancelled, so a task stays with the child
it has started until the child is gone. With the room locks this gives the exclusion of turns.

* `beforeShutdown` — the runs of one process in which the shutdown has not begun.
* `ChildInv` — the children, their registrations and the stages of the tasks agree.
* `room_exclusive` — what the room lock is for.
-/

namespace MatrixDispatcher

open Coro

variable {config : MatrixDispatcher.Config} {G : Tid → TurnStage} {w w' : World}

/-- The process does not die, and `main` does not begin its shutdown. -/
def beforeShutdown (_ : World) : Step → Prop
  | .crash _ => False
  | .effect .main (.sync (.mark .closing)) _ => False
  | _ => True

/-- `beforeShutdown`, evaluated. -/
def isBeforeShutdown : Step → Bool
  | .crash _ => false
  | .effect .main (.sync (.mark .closing)) _ => false
  | _ => true

theorem beforeShutdown_of_check (w : World) (e : Step) (h : isBeforeShutdown e = true) :
    beforeShutdown w e := by
  rw [beforeShutdown.eq_def]
  split
  · cases h
  · cases h
  · trivial

/-- A task of this name can be in this stage, as long as no shutdown begins. -/
def TurnStage.Fits (t : Tid) : TurnStage → Prop
  | absent => True
  | system => t = .main
  | closing => False
  | _ => t ≠ .main

theorem TurnStage.Fits.ne_main {t : Tid} {g : TurnStage} {room : RoomId} (h : g.Fits t)
    (hroom : g.room? = some room) : t ≠ .main := by
  cases g <;> first | exact h | cases hroom

/-- The children, their registrations and the stages of the tasks agree. -/
structure ChildInv (G : Tid → TurnStage) (w : World) : Prop where
  cancelled : ∀ t ∈ w.cancelled, t = .main
  fits : ∀ t, (G t).Fits t
  fate : ∀ t pid, (G t).fate? ≠ some (pid, .lost)
  gone : ∀ t pid, (G t).fate? = some (pid, .gone) → (w.exitOf pid).isSome
  child : ∀ t turn pid, (G t).child? = some (turn, pid) →
    ∃ p, w.procs[pid]? = some p ∧ p.starter = t ∧ p.turn = turn
  alive : ∀ (pid : Pid) p, w.procs[pid]? = some p → p.status = .alive →
    (G p.starter).child? = some (p.turn, pid)
  active : ∀ room pid, w.active.lookup room = some pid ↔ ∃ t, (G t).registered? = some (room, pid)
  saw : ∀ t room pid, G t = .saw room pid → w.active.lookup room = some pid
  left : ∀ pid ∈ leftRuns w.trace, pid < w.procs.length ∧ ∀ t turn, (G t).child? ≠ some (turn, pid)

/-- The same children, of which some may have exited. -/
structure ProcsSame (w w' : World) : Prop where
  length : w'.procs.length = w.procs.length
  kept : ∀ (pid : Pid) p, w.procs[pid]? = some p → ∃ p', w'.procs[pid]? = some p' ∧
    p'.starter = p.starter ∧ p'.turn = p.turn ∧ p'.agentId = p.agentId
  alive : ∀ (pid : Pid) p, w'.procs[pid]? = some p → p.status = .alive → w.procs[pid]? = some p
  gone : ∀ pid, (w.exitOf pid).isSome → (w'.exitOf pid).isSome

theorem ProcsSame.of_eq (h : w'.procs = w.procs) : ProcsSame w w' := by
  refine ⟨by rw [h], fun pid p hp => ⟨p, by rwa [h], rfl, rfl, rfl⟩, fun pid p hp _ => by rwa [← h],
    fun pid => ?_⟩
  rw [World.exitOf, World.exitOf, h]
  exact id

/-- A child that is alive has not exited. -/
theorem exitOf_of_alive {pid : Pid} {p : Proc} (hp : w.procs[pid]? = some p)
    (halive : p.status = .alive) : w.exitOf pid = none := by
  obtain ⟨starter, turn, argv, cwd, agent, status⟩ := p
  dsimp only at halive
  subst halive
  rw [World.exitOf, hp]

/-- A child that exits stays what it was. -/
theorem ProcsSame.exit {pid : Pid} {rc : Int} {out err : Str}
    (h : w.moved (.exit pid rc out err) = some w') : ProcsSame w w' := by
  rw [World.moved.eq_def] at h
  dsimp only at h
  split at h
  · next hp =>
    cases h
    -- The status of one child changes.
    have hget : ∀ q : Pid, (setStatus w.procs pid (.exited rc out err))[q]? =
        if pid = q then w.procs[q]?.map fun p => { p with status := .exited rc out err }
        else w.procs[q]? := by
      intro q
      rw [setStatus, List.getElem?_modify]
      split <;> simp
    refine ⟨List.length_modify .., fun q p hq => ?_, fun q p hq halive => ?_, fun q hgone => ?_⟩
    · by_cases heq : pid = q
      · subst heq
        exact ⟨{ p with status := .exited rc out err }, by simp [hget, hq], rfl, rfl, rfl⟩
      · exact ⟨p, by simp [hget, heq, hq], rfl, rfl, rfl⟩
    · dsimp only at hq
      rw [hget] at hq
      split at hq
      · obtain ⟨p', -, rfl⟩ := Option.map_eq_some_iff.mp hq
        cases halive
      · exact hq
    · by_cases heq : pid = q
      · subst heq
        simp [World.exitOf, hget, hp]
      · rw [World.exitOf] at hgone ⊢
        simp only [hget, heq, if_false]
        exact hgone
  · cases h

theorem ProcsSame.moved {m : Move} (h : w.moved m = some w') : ProcsSame w w' := by
  cases m with
  | exit pid rc out err => exact .exit h
  | _ =>
    rw [World.moved] at h
    split at h <;> cases h
    exact .of_eq rfl

/-- Apart from the tasks of the dispatcher, only `SIGINT` cancels a task, and that is `main`. -/
theorem moved_cancelled {m : Move} (h : w.moved m = some w') {t : Tid} (ht : t ∈ w'.cancelled) :
    t ∈ w.cancelled ∨ t = .main := by
  cases m with
  | interrupt =>
    rw [World.moved] at h
    split at h <;> cases h
    rcases List.mem_cons.mp ht with rfl | ht
    · exact .inr rfl
    · exact .inl (List.mem_of_mem_erase ht)
  | exit pid rc out err =>
    rw [World.moved.eq_def] at h
    dsimp only at h
    split at h <;> cases h
    exact .inl ht
  | _ =>
    rw [World.moved] at h
    split at h <;> cases h
    exact .inl ht

theorem TurnStage.of_child?_eq_none {g : TurnStage} (h : g.child? = none) :
    g.registered? = none ∧ g.fate? = none := by
  cases g <;> first | exact ⟨rfl, rfl⟩ | cases h

/-- A registration is for the room whose lock the task holds. -/
theorem TurnStage.room?_of_registered? {g : TurnStage} {room : RoomId} {pid : Pid}
    (h : g.registered? = some (room, pid)) : g.room? = some room := by
  cases g <;> cases h
  rfl

section

variable {t : Tid} {g' : TurnStage}

/-- What is registered, as seen by task `t`. -/
theorem registered_iff (h : ∀ room pid, w.active.lookup room = some pid ↔
    ∃ u, (G u).registered? = some (room, pid)) (t : Tid) {room : RoomId} {pid : Pid} :
    w.active.lookup room = some pid ↔ (G t).registered? = some (room, pid) ∨
      ∃ u, u ≠ t ∧ (G u).registered? = some (room, pid) := by
  rw [h]
  constructor
  · rintro ⟨u, hu⟩
    by_cases hut : u = t
    · exact .inl (hut ▸ hu)
    · exact .inr ⟨u, hut, hu⟩
  · rintro (hu | ⟨u, -, hu⟩)
    · exact ⟨t, hu⟩
    · exact ⟨u, hu⟩

/-- The registrations after task `t` went on to `g'`. -/
theorem registered_update (h : ∀ room pid, w'.active.lookup room = some pid ↔
      g'.registered? = some (room, pid) ∨ ∃ u, u ≠ t ∧ (G u).registered? = some (room, pid))
    (room : RoomId) (pid : Pid) : w'.active.lookup room = some pid ↔
      ∃ u, (Function.update G t g' u).registered? = some (room, pid) := by
  rw [h]
  constructor
  · rintro (hu | ⟨u, hu, hreg⟩)
    · exact ⟨t, by rwa [Function.update_self]⟩
    · exact ⟨u, by rwa [Function.update_of_ne hu]⟩
  · rintro ⟨u, hreg⟩
    by_cases hu : u = t
    · subst hu
      exact .inl (by rwa [Function.update_self] at hreg)
    · exact .inr ⟨u, hu, by rwa [Function.update_of_ne hu] at hreg⟩

end

namespace ChildInv

variable {t : Tid} {g' : TurnStage}

/-- A task goes on without a new child: it keeps its child or gives up one that has exited, and
the registrations change as its own does. -/
theorem move (h : ChildInv G w) (hcancelled : ∀ u ∈ w'.cancelled, u = .main)
    (hprocs : ProcsSame w w') (hfits : g'.Fits t) (hfate : ∀ pid, g'.fate? ≠ some (pid, .lost))
    (hgone : ∀ pid, g'.fate? = some (pid, .gone) → (w.exitOf pid).isSome)
    (hchild : g'.child? = (G t).child? ∨ g'.child? = none ∧
      ∀ turn pid, (G t).child? = some (turn, pid) → (w.exitOf pid).isSome)
    (hactive : ∀ room pid, w'.active.lookup room = some pid ↔
      g'.registered? = some (room, pid) ∨ ∃ u, u ≠ t ∧ (G u).registered? = some (room, pid))
    (hsaw : ∀ room pid, g' = .saw room pid → w'.active.lookup room = some pid)
    (hothers : ∀ u room pid, u ≠ t → G u = .saw room pid → w'.active.lookup room = some pid)
    (hleft : ∀ pid ∈ leftRuns w'.trace, pid ∈ leftRuns w.trace ∨
      g'.child? = none ∧ ∃ turn, (G t).child? = some (turn, pid)) :
    ChildInv (Function.update G t g') w' := by
  constructor
  case cancelled => exact hcancelled
  case fits =>
    intro u
    by_cases hu : u = t
    · subst hu
      rwa [Function.update_self]
    · rw [Function.update_of_ne hu]
      exact h.fits u
  case fate =>
    intro u pid
    by_cases hu : u = t
    · subst hu
      rw [Function.update_self]
      exact hfate pid
    · rw [Function.update_of_ne hu]
      exact h.fate u pid
  case gone =>
    intro u pid hu
    by_cases hut : u = t
    · subst hut
      rw [Function.update_self] at hu
      exact hprocs.gone pid (hgone pid hu)
    · rw [Function.update_of_ne hut] at hu
      exact hprocs.gone pid (h.gone u pid hu)
  case child =>
    intro u turn pid hu
    have hu : (G u).child? = some (turn, pid) := by
      by_cases hut : u = t
      · subst hut
        rw [Function.update_self] at hu
        rcases hchild with heq | ⟨hnone, -⟩
        · rwa [← heq]
        · rw [hnone] at hu
          cases hu
      · rwa [Function.update_of_ne hut] at hu
    obtain ⟨p, hp, hstarter, hturn⟩ := h.child u turn pid hu
    obtain ⟨p', hp', hstarter', hturn', -⟩ := hprocs.kept pid p hp
    exact ⟨p', hp', hstarter'.trans hstarter, hturn'.trans hturn⟩
  case alive =>
    intro pid p hp halive
    have hp := hprocs.alive pid p hp halive
    have hold := h.alive pid p hp halive
    -- A child that is alive is that of its starter, which has not given it up.
    by_cases hpt : p.starter = t
    · rw [hpt, Function.update_self]
      rw [hpt] at hold
      rcases hchild with heq | ⟨-, hexited⟩
      · rwa [heq]
      · simpa [exitOf_of_alive hp halive] using hexited _ _ hold
    · rwa [Function.update_of_ne hpt]
  case active => exact registered_update hactive
  case saw =>
    intro u room pid hu
    by_cases hut : u = t
    · subst hut
      rw [Function.update_self] at hu
      exact hsaw room pid hu
    · rw [Function.update_of_ne hut] at hu
      exact hothers u room pid hut hu
  case left =>
    intro pid hpid
    rcases hleft pid hpid with hpid | ⟨hnone, turn, hturn⟩
    · obtain ⟨hlt, hnot⟩ := h.left pid hpid
      refine ⟨hprocs.length ▸ hlt, fun u turn => ?_⟩
      by_cases hu : u = t
      · subst hu
        rw [Function.update_self]
        rcases hchild with heq | ⟨hnone, -⟩
        · rw [heq]
          exact hnot u turn
        · simp [hnone]
      · rw [Function.update_of_ne hu]
        exact hnot u turn
    · obtain ⟨p, hp, hstarter, -⟩ := h.child t turn pid hturn
      refine ⟨hprocs.length ▸ (List.getElem?_eq_some_iff.mp hp).1, fun u turn' => ?_⟩
      by_cases hu : u = t
      · subst hu
        simp [hnone]
      · -- the child has one starter
        rw [Function.update_of_ne hu]
        intro hu'
        obtain ⟨p', hp', hstarter', -⟩ := h.child u turn' pid hu'
        rw [hp] at hp'
        cases hp'
        exact hu (hstarter'.symm.trans hstarter)

/-- A task goes on without a change of what it says about its child. -/
theorem still (h : ChildInv G w) (hcancelled : ∀ u ∈ w'.cancelled, u = .main)
    (hprocs : ProcsSame w w') (hactive : w'.active = w.active)
    (hleft : leftRuns w'.trace = leftRuns w.trace)
    (hfits : g'.Fits t) (hchild : g'.child? = (G t).child?)
    (hregistered : g'.registered? = (G t).registered?)
    (hfate : g'.fate? = (G t).fate?)
    (hsaw : ∀ room pid, g' = .saw room pid → w.active.lookup room = some pid) :
    ChildInv (Function.update G t g') w' := by
  refine h.move hcancelled hprocs hfits ?_ ?_ (.inl hchild) ?_ ?_ ?_ ?_
  · rw [hfate]
    exact h.fate t
  · rw [hfate]
    exact h.gone t
  · intro room pid
    rw [hactive, hregistered]
    exact registered_iff h.active t
  · rw [hactive]
    exact hsaw
  · intro u room pid _ hu
    rw [hactive]
    exact h.saw u room pid hu
  · rw [hleft]
    exact fun pid hpid => .inl hpid

/-- The world changes, and no task goes on. -/
theorem moved (h : ChildInv G w) (hcancelled : ∀ u ∈ w'.cancelled, u = .main)
    (hprocs : ProcsSame w w') (hactive : w'.active = w.active)
    (hleft : leftRuns w'.trace = leftRuns w.trace) : ChildInv G w' := by
  have hstill := h.still (t := .main) hcancelled hprocs hactive hleft (h.fits _) rfl rfl rfl
    (h.saw .main)
  rwa [Function.update_eq_self] at hstill

/-- A new child. -/
theorem launch (h : ChildInv G w) {start : Time} {turn : Turn} {argv : List Str} {cwd : Str}
    (hg : G t = .called start turn) (hcancelled : ∀ u ∈ w'.cancelled, u = .main)
    (hprocs : w'.procs = w.procs ++ [⟨t, turn, argv, cwd, turn.agentName, .alive⟩])
    (hactive : w'.active = w.active) (hleft : leftRuns w'.trace = leftRuns w.trace) :
    ChildInv (Function.update G t (.launched start turn w.procs.length)) w' := by
  -- `main` starts no children.
  have hfits : t ≠ .main := by
    have := h.fits t
    rwa [hg] at this
  -- The children from before are those with smaller numbers.
  have hold : ∀ {pid : Pid}, pid < w.procs.length → w'.procs[pid]? = w.procs[pid]? := by
    intro pid hlt
    rw [hprocs, List.getElem?_append_left hlt]
  have hlt : ∀ {pid : Pid} {p}, w.procs[pid]? = some p → pid < w.procs.length :=
    fun hp => (List.getElem?_eq_some_iff.mp hp).1
  constructor
  case cancelled => exact hcancelled
  case fits =>
    intro u
    by_cases hu : u = t
    · subst hu
      rw [Function.update_self]
      exact hfits
    · rw [Function.update_of_ne hu]
      exact h.fits u
  case fate =>
    intro u pid
    by_cases hu : u = t
    · subst hu
      simp [TurnStage.fate?]
    · rw [Function.update_of_ne hu]
      exact h.fate u pid
  case gone =>
    intro u pid hu
    by_cases hut : u = t
    · subst hut
      simp [TurnStage.fate?] at hu
    · rw [Function.update_of_ne hut] at hu
      have hgone := h.gone u pid hu
      rw [World.exitOf] at hgone ⊢
      cases hp : w.procs[pid]? with
      | none => simp [hp] at hgone
      | some p =>
        rw [hold (hlt hp), hp]
        rwa [hp] at hgone
  case child =>
    intro u turn' pid hu
    by_cases hut : u = t
    · subst hut
      obtain ⟨rfl, rfl⟩ : turn = turn' ∧ w.procs.length = pid := by
        simpa [TurnStage.child?] using hu
      exact ⟨⟨u, turn, argv, cwd, turn.agentName, .alive⟩, by simp [hprocs], rfl, rfl⟩
    · rw [Function.update_of_ne hut] at hu
      obtain ⟨p, hp, hstarter, hturn⟩ := h.child u turn' pid hu
      exact ⟨p, by rwa [hold (hlt hp)], hstarter, hturn⟩
  case alive =>
    intro pid p hp halive
    by_cases hpid : pid < w.procs.length
    · rw [hold hpid] at hp
      have hchild := h.alive pid p hp halive
      have hne : p.starter ≠ t := by
        intro heq
        rw [heq, hg] at hchild
        cases hchild
      rwa [Function.update_of_ne hne]
    · obtain rfl : pid = w.procs.length := by
        have := (List.getElem?_eq_some_iff.mp hp).1
        rw [hprocs, List.length_append, List.length_singleton] at this
        exact le_antisymm (Nat.le_of_lt_succ this) (not_lt.mp hpid)
      obtain rfl : _ = p := by simpa [hprocs] using hp
      simp [TurnStage.child?]
  case active =>
    intro room pid
    rw [hactive, h.active]
    refine exists_congr fun u => ?_
    by_cases hu : u = t
    · subst hu
      simp [hg, TurnStage.registered?]
    · rw [Function.update_of_ne hu]
  case saw =>
    intro u room pid hu
    by_cases hut : u = t
    · subst hut
      simp at hu
    · rw [Function.update_of_ne hut] at hu
      rw [hactive]
      exact h.saw u room pid hu
  case left =>
    intro pid hpid
    rw [hleft] at hpid
    obtain ⟨hlt, hnot⟩ := h.left pid hpid
    refine ⟨by rw [hprocs, List.length_append]; exact Nat.lt_add_right _ hlt, fun u turn' => ?_⟩
    by_cases hu : u = t
    · subst hu
      simp [TurnStage.child?, Ne.symm (Nat.ne_of_lt hlt)]
    · rw [Function.update_of_ne hu]
      exact hnot u turn'

/-- Acts of turns keep the agreement, as long as no shutdown begins. -/
theorem step {act : TurnAct} (hlock : LockInv G w) (h : ChildInv G w)
    (hatomic : ∀ u, u ≠ t → (G u).isAtomic = false) (hstep : TurnStep config (G t) act g')
    (hact : TurnChange t act w w') (hopen : act ≠ .closing)
    (hcancelled : act ≠ .cancel → w'.cancelled ⊆ w.cancelled)
    (hleft : leftRuns w'.trace = act.left.toList ++ leftRuns w.trace) :
    ChildInv (Function.update G t g') w' := by
  have hguard := hact.guard
  have hprocs := hact.procs
  have hactive := hact.active
  have hsaw : ∀ u room pid, u ≠ t → G u = .saw room pid → w'.active.lookup room = some pid := by
    intro u room pid hu hsaw
    have := hatomic u hu
    simp [hsaw, TurnStage.isAtomic] at this
  have hfits := h.fits t
  generalize hg : G t = g at hstep hfits
  -- nobody but `main` is cancelled
  have hkeep : act ≠ .cancel → ∀ u ∈ w'.cancelled, u = .main :=
    fun hne u hu => h.cancelled u (hcancelled hne hu)
  have hlive : ∀ {room}, g.room? = some room → t ∉ w.cancelled :=
    fun hroom hmem => hfits.ne_main hroom (h.cancelled t hmem)
  cases hstep with
  | other | interrupt | create | miss =>
    exact h.still (hkeep (by simp)) (.of_eq hprocs) hactive hleft hfits (by rw [hg]) (by rw [hg])
      (by rw [hg]) fun room pid heq => h.saw t room pid (hg.trans heq)
  | abandon => exact absurd hguard (hlive rfl)
  | lost => exact absurd hguard (hlive rfl)
  | close => exact absurd rfl hopen
  | terminate | cancel => exact hfits.elim
  | see room pid =>
    refine h.still (hkeep (by simp)) (.of_eq hprocs) hactive hleft hfits (by rw [hg]; rfl)
      (by rw [hg]; rfl) (by rw [hg]; rfl) ?_
    rintro _ _ ⟨⟩
    exact hguard.symm
  | release g room hheld =>
    obtain ⟨hregistered, hfate⟩ := TurnStage.of_child?_eq_none hheld.2
    refine h.still (hkeep (by simp)) (.of_eq hprocs) hactive hleft (hfits.ne_main hheld.1) ?_ ?_ ?_
      (by simp)
    · rw [hg, hheld.2]
      rfl
    · rw [hg, hregistered]
      rfl
    · rw [hg, hfate]
      rfl
  | launch start turn pid =>
    obtain rfl := hguard
    obtain ⟨argv, cwd, hprocs⟩ := hprocs
    exact h.launch hg (hkeep (by simp)) hprocs hactive hleft
  | register start turn pid =>
    refine h.move (hkeep (by simp)) (.of_eq hprocs) hfits
      (by simp [TurnStage.fate?]) (by simp [TurnStage.fate?]) (.inl (by rw [hg]; rfl))
      (fun room pid' => ?_) (by simp) hsaw (by rw [hleft]; exact fun _ => .inl)
    rw [hactive, TurnAct.active]
    by_cases hroom : room = turn.roomId
    · subst hroom
      -- nobody else has registered a child for the room, whose lock the task holds
      have hothers : ∀ u, u ≠ t → (G u).registered? ≠ some (turn.roomId, pid') := fun u hu hreg =>
        hu (hlock.unique (TurnStage.room?_of_registered? hreg) (hg ▸ rfl))
      rw [AList.lookup_insert]
      simpa [TurnStage.registered?] using fun u hu hreg => absurd hreg (hothers u hu)
    · rw [AList.lookup_insert_ne hroom, registered_iff h.active t, hg]
      simp [TurnStage.registered?, Ne.symm hroom]
  | gone start turn pid =>
    refine h.move (hkeep (by simp)) (.of_eq hprocs) hfits
      (by simp [TurnStage.fate?]) ?_ (.inl (by rw [hg]; rfl)) (fun room pid' => ?_) (by simp) hsaw
      (by rw [hleft]; exact fun _ => .inl)
    · rintro _ ⟨⟩
      exact hguard
    · have hsame : w'.active = w.active := hactive
      rw [hsame, registered_iff h.active t, hg]
      rfl
  | pop start turn pid fate =>
    refine h.move (hkeep (by simp)) (.of_eq hprocs) hfits
      (fun pid' hfate => h.fate t pid' (by rw [hg]; exact hfate))
      (fun pid' hfate => h.gone t pid' (by rw [hg]; exact hfate)) (.inl (by rw [hg]; rfl))
      (fun room pid' => ?_) (by simp) hsaw (by rw [hleft]; exact fun _ => .inl)
    rw [hactive, TurnAct.active]
    by_cases hroom : room = turn.roomId
    · subst hroom
      have hothers : ∀ u, u ≠ t → (G u).registered? ≠ some (turn.roomId, pid') := fun u hu hreg =>
        hu (hlock.unique (TurnStage.room?_of_registered? hreg) (hg ▸ rfl))
      rw [AList.lookup_erase]
      simpa [TurnStage.registered?] using hothers
    · rw [AList.lookup_erase_ne hroom, registered_iff h.active t, hg]
      simp [TurnStage.registered?, Ne.symm hroom]
  | leave start turn pid outcome fate g' hfate hgone heq =>
    -- the child is gone, as the task was not cancelled
    obtain rfl : fate = .gone := by
      cases fate with
      | unknown => exact absurd rfl hfate
      | gone => rfl
      | lost => exact absurd (by rw [hg]; rfl) (h.fate t pid)
    have hexited : (w.exitOf pid).isSome := h.gone t pid (by rw [hg]; rfl)
    have hg' : g'.child? = none ∧ g'.registered? = none ∧ g'.fate? = none := by
      subst heq
      split <;> exact ⟨rfl, rfl, rfl⟩
    refine h.move (hkeep (by simp)) (.of_eq hprocs) ?_ (by simp [hg'])
      (by simp [hg']) (.inr ⟨hg'.1, ?_⟩) (fun room pid' => ?_) ?_ hsaw ?_
    · subst heq
      split <;> exact hfits
    · rw [hg]
      rintro _ _ ⟨⟩
      exact hexited
    · have hsame : w'.active = w.active := hactive
      rw [hsame, registered_iff h.active t, hg, hg'.2.1]
      rfl
    · subst heq
      split <;> simp
    · rw [hleft]
      intro pid' hpid'
      rcases List.mem_append.mp hpid' with hnew | hold
      · obtain rfl : pid' = pid := by simpa [TurnAct.left] using hnew
        exact .inr ⟨hg'.1, turn, by rw [hg]; rfl⟩
      · exact .inl hold
  | _ =>
    exact h.still (hkeep (by simp)) (.of_eq hprocs) hactive hleft hfits (by rw [hg]; rfl)
      (by rw [hg]; rfl) (by rw [hg]; rfl) (by simp)

end ChildInv

/-- Every run keeps the agreement of children and stages until the shutdown begins. -/
def childExtension (config : MatrixDispatcher.Config) :
    (lockInvariant config beforeShutdown).Extension where
  inv := ChildInv
  effect := by
    intro G w w' t e a r g' _ hlock _ hinv hatomic hallow hexec hnext
    have hstep := TurnStage.step_cases hnext
    refine hinv.step hlock hatomic hstep (exec_turn hexec) ?_ (exec_cancelled hexec)
      (exec_left hexec)
    intro hclosing
    obtain rfl : e = .sync (.mark .closing) := by
      have horigin := TurnAct.origin_of e r
      rwa [hclosing] at horigin
    have hfits := hinv.fits t
    rw [hclosing] at hstep
    generalize G t = g at hstep hfits
    cases hstep
    subst hfits
    exact hallow
  finish := by
    intro G w t _ hinv hfinal
    have hparts : (G t).child? = none ∧ (G t).registered? = none ∧ (G t).fate? = none := by
      rcases hfinal with h | h | h <;> rw [h] <;> exact ⟨rfl, rfl, rfl⟩
    show ChildInv (Function.update G t .absent) w
    refine hinv.still hinv.cancelled (.of_eq rfl) rfl rfl trivial ?_ ?_ ?_ (by simp)
    · exact hparts.1.symm
    · exact hparts.2.1.symm
    · exact hparts.2.2.symm
  env := by
    intro G w w' a _ _ hinv _ henv
    obtain ⟨m, -, hmoved⟩ := env_eq henv
    obtain ⟨htrace, hsame⟩ := moved_same hmoved
    refine hinv.moved (fun u hu => ?_) (.moved hmoved)
      (hsame .active (by decide) (by decide) (by decide) (by decide)) (by rw [htrace])
    rcases moved_cancelled hmoved hu with hold | hmain
    · exact hinv.cancelled u hold
    · exact hmain
  start := by
    intro G w w' t fiber a hgood _ hinv _ hstart habsent
    obtain ⟨n, request, henter, hruns, rfl⟩ := (turnCoverage config).start_good hgood hstart
    have habsent : G t = .absent := habsent
    have hparts : ((turnCoverage config).enter request).child? = none ∧
        ((turnCoverage config).enter request).registered? = none ∧
        ((turnCoverage config).enter request).fate? = none ∧
        ((turnCoverage config).enter request).Fits t := by
      cases request <;> cases t <;> first | exact ⟨rfl, rfl, rfl, rfl⟩ | cases hruns
      all_goals exact ⟨rfl, rfl, rfl, by simp [turnCoverage, TurnStage.Fits]⟩
    rw [henter]
    refine hinv.still hinv.cancelled (.of_eq rfl) rfl rfl hparts.2.2.2 ?_ ?_ ?_ ?_
    · rw [hparts.1, habsent]
      rfl
    · rw [hparts.2.1, habsent]
      rfl
    · rw [hparts.2.2.1, habsent]
      rfl
    · intro room pid heq
      cases request <;> cases heq
  crash := by
    intro G w w' a _ _ hallow _
    exact hallow.elim

/-- The invariant of the runs before the shutdown. -/
def roomInvariant (config : MatrixDispatcher.Config) :
    Invariant (turnCoverage config).supervision beforeShutdown :=
  (lockInvariant config beforeShutdown).extend (childExtension config)

/-- A fresh world satisfies it. -/
theorem ChildInv.initial : ChildInv (fun _ => .absent) World.initial where
  cancelled t ht := by cases ht
  fits _ := trivial
  fate _ _ := by simp [TurnStage.fate?]
  gone _ _ h := by cases h
  child _ _ _ h := by cases h
  alive pid p h := by simp [World.initial] at h
  active room pid := by simp [World.initial, TurnStage.registered?]
  saw _ _ _ h := by cases h
  left pid h := by cases h

/-! ## The exclusion of turns -/

/-- What the room locks are for, in a configuration of the machine. -/
structure RoomExclusion (c : Machine.Config Tid Eff Eff.Ret World) : Prop where
  /-- At most one child that was started for a room is alive. -/
  oneAlive : ∀ (p q : Pid) child child', c.world.procs[p]? = some child →
    c.world.procs[q]? = some child' → child.status = .alive → child'.status = .alive →
    child.turn.roomId = child'.turn.roomId → p = q
  /-- What is registered for a room was started by the task that holds the lock of the room, and
  that task has not left `_run_claude` since. -/
  registered : ∀ room pid, c.world.active.lookup room = some pid →
    ∃ child, c.world.procs[pid]? = some child ∧ child.turn.roomId = room ∧
      (c.world.locks room).owner = some child.starter ∧
      ∀ t room' outcome, Obs.marked t (.leftRun room' pid outcome) ∉ c.world.trace
  /-- When `_run_claude` is left with a result or a timeout, its child has exited and is not
  registered. -/
  left : ∀ t room pid outcome, c.About t (.sync (.mark (.leftRun room pid outcome))) →
    outcome ≠ .raised →
      (c.world.exitOf pid).isSome ∧ c.world.active.lookup room = none
  /-- A signal for a room goes to the child that is registered for it, which is one of the
  room's. -/
  signals : ∀ t room pid, c.About t (.sync (.sendSignal room pid)) →
    c.world.active.lookup room = some pid ∧
      ∃ child, c.world.procs[pid]? = some child ∧ child.turn.roomId = room

/-- A task with a child holds the lock of its room. -/
theorem TurnStage.room?_of_child? {g : TurnStage} {turn : Turn} {pid : Pid}
    (h : g.child? = some (turn, pid)) : g.room? = some turn.roomId := by
  cases g <;> cases h <;> rfl

theorem TurnStage.child?_of_registered? {g : TurnStage} {room : RoomId} {pid : Pid}
    (h : g.registered? = some (room, pid)) :
    ∃ turn, g.child? = some (turn, pid) ∧ turn.roomId = room := by
  cases g <;> cases h
  exact ⟨_, rfl, rfl⟩

/-- A registered child is a child of the room, whose lock its starter holds. -/
theorem LockInv.registered (hlock : LockInv G w)
    (hactive : ∀ room pid, w.active.lookup room = some pid ↔
      ∃ t, (G t).registered? = some (room, pid))
    (hchild : ∀ t turn pid, (G t).child? = some (turn, pid) →
      ∃ p, w.procs[pid]? = some p ∧ p.starter = t ∧ p.turn = turn)
    {room : RoomId} {pid : Pid} (hreg : w.active.lookup room = some pid) :
    ∃ child turn, w.procs[pid]? = some child ∧ child.turn.roomId = room ∧
      (w.locks room).owner = some child.starter ∧
      (G child.starter).child? = some (turn, pid) := by
  obtain ⟨t, ht⟩ := (hactive room pid).mp hreg
  obtain ⟨turn, hown, rfl⟩ := TurnStage.child?_of_registered? ht
  obtain ⟨child, hpid, rfl, rfl⟩ := hchild t turn pid hown
  exact ⟨child, _, hpid, rfl, ((hlock _).owner _).mpr (TurnStage.room?_of_child? hown), hown⟩

/-- Until the shutdown begins, the turns of a room exclude each other. -/
theorem room_exclusive {c : Machine.Config Tid Eff Eff.Ret World}
    (h : Reaches config beforeShutdown c) : RoomExclusion c := by
  have hinit : (roomInvariant config).inv (fun _ => .absent) World.initial :=
    ⟨.idle fun _ => rfl, .initial⟩
  have hgood := (turnCoverage config).good_initial
  obtain ⟨G, -, hlock, hchild⟩ := (roomInvariant config).reachable h hgood hinit
  constructor
  case oneAlive =>
    intro p q child child' hp hq halive halive' hroom
    have hp' := hchild.alive p child hp halive
    have hq' := hchild.alive q child' hq halive'
    have hsame : child.starter = child'.starter :=
      hlock.unique (TurnStage.room?_of_child? hp') (hroom ▸ TurnStage.room?_of_child? hq')
    rw [hsame, hq'] at hp'
    exact (congrArg Prod.snd (Option.some.inj hp')).symm
  case registered =>
    intro room pid hreg
    obtain ⟨child, turn, hpid, hroom, howner, hturn⟩ :=
      hlock.registered hchild.active hchild.child hreg
    refine ⟨child, hpid, hroom, howner, fun t room' outcome hmem => ?_⟩
    exact (hchild.left pid (mem_leftRuns.mpr ⟨t, room', outcome, hmem⟩)).2 _ _ hturn
  case left =>
    intro t room pid outcome habout hraised
    obtain ⟨G, -, ⟨hlock, hchild⟩, -, haccept⟩ := (roomInvariant config).about h hgood hinit habout
    obtain ⟨g', hnext⟩ := haccept ()
    have hstep : TurnStep config (G t) (.leave room pid outcome) g' := TurnStage.step_cases hnext
    generalize hg : G t = g at hstep
    cases hstep with
    | leave start turn _ _ fate _ hfate hgone =>
      obtain rfl := hgone hraised
      refine ⟨hchild.gone t pid (by rw [hg]; rfl), ?_⟩
      -- who else had registered a child would hold the same lock
      rw [Option.eq_none_iff_forall_ne_some]
      intro pid' hreg
      obtain ⟨u, hu⟩ := (hchild.active _ _).mp hreg
      obtain rfl : u = t := hlock.unique (TurnStage.room?_of_registered? hu) (by rw [hg]; rfl)
      rw [hg] at hu
      cases hu
  case signals =>
    intro t room pid habout
    obtain ⟨G, -, ⟨hlock, hchild⟩, -, haccept⟩ := (roomInvariant config).about h hgood hinit habout
    obtain ⟨g', hnext⟩ := haccept (.ok ())
    have hstep : TurnStep config (G t) (.signal room pid) g' := TurnStage.step_cases hnext
    have hfits := hchild.fits t
    generalize hg : G t = g at hstep hfits
    cases hstep with
    | terminate => exact hfits.elim
    | signal =>
      have hreg := hchild.saw t room pid hg
      obtain ⟨child, -, hpid, hroom, -⟩ := hlock.registered hchild.active hchild.child hreg
      exact ⟨hreg, child, hpid, hroom⟩

theorem room_exclusive_spawning : ∃ c, Reaches oneAgent beforeShutdown c ∧
    c.world.active.lookup (lit "!room") = some 0 ∧ RoomExclusion c := by
  obtain ⟨c, h, hgoal⟩ := reaches_of_play oneAgent spawning
    (fun c => c.world.active.lookup (lit "!room") == some 0) beforeShutdown_of_check
    (by decide +kernel)
  exact ⟨c, h, by simpa using hgoal, room_exclusive h⟩

end MatrixDispatcher
