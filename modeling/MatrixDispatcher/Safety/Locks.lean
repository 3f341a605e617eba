import MatrixDispatcher.Discipline.TurnEffect

/-!
# Room locks

The locks of the world and the stages of the tasks agree in every run, whatever is cancelled and
however often the process dies.

* `LockInv` — the owner of a lock is the task in a stage that holds it.
* `LockInv.step` — acts of turns keep it; `lockInvariant` — every run keeps it.
-/

namespace MatrixDispatcher

open Coro

variable {config : MatrixDispatcher.Config} {G : Tid → TurnStage} {w w' : World}

/-- A task that holds a lock does not wait for one. -/
theorem TurnStage.waits?_of_room? {g : TurnStage} {room : RoomId} (h : g.room? = some room) :
    g.waits? = none := by
  cases g <;> first | rfl | cases h

/-- A lock agrees with the stages of the tasks. -/
structure RoomInv (G : Tid → TurnStage) (room : RoomId) (l : Lock) : Prop where
  owner : ∀ t, l.owner = some t ↔ (G t).room? = some room
  waiter : ∀ t, t ∈ l.waiters ↔ (G t).waits? = some room
  nodup : l.waiters.Nodup

/-- The locks and the stages of the tasks agree. -/
def LockInv (G : Tid → TurnStage) (w : World) : Prop := ∀ room, RoomInv G room (w.locks room)

/-- Two tasks do not hold the same lock. -/
theorem LockInv.unique (h : LockInv G w) {t u : Tid} {room : RoomId}
    (ht : (G t).room? = some room) (hu : (G u).room? = some room) : t = u := by
  have howner := ((h room).owner t).mpr ht
  rw [((h room).owner u).mpr hu] at howner
  exact (Option.some.inj howner).symm

/-- Task `t` goes on to stage `g'`, and the lock changes for `t` as its stage does. -/
theorem RoomInv.update {t : Tid} {g' : TurnStage} {room : RoomId} {l l' : Lock}
    (h : RoomInv G room l) (howner : l'.owner = some t ↔ g'.room? = some room)
    (howners : ∀ u, u ≠ t → (l'.owner = some u ↔ l.owner = some u))
    (hwaiter : t ∈ l'.waiters ↔ g'.waits? = some room)
    (hwaiters : ∀ u, u ≠ t → (u ∈ l'.waiters ↔ u ∈ l.waiters)) (hnodup : l'.waiters.Nodup) :
    RoomInv (Function.update G t g') room l' where
  owner u := by
    by_cases hu : u = t
    · subst hu
      rwa [Function.update_self]
    · rw [Function.update_of_ne hu, howners u hu]
      exact h.owner u
  waiter u := by
    by_cases hu : u = t
    · subst hu
      rwa [Function.update_self]
    · rw [Function.update_of_ne hu, hwaiters u hu]
      exact h.waiter u
  nodup := hnodup

/-- A task goes on without a change that the lock of the room sees. -/
theorem RoomInv.still {t : Tid} {g' : TurnStage} {room : RoomId} {l : Lock}
    (h : RoomInv G room l) (hroom : g'.room? = some room ↔ (G t).room? = some room)
    (hwaits : g'.waits? = some room ↔ (G t).waits? = some room) :
    RoomInv (Function.update G t g') room l :=
  h.update (by rw [h.owner, hroom]) (fun _ _ => Iff.rfl) (by rw [h.waiter, hwaits])
    (fun _ _ => Iff.rfl) h.nodup

namespace LockInv

variable {t : Tid} {g' : TurnStage}

/-- A task goes on without a change that the locks see. -/
theorem still (h : LockInv G w) (hlocks : w'.locks = w.locks) (hroom : g'.room? = (G t).room?)
    (hwaits : g'.waits? = (G t).waits?) : LockInv (Function.update G t g') w' := by
  intro room
  rw [hlocks]
  exact (h room).still (by rw [hroom]) (by rw [hwaits])

/-- A task goes on with a change that only one lock sees. -/
theorem move {room : RoomId} {l : Lock} (h : LockInv G w)
    (hlocks : w'.locks = Function.update w.locks room l)
    (hroom : ∀ room', room' ≠ room → (g'.room? = some room' ↔ (G t).room? = some room'))
    (hwaits : ∀ room', room' ≠ room → (g'.waits? = some room' ↔ (G t).waits? = some room'))
    (hl : RoomInv (Function.update G t g') room l) : LockInv (Function.update G t g') w' := by
  intro room'
  rw [hlocks]
  by_cases hne : room' = room
  · subst hne
    rwa [Function.update_self]
  · rw [Function.update_of_ne hne]
    exact (h room').still (hroom room' hne) (hwaits room' hne)

/-- Acts of turns keep the agreement. -/
theorem step {act : TurnAct} (h : LockInv G w) (hstep : TurnStep config (G t) act g')
    (hact : TurnChange t act w w') : LockInv (Function.update G t g') w' := by
  have hlocks := hact.locks
  have hguard := hact.guard
  generalize hg : G t = g at hstep
  cases hstep with
  -- A free lock without a queue.
  | take room =>
    obtain ⟨howner, hwaiters⟩ := hguard
    refine h.move hlocks (by simp [hg, TurnStage.room?, eq_comm]) (by simp [hg, TurnStage.waits?])
      ?_
    refine (h room).update (by simp [TurnStage.room?]) ?_ (by simp [TurnStage.waits?]) ?_ (by simp)
    · intro u hu
      simp [howner, Ne.symm hu]
    · intro u _
      simp [hwaiters]
  | queue room =>
    have hnot : t ∉ (w.locks room).waiters := by simp [(h room).waiter, hg, TurnStage.waits?]
    refine h.move hlocks (by simp [hg, TurnStage.room?]) (by simp [hg, TurnStage.waits?, eq_comm])
      ?_
    refine (h room).update ?_ (fun _ _ => Iff.rfl) (by simp [TurnStage.waits?]) ?_ ?_
    · simp [(h room).owner, hg, TurnStage.room?]
    · intro u hu
      simp [hu]
    · exact (h room).nodup.append (List.nodup_singleton t) (by simpa using hnot)
  -- The first in line takes the lock and leaves the queue.
  | wake room =>
    obtain ⟨howner, hhead⟩ := hguard
    obtain ⟨ws, hws⟩ := List.head?_eq_some_iff.mp hhead
    have hnodup := (h room).nodup
    rw [hws, List.nodup_cons] at hnodup
    refine h.move hlocks (by simp [hg, TurnStage.room?, eq_comm])
      (by simp [hg, TurnStage.waits?, eq_comm]) ?_
    refine (h room).update (by simp [TurnStage.room?]) ?_ ?_ ?_ ?_
    · intro u hu
      simp [howner, Ne.symm hu]
    · simp [TurnStage.waits?, hws, hnodup.1]
    · intro u hu
      simp [hws, hu]
    · simpa [hws] using hnodup.2
  | giveUp room =>
    refine h.move hlocks (by simp [hg, TurnStage.room?]) (by simp [hg, TurnStage.waits?, eq_comm])
      ?_
    refine (h room).update ?_ (fun _ _ => Iff.rfl) ?_ ?_ ((h room).nodup.erase t)
    · simp [(h room).owner, hg, TurnStage.room?]
    · simp [TurnStage.waits?, (h room).nodup.mem_erase_iff]
    · intro u hu
      simp [(h room).nodup.mem_erase_iff, hu]
  -- The owner waits for nothing, so only the owner changes.
  | release g room hheld =>
    have hroom : (G t).room? = some room := hg ▸ hheld.1
    have hwaits : (G t).waits? = none := TurnStage.waits?_of_room? hroom
    have howner := ((h room).owner t).mpr hroom
    refine h.move hlocks ?_ ?_ ?_
    · intro room' hne
      rw [hroom]
      simp [TurnStage.room?, Ne.symm hne]
    · intro room' _
      rw [hwaits]
      rfl
    refine (h room).update (by simp [TurnStage.room?]) ?_ ?_ (fun _ _ => Iff.rfl) (h room).nodup
    · intro u hu
      simp [howner, Ne.symm hu]
    · rw [(h room).waiter, hwaits]
      rfl
  | leave start turn pid outcome fate g' hfate hgone heq =>
    subst heq
    refine h.still hlocks ?_ ?_ <;> rw [hg] <;> split <;> rfl
  | _ => exact h.still hlocks (by simp [hg, TurnStage.room?]) (by simp [hg, TurnStage.waits?])

/-- The locks of a new process are free, and no task runs. -/
theorem idle (hlocks : ∀ room, w.locks room = .free) : LockInv (fun _ => .absent) w := by
  intro room
  rw [hlocks]
  exact ⟨by simp [Lock.free, TurnStage.room?], by simp [Lock.free, TurnStage.waits?],
    List.nodup_nil⟩

end LockInv

/-- Every run keeps the agreement of locks and stages. -/
def lockInvariant (config : MatrixDispatcher.Config) (allow : World → Step → Prop) :
    Invariant (turnCoverage config).supervision allow where
  inv := LockInv
  effect := by
    intro G w w' t e a r g' _ hinv _ _ hexec hnext
    exact hinv.step (TurnStage.step_cases hnext) (exec_turn hexec)
  finish := by
    intro G w t _ hinv hfinal
    refine hinv.still rfl ?_ ?_ <;> rcases hfinal with h | h | h <;> rw [h] <;> rfl
  env := by
    intro G w w' a _ hinv _ henv
    obtain ⟨m, -, hmoved⟩ := env_eq henv
    have hlocks : w'.locks = w.locks :=
      (moved_same hmoved).2 .locks (by decide) (by decide) (by decide) (by decide)
    intro room
    rw [hlocks]
    exact hinv room
  start := by
    intro G w w' t fiber a hgood hinv _ hstart habsent
    obtain ⟨n, request, henter, -, rfl⟩ := (turnCoverage config).start_good hgood hstart
    rw [henter]
    refine hinv.still rfl ?_ ?_ <;> rw [habsent] <;> cases request <;> rfl
  crash := by
    intro G w w' a _ _ _ hcrash
    obtain ⟨-, rfl⟩ := crash_eq hcrash
    exact .idle fun _ => rfl

/-- The locks and the stages of the tasks agree in every configuration that is reached, and the
effect that a task is about to perform is one that its stage accepts. -/
theorem locks_about {allow : World → Step → Prop} {c : Machine.Config Tid Eff Eff.Ret World}
    (h : Reaches config allow c) {t : Tid} {e : Eff} (habout : c.About t e) :
    ∃ G, LockInv G c.world ∧ ∀ r, ∃ g', TurnStep config (G t) (TurnAct.of e r) g' := by
  obtain ⟨G, -, hlock, -, haccept⟩ := (lockInvariant config allow).about h
    (turnCoverage config).good_initial (.idle fun _ => rfl) habout
  exact ⟨G, hlock, fun r => (haccept r).imp fun _ => TurnStage.step_cases⟩

/-- A child is started under the lock of its room. -/
theorem owner_of_launch {allow : World → Step → Prop} {c : Machine.Config Tid Eff Eff.Ret World}
    (h : Reaches config allow c) {t : Tid} {argv : List Str} {cwd : Str} {agent : AgentName}
    {turn : Turn} (habout : c.About t (.await (.exec argv cwd agent turn))) :
    (c.world.locks turn.roomId).owner = some t := by
  obtain ⟨G, hlock, haccept⟩ := locks_about h habout
  obtain ⟨g', hstep⟩ := haccept (.ok 0)
  refine ((hlock _).owner _).mpr ?_
  change TurnStep config (G t) (.launch agent turn 0) g' at hstep
  generalize G t = g at hstep
  cases hstep
  rfl

end MatrixDispatcher
