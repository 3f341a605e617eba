import Mathlib.Data.List.Nodup
import Mathlib.Tactic.Common

/-!
# Mutexes with a queue

A mutex of a cooperative scheduler: a task that finds it taken waits in a queue, and the first task
of the queue takes it when it is free. A task that is cancelled leaves the queue.

* `Mutex` — the holder and the queue, with the four moves of a task.
* `Mutex.Describes` — the mutex agrees with what the tasks believe; one rule for every move.
-/

namespace Coro

/-- A mutex: who holds it, and who waits for it, in the order of arrival. -/
structure Mutex (T : Type) where
  owner : Option T
  waiters : List T

namespace Mutex

variable {T : Type} [DecidableEq T]

/-- The mutex that nobody uses. -/
def free : Mutex T := ⟨none, []⟩

/-- Task `t` asks for the mutex. It gets it if it is free and those in front of `t` do not count;
otherwise it joins the queue. -/
def acquire (m : Mutex T) (t : T) (first : Bool) : Bool × Mutex T :=
  if m.owner = none ∧ first = true then (true, ⟨some t, m.waiters⟩)
  else (false, ⟨m.owner, m.waiters ++ [t]⟩)

/-- The first task of the queue takes the mutex. -/
def enter (m : Mutex T) (t : T) : Option (Mutex T) :=
  if m.owner = none ∧ m.waiters.head? = some t then some ⟨some t, m.waiters.tail⟩ else none

/-- The holder lets go of the mutex. -/
def release (m : Mutex T) : Mutex T := ⟨none, m.waiters⟩

/-- A task gives up waiting. -/
def leave (m : Mutex T) (t : T) : Mutex T := ⟨m.owner, m.waiters.erase t⟩

/-! ## What the tasks believe -/

omit [DecidableEq T] in
/-- Those who believe that they hold the mutex hold it, and those who believe that they wait are in
the queue, once. -/
structure Describes (m : Mutex T) (holds waits : T → Prop) : Prop where
  owner : ∀ t, m.owner = some t ↔ holds t
  waiters : ∀ t, t ∈ m.waiters ↔ waits t
  nodup : m.waiters.Nodup

variable {m : Mutex T} {holds waits holds' waits' : T → Prop} {t : T}

omit [DecidableEq T] in
/-- Nobody uses the mutex. -/
theorem describes_free (hholds : ∀ t, ¬ holds t) (hwaits : ∀ t, ¬ waits t) :
    (free : Mutex T).Describes holds waits :=
  ⟨fun t => ⟨nofun, fun h => (hholds t h).elim⟩, fun t => ⟨nofun, fun h => (hwaits t h).elim⟩,
    List.nodup_nil⟩

namespace Describes

omit [DecidableEq T] in
theorem congr (h : m.Describes holds waits) (hholds : ∀ t, holds' t ↔ holds t)
    (hwaits : ∀ t, waits' t ↔ waits t) : m.Describes holds' waits' :=
  ⟨fun t => (h.owner t).trans (hholds t).symm, fun t => (h.waiters t).trans (hwaits t).symm,
    h.nodup⟩

omit [DecidableEq T] in
/-- At most one task holds the mutex. -/
theorem unique (h : m.Describes holds waits) {t u : T} (ht : holds t) (hu : holds u) : t = u :=
  Option.some.inj (((h.owner t).mpr ht).symm.trans ((h.owner u).mpr hu))

section

variable (h : m.Describes holds waits) (hholds : ∀ u, u ≠ t → (holds' u ↔ holds u))
  (hwaits : ∀ u, u ≠ t → (waits' u ↔ waits u))

include h hholds hwaits

/-- A task gets the mutex at once. -/
theorem acquired {m' : Mutex T} {first : Bool} (hm : m.acquire t first = (true, m'))
    (hold : ¬ waits t) (ht : holds' t) (ht' : ¬ waits' t) : m'.Describes holds' waits' := by
  rw [acquire] at hm
  split at hm
  · next hfree =>
    cases hm
    refine ⟨fun u => ?_, fun u => ?_, h.nodup⟩
    · by_cases hut : u = t
      · subst hut
        exact ⟨fun _ => ht, fun _ => rfl⟩
      · rw [hholds u hut, ← h.owner u, hfree.1]
        exact ⟨fun heq => absurd (Option.some.inj heq).symm hut, nofun⟩
    · by_cases hut : u = t
      · subst hut
        exact ⟨fun hu => absurd ((h.waiters u).mp hu) hold, fun hu => absurd hu ht'⟩
      · rw [hwaits u hut]
        exact h.waiters u
  · cases hm

/-- A task joins the queue. -/
theorem queued {m' : Mutex T} {first : Bool} (hm : m.acquire t first = (false, m'))
    (hold : ¬ holds t) (hold' : ¬ waits t) (ht : ¬ holds' t) (ht' : waits' t) :
    m'.Describes holds' waits' := by
  rw [acquire] at hm
  split at hm
  · cases hm
  · cases hm
    -- The owner stays, the queue gets one task more, and nobody is in it twice.
    refine ⟨fun u => ?_, fun u => ?_, ?_⟩
    · by_cases hut : u = t
      · subst hut
        exact ⟨fun hu => absurd ((h.owner u).mp hu) hold, fun hu => absurd hu ht⟩
      · rw [hholds u hut]
        exact h.owner u
    · by_cases hut : u = t
      · subst hut
        exact ⟨fun _ => ht', fun _ => List.mem_append_right _ (List.mem_singleton_self u)⟩
      · rw [hwaits u hut, ← h.waiters u, List.mem_append, List.mem_singleton]
        exact ⟨fun hu => hu.resolve_right hut, .inl⟩
    · refine List.nodup_append.mpr ⟨h.nodup, List.nodup_singleton t, fun u hu v hv => ?_⟩
      rintro rfl
      have hut : u = t := List.mem_singleton.mp hv
      exact hold' (hut ▸ (h.waiters u).mp hu)

/-- The first task of the queue takes the mutex. -/
theorem entered {m' : Mutex T} (hm : m.enter t = some m') (ht : holds' t) (ht' : ¬ waits' t) :
    m'.Describes holds' waits' := by
  rw [enter] at hm
  split at hm
  · next hfree =>
    cases hm
    obtain ⟨hnone, hhead⟩ := hfree
    obtain ⟨rest, hrest⟩ := List.head?_eq_some_iff.mp hhead
    have hnodup := h.nodup
    rw [hrest, List.nodup_cons] at hnodup
    -- The head of the queue becomes the owner.
    refine ⟨fun u => ?_, fun u => ?_, hrest ▸ hnodup.2⟩
    · by_cases hut : u = t
      · subst hut
        exact ⟨fun _ => ht, fun _ => rfl⟩
      · rw [hholds u hut, ← h.owner u, hnone]
        exact ⟨fun heq => absurd (Option.some.inj heq).symm hut, nofun⟩
    · change u ∈ m.waiters.tail ↔ _
      rw [hrest]
      by_cases hut : u = t
      · subst hut
        exact ⟨fun hu => absurd hu hnodup.1, fun hu => absurd hu ht'⟩
      · rw [hwaits u hut, ← h.waiters u, hrest, List.mem_cons]
        exact ⟨.inr, fun hu => hu.resolve_left hut⟩
  · cases hm

/-- The holder lets go of the mutex. -/
theorem released (hold : holds t) (hold' : ¬ waits t) (ht : ¬ holds' t) (ht' : ¬ waits' t) :
    m.release.Describes holds' waits' := by
  refine ⟨fun u => ⟨nofun, fun hu => ?_⟩, fun u => ?_, h.nodup⟩
  · by_cases hut : u = t
    · exact absurd (hut ▸ hu) ht
    · exact absurd (h.unique ((hholds u hut).mp hu) hold) hut
  · by_cases hut : u = t
    · subst hut
      exact ⟨fun hu => absurd ((h.waiters u).mp hu) hold', fun hu => absurd hu ht'⟩
    · rw [hwaits u hut]
      exact h.waiters u

/-- A task gives up waiting. -/
theorem left (hold : ¬ holds t) (ht : ¬ holds' t) (ht' : ¬ waits' t) :
    (m.leave t).Describes holds' waits' := by
  refine ⟨fun u => ?_, fun u => ?_, h.nodup.erase t⟩
  · by_cases hut : u = t
    · subst hut
      exact ⟨fun hu => absurd ((h.owner u).mp hu) hold, fun hu => absurd hu ht⟩
    · rw [hholds u hut]
      exact h.owner u
  · by_cases hut : u = t
    · subst hut
      exact ⟨fun hu => absurd hu h.nodup.not_mem_erase, fun hu => absurd hu ht'⟩
    · rw [hwaits u hut, ← h.waiters u]
      exact List.mem_erase_of_ne hut

end

end Describes

end Mutex

end Coro
