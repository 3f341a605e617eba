import MatrixDispatcher.Coro.Machine
import Mathlib.Logic.Relation
import Mathlib.Order.WellFounded

/-!
# Progress of machines

When nobody has the processor, every task of a machine stands at an effect that awaits, and some of
these effects await another task. The machine is free of deadlock if the tasks that are awaited
can be followed down to one that awaits nobody.

* `Config.Parked` — a task without the processor stands at an effect that awaits;
  `Reachable.parked` — in every run.
* `exists_able` — whoever waits is led to somebody who does not, if waiting is well-founded.
-/

namespace Coro

variable {T E : Type} {R : E → Type} {A W : Type}

/-- If those who are waited for are followed down, somebody is found who can go on. -/
theorem exists_able {Waits : T → T → Prop} {Live Able : T → Prop}
    (hwf : WellFounded fun u t => Waits t u) (hlive : ∀ {t u}, Live t → Waits t u → Live u)
    (hnext : ∀ {t}, Live t → Able t ∨ ∃ u, Waits t u) (t : T) (ht : Live t) :
    ∃ u, Relation.ReflTransGen Waits t u ∧ Able u := by
  induction t using hwf.induction with
  | _ t ih =>
    rcases hnext ht with hable | ⟨u, hwaits⟩
    · exact ⟨t, .refl, hable⟩
    · obtain ⟨v, hchain, hable⟩ := ih u hwaits (hlive ht hwaits)
      exact ⟨v, .head hwaits hchain, hable⟩

namespace Machine

/-- The tasks without the processor stand at effects that await. -/
def Config.Parked (awaits : E → Bool) (c : Config T E R W) : Prop :=
  ∀ t fiber, c.tasks t = some fiber → c.running ≠ some t → fiber.holdsProcessor awaits = false

/-- When nobody has the processor, a task is about to perform an effect that awaits. -/
theorem Config.Parked.about {awaits : E → Bool} {c : Config T E R W} (h : c.Parked awaits)
    (hidle : c.running = none) {t : T} {fiber : Fiber E R} (htask : c.tasks t = some fiber) :
    ∃ e, c.About t e ∧ awaits e = true := by
  have hparked := h t fiber htask (by rw [hidle]; simp)
  rw [Fiber.holdsProcessor] at hparked
  split at hparked
  · cases hparked
  · next e k hop => exact ⟨e, ⟨.inl hidle, fiber, k, htask, hop⟩, by simpa using hparked⟩

variable [DecidableEq T] {S : Machine T E R A W}

/-- A task that goes on keeps the processor as long as it does not await. -/
theorem Config.Parked.resume {c : Config T E R W} (h : c.Parked S.awaits) {t : T}
    (hfree : c.Free t) {fiber : Fiber E R} {w : W} : (c.resume S t fiber w).Parked S.awaits := by
  intro u fiber' hu hrunning
  by_cases hut : u = t
  · subst hut
    obtain rfl : fiber = fiber' := by simpa [Config.resume] using hu
    by_contra hholds
    exact hrunning (by simp [Config.resume, hholds])
  · refine h u fiber' (by simpa [Config.resume, hut] using hu) fun hrun => ?_
    rcases hfree with hnone | hsome
    · simp [hrun] at hnone
    · rw [hrun] at hsome
      exact hut (Option.some.inj hsome)

/-- In every run, the tasks without the processor stand at effects that await. -/
theorem Reachable.parked {allow : W → Event T E A → Prop} {w₀ : W} {c : Config T E R W}
    (hstart : ∀ {a w t fiber w'}, S.start a w = some (t, fiber, w') →
      fiber.holdsProcessor S.awaits = false)
    (h : S.Reachable allow (.ofWorld w₀) c) : c.Parked S.awaits := by
  -- By induction on the run: a task that gives up the processor stands at an await.
  induction h with
  | refl =>
    intro t fiber htask
    cases htask
  | @step c c' l _ _ hstep ih =>
    cases l with
    | task t a =>
      rw [Machine.step] at hstep
      split at hstep
      case isFalse => cases hstep
      next hfree =>
      split at hstep
      · cases hstep
      · -- the task ends
        obtain rfl := Option.some.inj hstep
        intro u fiber hu _
        have hut : u ≠ t := by
          rintro rfl
          simp at hu
        refine ih u fiber (by simpa [hut] using hu) fun hrun => ?_
        rcases hfree with hnone | hsome
        · simp [hrun] at hnone
        · rw [hrun] at hsome
          exact hut (Option.some.inj hsome)
      · obtain rfl := Option.some.inj hstep
        exact ih.resume hfree
      · split at hstep
        · cases hstep
        · obtain rfl := Option.some.inj hstep
          exact ih.resume hfree
    | env a =>
      obtain ⟨w, -, rfl⟩ := Option.map_eq_some_iff.mp hstep
      exact ih
    | start a =>
      rw [Machine.step] at hstep
      split at hstep
      · cases hstep
      next t fiber w hw =>
      split at hstep
      · cases hstep
      obtain rfl := Option.some.inj hstep
      intro u fiber' hu hrunning
      by_cases hut : u = t
      · subst hut
        obtain rfl : fiber = fiber' := by simpa using hu
        exact hstart hw
      · exact ih u fiber' (by simpa [hut] using hu) hrunning
    | crash a =>
      obtain ⟨w, -, rfl⟩ := Option.map_eq_some_iff.mp hstep
      intro t fiber htask
      cases htask

end Machine

end Coro
