import MatrixDispatcher.Coro.Monitor
import MatrixDispatcher.Dispatcher
import MatrixDispatcher.Runtime.Frame

/-!
# Supervision of the dispatcher

A monitor supervises the dispatcher if each kind of task conforms to it. This is stated here for
any monitor, together with what the steps of the machine do that no task makes.

* `Coverage` — a monitor state for each request, from which the requested task conforms.
* `Coverage.supervision` — the supervision of the machine that it gives.
-/

namespace MatrixDispatcher

open Coro

variable {config : MatrixDispatcher.Config} {γ : Type} {M : Monitor Eff Eff.Ret γ}

/-- The request is one that a task of this name runs. -/
def Request.runsAs : Request → Tid → Bool
  | .main, .main | .cleanup, .cleanup | .reconcile, .reconcile | .handle _, .handler _ => true
  | _, _ => false

/-- The requests that the monitor lets tasks make, and the state in which each task starts. -/
structure Coverage (config : MatrixDispatcher.Config) (M : Monitor Eff Eff.Ret γ) where
  enter : Request → γ
  /-- What is known about a requested task. -/
  ok : Request → Prop
  ok_main : ok .main
  create : ∀ {g request r g'}, M.next g (.sync (.createTask request)) r = some g' → ok request
  atomic : ∀ request, M.atomic (enter request) = false
  conforms : ∀ {request}, ok request → M.Conforms Eff.awaits (enter request) (taskOf config request)

/-- The inbox changes only where a task is created. -/
theorem exec_inbox {t : Tid} {a : Answer} {e : Eff} {w w' : World} {r : e.Ret}
    (h : exec t a e w = some (r, w')) :
    w'.inbox = w.inbox ∨ ∃ request u, e = .sync (.createTask request) ∧
      request.runsAs u = true ∧ w'.inbox = w.inbox ++ [(u, request)] := by
  by_cases hcreate : ∃ request, e = .sync (.createTask request)
  · obtain ⟨request, rfl⟩ := hcreate
    cases request <;> cases h <;> exact .inr ⟨_, _, rfl, rfl, rfl⟩
  · refine .inl (frame h (c := .inbox) fun hmem => hcreate ?_)
    cases e with
    | sync e => cases e <;> first | exact ⟨_, rfl⟩ | simp [Eff.writes] at hmem
    | await e => cases e <;> simp [Eff.writes, AwaitEff.writes] at hmem

/-- A task starts from the inbox. -/
theorem start_eq {w w' : World} {t : Tid} {fiber : Fiber Eff Eff.Ret} {a : Answer}
    (h : (dispatcher config).start a w = some (t, fiber, w')) :
    ∃ n request, a = .pick n ∧ w.inbox[n]? = some (t, request) ∧ fiber = taskOf config request ∧
      w' = { w with inbox := w.inbox.eraseIdx n } := by
  cases a with
  | pick n =>
    rcases hitem : w.inbox[n]? with _ | ⟨u, request⟩
    · simp [dispatcher, hitem] at h
    · simp only [dispatcher, hitem, Option.some.injEq, Prod.mk.injEq] at h
      obtain ⟨rfl, rfl, rfl⟩ := h
      exact ⟨n, request, rfl, hitem, rfl, rfl⟩
  | _ => cases h

/-- The surroundings make a move. -/
theorem env_eq {w w' : World} {a : Answer} (h : (dispatcher config).env a w = some w') :
    ∃ m, a = .move m ∧ w.moved m = some w' := by
  cases a with
  | move m => exact ⟨m, rfl, h⟩
  | _ => cases h

/-- The process dies. -/
theorem crash_eq {w w' : World} {a : Answer} (h : (dispatcher config).crash a w = some w') :
    a = .done ∧ w' = w.crashed := by
  cases a with
  | done =>
    cases h
    exact ⟨rfl, rfl⟩
  | _ => cases h

/-- The components that moves of the surroundings leave alone. -/
theorem moved_same {w w' : World} {m : Move} (h : w.moved m = some w') :
    w'.trace = w.trace ∧ ∀ c : Component,
      c ≠ .procs → c ≠ .approvals → c ≠ .clock → c ≠ .cancelled → c.Same w w' := by
  -- A move writes the four components named here, and no other.
  have hsame : ∀ {procs approvals clock cancelled},
      w' = { w with procs := procs, approvals := approvals, clock := clock,
                    cancelled := cancelled } →
      w'.trace = w.trace ∧ ∀ c : Component,
        c ≠ .procs → c ≠ .approvals → c ≠ .clock → c ≠ .cancelled → c.Same w w' := by
    rintro _ _ _ _ rfl
    exact ⟨rfl, fun c h₁ h₂ h₃ h₄ => by cases c <;> first | rfl | contradiction⟩
  cases m with
  | mint a =>
    rw [World.moved] at h
    split at h <;> cases h
    exact hsame rfl
  | setState a state =>
    rw [World.moved] at h
    split at h <;> cases h
    exact hsame rfl
  | exit pid rc out err =>
    rw [World.moved.eq_def] at h
    dsimp only at h
    split at h <;> cases h
    exact hsame rfl
  | interrupt =>
    rw [World.moved] at h
    split at h <;> cases h
    exact hsame rfl

namespace Coverage

/-- The monitor state of a task that starts. -/
def entered (V : Coverage config M) (a : Answer) (w : World) : γ :=
  match a with
  | .pick n => (w.inbox[n]?.map fun item => V.enter item.2).getD M.idle
  | _ => M.idle

theorem entered_eq (V : Coverage config M) {w : World} {n : Nat} {t : Tid} {request : Request}
    (h : w.inbox[n]? = some (t, request)) : V.entered (.pick n) w = V.enter request := by
  simp [entered, h]

/-- Every task of the dispatcher conforms. -/
def supervision (V : Coverage config M) : Supervision (dispatcher config) M where
  enter := V.entered
  good w := ∀ item ∈ w.inbox, V.ok item.2 ∧ item.2.runsAs item.1 = true
  exec := by
    intro w w' t e a r g g' hgood hnext hexec item hitem
    rcases exec_inbox hexec with heq | ⟨request, u, rfl, hruns, heq⟩
    · exact hgood item (heq ▸ hitem)
    · rw [heq, List.mem_append, List.mem_singleton] at hitem
      rcases hitem with hitem | rfl
      · exact hgood item hitem
      · exact ⟨V.create hnext, hruns⟩
  env := by
    intro w w' a hgood henv item hitem
    obtain ⟨m, -, hmoved⟩ := env_eq henv
    have hinbox : w'.inbox = w.inbox :=
      (moved_same hmoved).2 .inbox (by decide) (by decide) (by decide) (by decide)
    exact hgood item (hinbox ▸ hitem)
  start := by
    intro w w' t fiber a hgood hstart
    obtain ⟨n, request, rfl, hitem, rfl, rfl⟩ := start_eq hstart
    rw [V.entered_eq hitem]
    refine ⟨V.atomic request, V.conforms (hgood _ (List.mem_of_getElem? hitem)).1, ?_⟩
    exact fun item hmem => hgood item (List.eraseIdx_subset hmem)
  crash := by
    intro w w' a hgood hcrash item hitem
    obtain ⟨-, rfl⟩ := crash_eq hcrash
    obtain rfl : item = (.main, .main) := by simpa [World.crashed, World.initial] using hitem
    exact ⟨V.ok_main, rfl⟩

/-- The world in which the dispatcher is started is a good one. -/
theorem good_initial (V : Coverage config M) : V.supervision.good World.initial := by
  intro item hitem
  obtain rfl : item = (.main, .main) := by simpa [World.initial] using hitem
  exact ⟨V.ok_main, rfl⟩

/-- Every world that is reached is a good one. -/
theorem good_reached (V : Coverage config M) {allow : World → Step → Prop}
    {c : Machine.Config Tid Eff Eff.Ret World} (h : Reaches config allow c) :
    V.supervision.good c.world := by
  obtain ⟨G, hgood, -⟩ := (Invariant.trivial V.supervision allow).reachable h V.good_initial trivial
  exact hgood

/-- A task that starts runs one of the known requests under its name. -/
theorem start_good (V : Coverage config M) {w w' : World} {t : Tid} {fiber : Fiber Eff Eff.Ret}
    {a : Answer} (hgood : V.supervision.good w)
    (h : (dispatcher config).start a w = some (t, fiber, w')) :
    ∃ n request, V.supervision.enter a w = V.enter request ∧ request.runsAs t = true ∧
      w' = { w with inbox := w.inbox.eraseIdx n } := by
  obtain ⟨n, request, rfl, hitem, rfl, rfl⟩ := start_eq h
  exact ⟨n, request, V.entered_eq hitem, (hgood _ (List.mem_of_getElem? hitem)).2, rfl⟩

end Coverage

end MatrixDispatcher
