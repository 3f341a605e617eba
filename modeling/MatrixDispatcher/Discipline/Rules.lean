import MatrixDispatcher.Coro.Monitor
import MatrixDispatcher.Discipline.Plain

/-!
# Rules for following a monitor

The rules of `Coro.Monitor` for the effects of this repository: one for each way in which a
coroutine performs an effect, in the form in which a walk through a program meets it, namely
followed by the rest of the program.
-/

namespace MatrixDispatcher

open Py Coro

namespace Follows

variable {γ α β : Type} {M : Monitor Eff Eff.Ret γ} {g : γ}

/-- A synchronous effect, then `f`. -/
theorem sync_bind {e : SyncEff} {f : e.Ret → Py α} {Q : Except Exn α → γ → Prop}
    (h : ∀ r, ∃ g', M.next g (.sync e) r = some g' ∧ M.Follows Eff.awaits g' (f r).run Q) :
    M.Follows Eff.awaits g (sync e >>= f).run Q :=
  ⟨fun _ => rfl, h⟩

/-- A synchronous effect at the end of a program. -/
theorem sync {e : SyncEff} {Q : Except Exn e.Ret → γ → Prop}
    (h : ∀ r, ∃ g', M.next g (.sync e) r = some g' ∧ Q (.ok r) g') :
    M.Follows Eff.awaits g (Py.sync e).run Q :=
  ⟨fun _ => rfl, h⟩

/-- A synchronous effect outside of the exceptions. -/
theorem perform_sync {e : SyncEff} {Q : e.Ret → γ → Prop}
    (h : ∀ r, ∃ g', M.next g (.sync e) r = some g' ∧ Q r g') :
    M.Follows Eff.awaits g (Coro.perform (Eff.sync e)) Q :=
  Monitor.Follows.perform (fun _ => rfl) h

/-- An awaited operation, whose state must allow others to run. -/
theorem await {e : AwaitEff} {Q : Except Exn e.Val → γ → Prop} (hg : M.atomic g = false)
    (h : ∀ r, ∃ g', M.next g (.await e) r = some g' ∧ Q r g') :
    M.Follows Eff.awaits g (Py.await e).run Q :=
  Monitor.Follows.perform (fun hatomic => by simp [hg] at hatomic) h

/-- A statement. -/
theorem execute {s : Stmt} {Q : Except Exn s.Ret → γ → Prop}
    (h : ∀ r, ∃ g', M.next g (.sync (.execute s)) r = some g' ∧ Q r g') :
    M.Follows Eff.awaits g (Py.execute s).run Q :=
  Monitor.Follows.perform (fun _ => rfl) h

/-- A commit. -/
theorem commit {Q : Except Exn Unit → γ → Prop}
    (h : ∀ r, ∃ g', M.next g (.sync .commit) r = some g' ∧ Q r g') :
    M.Follows Eff.awaits g Py.commit.run Q :=
  Monitor.Follows.perform (fun _ => rfl) h

/-- An operation of another program: its effect, then the landing, at which the task may be
cancelled. -/
theorem network_landing {e : AwaitEff} {Q : Except Exn e.Val → γ → Prop}
    (hg : M.atomic g = false)
    (h : ∀ r, ∃ g', M.next g (.await e) r = some g' ∧ M.atomic g' = false ∧
      (r = .error .cancelledError → Q r g') ∧
      ∀ l : Except Exn Unit, ∃ g'', M.next g' (.await .pause) l = some g'' ∧
        Q (l.bind fun _ => r) g'') :
    M.Follows Eff.awaits g (Py.network e).run Q := by
  -- The landing is one effect more, and its exception replaces the result.
  have hlanding : ∀ (g' : γ) (q : Py e.Val) (res : Except Exn e.Val), M.atomic g' = false →
      q.run = Coro.ret res →
      (∀ l : Except Exn Unit, ∃ g'', M.next g' (.await .pause) l = some g'' ∧
        Q (l.bind fun _ => res) g'') →
      M.Follows Eff.awaits g' (do Py.await .pause; q : Py e.Val).run Q := by
    intro g' q res hg' hq hpause
    refine Monitor.Follows.bindE (Follows.await hg' fun l => ?_)
    obtain ⟨g'', hnext, hQ⟩ := hpause l
    refine ⟨g'', hnext, ?_⟩
    cases l with
    | ok _ =>
      change M.Follows Eff.awaits g'' q.run Q
      rw [hq]
      exact hQ
    | error x => exact hQ
  refine Monitor.Follows.bindE (Monitor.Follows.attempt (Follows.await hg fun r => ?_))
  obtain ⟨g', hnext, hg', hcancel, hpause⟩ := h r
  refine ⟨g', hnext, ?_⟩
  dsimp only
  split
  · exact hcancel rfl
  · exact hlanding g' _ (.error _) hg' rfl hpause
  · exact hlanding g' _ (.ok _) hg' rfl hpause

/-- An operation of another program whose landing is ignored. -/
theorem network {e : AwaitEff} {Q : Except Exn e.Val → γ → Prop} (hg : M.atomic g = false)
    (h : ∀ r, ∃ g', M.next g (.await e) r = some g' ∧ M.atomic g' = false ∧
      M.Ignores g' (.await .pause) ∧ Q r g' ∧ ∀ x, Q (.error x) g') :
    M.Follows Eff.awaits g (Py.network e).run Q := by
  refine network_landing hg fun r => ?_
  obtain ⟨g', hnext, hg', hpause, hres, herror⟩ := h r
  refine ⟨g', hnext, hg', fun _ => hres, fun l => ⟨g', hpause l, ?_⟩⟩
  cases l with
  | ok _ => exact hres
  | error x => exact herror x

/-- A program whose effects are ignored. -/
theorem ignored {p : Py α} {Q : Except Exn α → γ → Prop} (hp : PerformsE (M.Ignores g) p)
    (hg : M.atomic g = false) (hQ : ∀ res, Q res g) : M.Follows Eff.awaits g p.run Q :=
  (Monitor.Follows.of_performs hp hg).mono fun res _ heq => by
    rw [heq]
    exact hQ res

/-- A program whose effects are ignored, then `f`. -/
theorem ignored_bind {p : Py α} {f : α → Py β} {Q : Except Exn β → γ → Prop}
    (hp : PerformsE (M.Ignores g) p) (hg : M.atomic g = false)
    (hok : ∀ a, M.Follows Eff.awaits g (f a).run Q) (herror : ∀ x, Q (.error x) g) :
    M.Follows Eff.awaits g (p >>= f).run Q :=
  Monitor.Follows.bindE <| Follows.ignored hp hg fun res => by
    cases res with
    | ok a => exact hok a
    | error x => exact herror x

/-- `try: p except Exception: handler`. -/
theorem tryExcept {p : Py α} {handler : Exn → Py α} {Q : Except Exn α → γ → Prop}
    (hp : M.Follows Eff.awaits g p.run fun res g' =>
      match res with
      | .ok a => Q (.ok a) g'
      | .error x => Q (.error x) g' ∧ M.Follows Eff.awaits g' (handler x).run Q) :
    M.Follows Eff.awaits g (Py.tryExcept p handler).run Q := by
  refine Monitor.Follows.tryCatch (hp.mono fun res g' h => ?_)
  cases res with
  | ok a => exact h
  | error x =>
    dsimp only
    split
    · exact h.2
    · exact h.1

end Follows

end MatrixDispatcher
