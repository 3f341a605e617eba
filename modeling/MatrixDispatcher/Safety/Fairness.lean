import MatrixDispatcher.Safety.Order

/-!
# Fairness of the room locks

A task that waits for the lock of a room is not overtaken, in any run: over cancelled waiters,
failing turns and tasks that ask for the lock while it is handed over.

* `Lock.Before` — a task waits, and another one is not ahead of it.
* `patient t` — the process does not die, and task `t` is not cancelled while it waits.
* `before_of_change` — what an act of any task does to the line.
* `not_overtaken` — the other task has the lock only after the waiting one had it.
-/

namespace MatrixDispatcher

open Coro

variable {config : MatrixDispatcher.Config} {w w' : World} {t u : Tid} {room : RoomId}

/-- Task `t` waits for the lock, and task `u` neither has it nor waits ahead of `t`. -/
structure Lock.Before (l : Lock) (t u : Tid) : Prop where
  waits : t ∈ l.waiters
  owner : l.owner ≠ some u
  behind : ¬ List.Sublist [u, t] l.waiters

instance (l : Lock) (t u : Tid) : Decidable (l.Before t u) :=
  decidable_of_iff (t ∈ l.waiters ∧ l.owner ≠ some u ∧ ¬ List.Sublist [u, t] l.waiters)
    ⟨fun ⟨h₁, h₂, h₃⟩ => ⟨h₁, h₂, h₃⟩, fun ⟨h₁, h₂, h₃⟩ => ⟨h₁, h₂, h₃⟩⟩

/-- The process does not die, and task `t` is not cancelled while it waits for a lock. -/
def patient (t : Tid) (w : World) : Step → Prop
  | .effect u (.await (.lockWait _)) _ => u = t → t ∉ w.cancelled
  | .crash _ => False
  | _ => True

/-- A pair of a list with one more element, which is not the second of the pair. -/
theorem sublist_of_append {α : Type} {x y z : α} {xs : List α} (hne : z ≠ y)
    (h : List.Sublist [x, y] (xs ++ [z])) : List.Sublist [x, y] xs := by
  have hrev := h.reverse
  rw [List.reverse_append] at hrev
  have htail : List.Sublist [y, x] xs.reverse := by
    rcases List.sublist_cons_iff.mp hrev with hrest | ⟨r, heq, -⟩
    · exact hrest
    · exact absurd (List.cons.inj heq).1.symm hne
  simpa using htail.reverse

/-- After an act of any task, the waiting task has the lock, or it still waits and is not behind
the other one. -/
theorem TurnAct.before_of_change {v : Tid} {act : TurnAct} (h : (w.locks room).Before t u)
    (hact : TurnChange v act w w')
    (hnew : ∀ got, act = .tryLock room got → v ∉ (w.locks room).waiters)
    (hstays : ∀ r, act = .waitLock r false → v ≠ t) :
    (w'.locks room).owner = some t ∨ (w'.locks room).Before t u := by
  have hupdate : ∀ {room' l}, w'.locks = Function.update w.locks room' l →
      (room' = room → l.owner = some t ∨ l.Before t u) →
      (w'.locks room).owner = some t ∨ (w'.locks room).Before t u := by
    intro room' l hlocks hl
    rw [hlocks]
    by_cases hroom : room = room'
    · subst hroom
      rw [Function.update_self]
      exact hl rfl
    · rw [Function.update_of_ne hroom]
      exact .inr h
  have hguard := hact.guard
  have hlocks := hact.locks
  cases act with
  | tryLock room' got =>
    cases got with
    | true =>
      -- a lock for which somebody waits is not taken at once
      refine hupdate hlocks fun hroom => ?_
      subst hroom
      have hwaits := h.waits
      rw [hguard.2] at hwaits
      cases hwaits
    | false =>
      refine hupdate hlocks fun hroom => .inr ?_
      subst hroom
      have hv : v ≠ t := by
        rintro rfl
        exact hnew false rfl h.waits
      exact ⟨List.mem_append_left _ h.waits, h.owner, fun hline =>
        h.behind (sublist_of_append hv hline)⟩
  | waitLock room' got =>
    cases got with
    | true =>
      refine hupdate hlocks fun hroom => ?_
      subst hroom
      obtain ⟨ws, hws⟩ := List.head?_eq_some_iff.mp hguard.2
      by_cases hv : v = t
      · exact .inl (congrArg some hv)
      -- the first in line is another task, and `t` comes later
      have htail : t ∈ ws := by
        have hwaits := h.waits
        rw [hws] at hwaits
        exact (List.mem_cons.mp hwaits).resolve_left (Ne.symm hv)
      refine .inr ⟨by rwa [hws], fun howner => h.behind ?_, fun hline => h.behind ?_⟩
      · obtain rfl : v = u := Option.some.inj howner
        rw [hws]
        exact (List.singleton_sublist.mpr htail).cons_cons v
      · exact hline.trans (List.tail_sublist _)
    | false =>
      refine hupdate hlocks fun hroom => .inr ?_
      subst hroom
      refine ⟨?_, h.owner, fun hline => h.behind (hline.trans List.erase_sublist)⟩
      exact (List.mem_erase_of_ne (hstays _ rfl).symm).mpr h.waits
  | release room' =>
    refine hupdate hlocks fun hroom => .inr ?_
    subst hroom
    exact ⟨h.waits, by simp, h.behind⟩
  | _ =>
    rw [hlocks]
    exact .inr h

/-- A task that waits for a lock does not ask for it. -/
theorem not_waiting_of_tryLock {allow : World → Step → Prop}
    {c : Machine.Config Tid Eff Eff.Ret World} (h : Reaches config allow c) {v : Tid} {e : Eff}
    {r : e.Ret} {got : Bool} (habout : c.About v e) (hact : TurnAct.of e r = .tryLock room got) :
    v ∉ (c.world.locks room).waiters := by
  obtain ⟨G, hlock, haccept⟩ := locks_about h habout
  obtain ⟨g', hstep⟩ := haccept r
  rw [hact] at hstep
  intro hwaits
  have hwaiting := ((hlock room).waiter v).mp hwaits
  -- only an idle task asks for a lock
  generalize G v = g at hstep hwaiting
  cases hstep <;> cases hwaiting

/-- A step leaves a patient task ahead of the other one, or gives it the lock. -/
theorem before_of_step {allow : World → Step → Prop} {c c' : Machine.Config Tid Eff Eff.Ret World}
    {l : Label Tid Answer} (h : Reaches config allow c)
    (hbefore : (c.world.locks room).Before t u)
    (hallow : patient t c.world (Machine.event c l))
    (hstep : (dispatcher config).step c l = some c') :
    (c'.world.locks room).owner = some t ∨ (c'.world.locks room).Before t u := by
  have hchange := Machine.change_of_step hstep
  generalize Machine.event c l = e at hallow hchange
  -- Only effects touch the locks.
  have hsame : c'.world.locks = c.world.locks →
      (c'.world.locks room).owner = some t ∨ (c'.world.locks room).Before t u := by
    intro hlocks
    rw [hlocks]
    exact .inr hbefore
  cases hchange with
  | effect habout hexec =>
    refine TurnAct.before_of_change hbefore (exec_turn hexec) (fun got hact => ?_)
      fun r hact hv => ?_
    · exact not_waiting_of_tryLock h habout hact
    · subst hv
      obtain ⟨rfl, hcancelled⟩ := cancelled_of_giveUp hexec hact
      exact hallow rfl hcancelled
  | turn hworld => exact hsame (by rw [hworld])
  | env henv =>
    obtain ⟨m, -, hmoved⟩ := env_eq henv
    exact hsame ((moved_same hmoved).2 .locks (by decide) (by decide) (by decide) (by decide))
  | start hstart =>
    obtain ⟨n, request, -, -, -, hworld⟩ := start_eq hstart
    exact hsame (by rw [hworld])
  -- A patient task does not see a crash.
  | crash hcrash => exact hallow.elim

/-- A task that waits for the lock of a room, and goes on waiting, is not overtaken: whoever is not
ahead of it has the lock only after it had it. -/
theorem not_overtaken {allow : World → Step → Prop} {c c' : Machine.Config Tid Eff Eff.Ret World}
    (h : Reaches config allow c) (hbefore : (c.world.locks room).Before t u)
    (hrun : (dispatcher config).Reachable (patient t) c c')
    (howner : (c'.world.locks room).owner = some u) :
    ∃ c₁, (dispatcher config).Reachable (patient t) c c₁ ∧
      (c₁.world.locks room).owner = some t ∧ (dispatcher config).Reachable (patient t) c₁ c' := by
  -- Either the task is still ahead, or it has had the lock on the way.
  suffices hline : (c'.world.locks room).Before t u ∨
      ∃ c₁, (dispatcher config).Reachable (patient t) c c₁ ∧
        (c₁.world.locks room).owner = some t ∧
        (dispatcher config).Reachable (patient t) c₁ c' from
    hline.resolve_left fun hstill => hstill.owner howner
  clear howner
  induction hrun with
  | refl => exact .inl hbefore
  | @step c₁ c₂ l hreach hallow hstep ih =>
    have hall : Reaches config (fun _ _ => True) c₁ :=
      (h.mono fun _ _ _ => trivial).trans (hreach.mono fun _ _ _ => trivial)
    rcases ih with hstill | ⟨c₀, hfirst, howner, hrest⟩
    · rcases before_of_step hall hstill hallow hstep with howner | hstill'
      · exact .inr ⟨c₂, .step l hreach hallow hstep, howner, .refl⟩
      · exact .inl hstill'
    · exact .inr ⟨c₀, hfirst, howner, .step l hrest hallow hstep⟩

/-! ## Scenarios -/

/-- `patient`, evaluated. -/
def isPatient (t : Tid) (w : World) : Step → Bool
  | .effect u (.await (.lockWait _)) _ => decide (u = t → t ∉ w.cancelled)
  | .crash _ => false
  | _ => true

theorem patient_of_check {t : Tid} (w : World) (e : Step) (h : isPatient t w e = true) :
    patient t w e := by
  rw [patient.eq_def]
  split
  · exact of_decide_eq_true h
  · cases h
  · trivial

/-- Three replies to the session of the first message. The first of them has the lock, and the
second one waits for it. -/
def lining : List Cue :=
  spawning ++ [.move (.exit 0 0 (lit "ok") []), .go (.handler 0) 16] ++
    batch (lit "t2") (lit "!room") [messageOf (lit "$2") (lit "go on") (replyTo (lit "$1")),
      messageOf (lit "$3") (lit "stop") (replyTo (lit "$1")),
      messageOf (lit "$4") (lit "why") (replyTo (lit "$1"))] ++
    handling 1 2 16 ++ handling 2 2 11

/-- The third one asks for the lock too; then the turns of the first two end. -/
def lined : List Cue :=
  handling 3 2 11 ++
    [.move (.exit 1 0 (lit "ok") []), .go (.handler 1) 19, .go (.handler 2) 6,
      .move (.exit 2 0 (lit "ok") []), .go (.handler 2) 19, .go (.handler 3) 1]

/-- The task has the lock of the room. -/
def holdsLock (room : RoomId) (t : Tid) (c : Machine.Config Tid Eff Eff.Ret World) : Bool :=
  decide ((c.world.locks room).owner = some t)

theorem not_overtaken_lined : ∃ c c', Reaches oneAgent (fun _ _ => True) c ∧
    (c.world.locks (lit "!room")).Before (.handler 2) (.handler 3) ∧
    (dispatcher oneAgent).Reachable (patient (.handler 2)) c c' ∧
    (c'.world.locks (lit "!room")).owner = some (.handler 3) ∧
    ∃ c₁, (dispatcher oneAgent).Reachable (patient (.handler 2)) c c₁ ∧
      (c₁.world.locks (lit "!room")).owner = some (.handler 2) ∧
      (dispatcher oneAgent).Reachable (patient (.handler 2)) c₁ c' := by
  obtain ⟨c, h, hgoal⟩ := reaches_of_play oneAgent lining
    (fun c => decide ((c.world.locks (lit "!room")).Before (.handler 2) (.handler 3)) &&
      ((dispatcher oneAgent).play usualAnswer
        (fun w e => isPatient (.handler 2) w e = true) c lined).any
          (holdsLock (lit "!room") (.handler 3)))
    (fun _ _ (_ : true = true) => trivial) (by decide +kernel)
  obtain ⟨hbefore, hplay⟩ := Bool.and_eq_true_iff.mp hgoal
  obtain ⟨c', hrun, howner⟩ := Machine.exists_reachable patient_of_check hplay
  have hbefore := of_decide_eq_true hbefore
  have howner := of_decide_eq_true howner
  exact ⟨c, c', h, hbefore, hrun, howner, not_overtaken h hbefore hrun howner⟩

end MatrixDispatcher
