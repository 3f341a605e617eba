import MatrixDispatcher.Discipline.HandlerWalk
import MatrixDispatcher.Discipline.Supervise

/-!
# The arena of a handler in the dispatcher

The runs of the dispatcher in which a handler is left alone, and what a triple about its program
says about them.

* `Surroundings.Uncut` — the steps that neither end the handler from outside nor let a post or a
  write of it fail.
* `Surroundings.hosts` — those steps are steps of its arena.
* `begunFiber` — the task of a message once it has begun.
* `Handled` — what is known of the handler in every configuration of such a run.
-/

namespace MatrixDispatcher

open Coro Py Machine

variable {n : Nat} {S : Surroundings n} {config : MatrixDispatcher.Config}

/-! ## Runs that leave a handler alone -/

/-- The step does not end the handler from outside: no crash, no end of the database, no
cancellation. Its own posts and writes succeed. -/
def Surroundings.Uncut (S : Surroundings n) : Step → Prop
  | .effect t e a =>
    if t = .handler n then S.Succeeds e a
    else e ≠ .sync .closeDb ∧ e.cancels (.handler n) a = false
  | .turn t => t ≠ .handler n
  | .crash _ => False
  | _ => True

/-- `Surroundings.Uncut`, evaluated; no effect of the handler may fail here. -/
def isUncut (n : Nat) : Step → Bool
  | .effect t e a =>
    if t = .handler n then
      match a with
      | .raised _ => false
      | _ => true
    else
      match e with
      | .sync .closeDb => false
      | e => !e.cancels (.handler n) a
  | .turn t => decide (t ≠ .handler n)
  | .crash _ => false
  | _ => true

theorem uncut_of_check {e : Step} (h : isUncut n e = true) : S.Uncut e := by
  cases e with
  | effect t e a =>
    rw [Surroundings.Uncut]
    rw [isUncut.eq_def] at h
    dsimp only at h
    split at h
    · next ht =>
      rw [if_pos ht]
      have hraised : ∀ x, a ≠ .raised x := by
        rintro x rfl
        cases h
      rw [Surroundings.Succeeds.eq_def]
      split <;> first | exact hraised | exact fun _ => hraised | trivial
    · next ht =>
      rw [if_neg ht]
      split at h
      · cases h
      · next hopen => exact ⟨hopen, by simpa using h⟩
  | turn t => exact (of_decide_eq_true h :)
  | crash _ => cases h
  | _ => trivial

/-- A move of the surroundings cancels no handler. -/
theorem uncancelled_of_moved {w w' : World} {m : Move} (h : w.moved m = some w')
    (hnot : .handler n ∉ w.cancelled) : .handler n ∉ w'.cancelled := by
  cases m with
  | exit pid rc out err =>
    rw [World.moved.eq_def] at h
    dsimp only at h
    split at h <;> cases h
    exact hnot
  -- It cancels `main`, which is no handler.
  | interrupt =>
    rw [World.moved] at h
    split at h <;> cases h
    intro hmem
    rcases List.mem_cons.mp hmem with heq | hmem
    · cases heq
    · exact hnot (List.mem_of_mem_erase hmem)
  | _ =>
    rw [World.moved] at h
    split at h <;> cases h
    exact hnot

/-- The steps of a run that leaves the handler alone are those of its arena, if what the others do
to the sessions is what the surroundings allow. -/
theorem Surroundings.hosts {allow : World → Step → Prop} (huncut : ∀ w e, allow w e → S.Uncut e)
    (hkeeps : ∀ {w w' u e a r}, u ≠ .handler n → allow w (.effect u e a) →
      exec u a e w = some (r, w') → S.keeps w w') :
    (watch S).Hosts (dispatcher config) allow (.handler n) where
  own := by
    intro w w' e a r hallow hexec
    have hsucc := huncut w _ hallow
    rw [Surroundings.Uncut, if_pos rfl] at hsucc
    exact ⟨a, hsucc, hexec⟩
  other := by
    intro w w' u e a r hne hallow hexec
    have h := huncut w _ hallow
    rw [Surroundings.Uncut, if_neg hne] at h
    -- An effect of another task is no deed of this handler.
    have hdeeds := deeds_of_ne hexec hne
    exact ⟨⟨opened_of_exec hexec h.1, uncancelled_of_exec hexec h.2,
      hdeeds ▸ List.prefix_rfl,
      .of_exec hexec, hkeeps hne hallow hexec⟩, hdeeds⟩
  env := by
    intro w w' a hallow henv
    -- A move leaves the database and the trace alone.
    obtain ⟨m, -, hmoved⟩ := env_eq henv
    obtain ⟨htrace, hsame⟩ := moved_same hmoved
    have hdb : w'.db = w.db := hsame .db (by decide) (by decide) (by decide) (by decide)
    have hopen : w'.dbOpen = w.dbOpen :=
      hsame .dbOpen (by decide) (by decide) (by decide) (by decide)
    have hdeeds : w'.deeds (.handler n) = w.deeds (.handler n) := by
      rw [World.deeds, World.deeds, htrace]
    exact ⟨⟨fun h => by rwa [hopen], uncancelled_of_moved hmoved,
      hdeeds ▸ List.prefix_rfl,
      .of_moved hmoved, S.of_keys fun k => by rw [hdb]⟩, hdeeds⟩
  start := by
    intro w w' u fiber a hallow hstart
    obtain ⟨i, request, rfl, -, -, rfl⟩ := start_eq hstart
    exact ⟨⟨id, id, List.prefix_rfl, .of_eq rfl, S.of_keys fun _ => rfl⟩, rfl⟩
  turn := fun hallow => huncut _ _ hallow rfl
  crash := fun hallow => huncut _ _ hallow

/-! ## A handler that has begun -/

/-- The task of a message that goes on with `p`. -/
def goesOn (p : Py Unit) : Fiber Eff Eff.Ret :=
  Fiber.once do
    let _ ← p.run
    endTask

/-- The task of a message once it has begun. -/
def begunFiber (args : HandlerArgs) : Fiber Eff Eff.Ret := goesOn (handleEvent args)

/-- Task `t` has come to its end. -/
def Ended (c : Machine.Config Tid Eff Eff.Ret World) (t : Tid) : Prop :=
  ∃ fiber o, c.tasks t = some fiber ∧ fiber.prog = .ret o

/-- `Ended`, evaluated. -/
def isEnded (c : Machine.Config Tid Eff Eff.Ret World) (t : Tid) : Bool :=
  match c.tasks t with
  | some ⟨_, .ret _, _⟩ => true
  | _ => false

theorem ended_of_check {c : Machine.Config Tid Eff Eff.Ret World} {t : Tid}
    (h : isEnded c t = true) : Ended c t := by
  rw [isEnded] at h
  split at h
  · next htask => exact ⟨_, _, htask, rfl⟩
  · cases h

/-- In `c`, the statement that the handler is about to execute violates no constraint, the handler
can go on unless it waits for a lock or a child, and at its end `Q` holds. -/
structure Handled (config : MatrixDispatcher.Config) (S : Surroundings n) (Q : World → Prop)
    (c : Machine.Config Tid Eff Eff.Ret World) : Prop where
  sound : ∀ e, c.About (.handler n) e → e.Sound c.world
  goesOn : ∀ e, c.About (.handler n) e → e.waits = true ∨
    ∃ a c', S.Succeeds e a ∧ (dispatcher config).step c (.task (.handler n) a) = some c'
  done : Ended c (.handler n) → Q c.world

/-- What a triple about the program of a handler says about the runs that leave it alone. -/
theorem handled_of_triple {allow : World → Step → Prop}
    (hhosts : (watch S).Hosts (dispatcher config) allow (.handler n))
    {c₀ c : Machine.Config Tid Eff Eff.Ret World} {p : Py Unit} {P Q : World → Prop}
    (hP : P c₀.world) (htask : c₀.tasks (.handler n) = some (goesOn p)) (hQ : (watch S).Stable Q)
    (hp : (watch S).Triple P p.run fun _ w => ∃ F ds, S.Lasting F ∧ Stands n F ds w ∧
      ∀ w', Stands n F ds w' → Q w')
    (hreach : (dispatcher config).Reachable allow c₀ c) : Handled config S Q c := by
  -- The triple is extended over the end of the task, where nothing but its result is left.
  have hprog : (watch S).Triple P (goesOn p).prog fun _ => Q := by
    refine Arena.Triple.bind (Q := fun _ => Q) ?_ fun _ w h w' hrely => hQ h hrely
    refine Arena.Triple.bind hp fun res => ?_
    refine Arena.Triple.of_exists fun F => Arena.Triple.of_exists fun ds => ?_
    rintro w ⟨hF, hstands, himp⟩
    refine (Triple.quiet (V := fun _ => True) hF rfl
      fun _ _ _ _ _ _ _ => trivial).mono (fun _ w' h => himp w' h.2) w hstands
  have hruns := hhosts.runsAt (Q := fun _ => Q) ⟨_, htask, hprog _ hP⟩ hreach
  obtain ⟨q, hq, hruns'⟩ := id hruns
  refine ⟨fun e habout => (hruns.safe habout).1, fun e habout => ?_, ?_⟩
  · refine (hruns.safe habout).2.imp id ?_
    rintro ⟨a, r, w', hsucc, hexec⟩
    obtain ⟨hfree, fiber, k, hfiber, hop⟩ := habout
    obtain rfl := Option.some.inj (hq.symm.trans hfiber)
    cases q with
    | ret o => cases hop
    | op e' k' =>
      cases hop
      exact ⟨a, _, hsucc, Machine.step_op hfree hq hexec⟩
  · rintro ⟨fiber, o, hfiber, hret⟩
    obtain rfl := Option.some.inj (hq.symm.trans hfiber)
    cases q with
    | ret o => exact hruns' c.world ((watch S).rely_refl _)
    | op e k => cases hret

/-! ## A handler alone -/

/-- A process in which nothing runs but the handler of a message, which has just begun. -/
def alone (w : World) (args : HandlerArgs) : Machine.Config Tid Eff Eff.Ret World where
  world := w
  tasks := Function.update (fun _ => none) (.handler 0) (some (begunFiber args))
  running := none

theorem alone_task (w : World) (args : HandlerArgs) :
    (alone w args).tasks (.handler 0) = some (begunFiber args) := by
  simp [alone]

/-- A world with one session in the room of `oneAgent`. -/
def oneSession : World where
  __ := World.initial
  inbox := []
  db :=
    { Tables.empty with
      sessions := Table.empty.insertNew
        ⟨lit "$1", lit "!room", lit "agent", lit "5e55", 100, 100⟩ rfl }

/-- The arguments of a message of the trusted sender in the room of `oneAgent`. -/
def messageArgs (e : EventId) (body : Str) (source : Json) : HandlerArgs :=
  handlerArgs oneAgent (lit "!room") (lit "agent") ⟨lit "!room", some (lit "/p"), none, none⟩
    (lit "/p") ⟨e, lit "@ted", body, source⟩

end MatrixDispatcher
