import MatrixDispatcher.Discipline.Sweep
import MatrixDispatcher.Safety.RoomLock
import MatrixDispatcher.Discipline.Deeds

/-!
# Children at the shutdown

What becomes of the children until `main` closes the database, in every run of a process: over any
set of handlers, waiters for locks and passes of the reconcile loop.

* `sweeps pid` — when the shutdown reads the registered children, this one is registered or has
  exited.
* `Signalled` — no run leads to the configuration in which the child was not sent a signal.
* `shutdown_signals` — a child that is alive when the database is closed was signalled.
* `child_orphaned` — a run in which one was not.
-/

namespace MatrixDispatcher

open Coro

variable {config : MatrixDispatcher.Config} {G : Tid → SweepStage} {w w' : World} {pid : Pid}
  {c : Machine.Config Tid Eff Eff.Ret World}

/-- The process does not die, and when the shutdown reads the registered children, the child has
exited or is among them. -/
def sweeps (pid : Pid) (w : World) : Step → Prop
  | .crash _ => False
  | .effect _ (.sync .activeItems) _ =>
    (w.exitOf pid).isSome ∨ ∃ room, w.active.lookup room = some pid
  | _ => True

/-- The dispatcher does not send the child a signal. -/
def sparing (pid : Pid) (_ : World) : Step → Prop
  | .effect _ (.sync (.sendSignal _ pid')) _ => pid' ≠ pid
  | .effect _ (.sync (.kill pid')) _ => pid' ≠ pid
  | _ => True

/-- In every run to this configuration the dispatcher has sent the child `SIGTERM`, or has killed
it. -/
def Signalled (config : MatrixDispatcher.Config) (pid : Pid)
    (c : Machine.Config Tid Eff Eff.Ret World) : Prop :=
  ¬ (dispatcher config).Reachable (sparing pid) (.ofWorld World.initial) c

/-- The trace tells of a signal to the child. -/
def Notified (pid : Pid) (w : World) : Prop :=
  ∃ t room, Obs.signalled t room pid ∈ w.trace

/-- What a sweep owes that has still these children to signal: the child has exited, or is
signalled already, or is one of them. -/
def Owed (pid : Pid) (left : List (RoomId × Pid)) (w : World) : Prop :=
  (w.exitOf pid).isSome ∨ Notified pid w ∨ ∃ room, (room, pid) ∈ left

/-- What has happened to a child stays so. -/
theorem Owed.mono {left : List (RoomId × Pid)} (h : Owed pid left w) (hlasts : Lasts w w')
    (htrace : ∀ o ∈ w.trace, o ∈ w'.trace) : Owed pid left w' := by
  refine h.imp (fun hexit => ?_) (.imp_left fun hnotified => ?_)
  · obtain ⟨x, hx⟩ := Option.isSome_iff_exists.mp hexit
    exact Option.isSome_iff_exists.mpr ⟨x, hlasts.exits pid x hx⟩
  · obtain ⟨t, room, hmem⟩ := hnotified
    exact ⟨t, room, htrace _ hmem⟩

/-- What an act tells about the child, once it has taken place. -/
def SweepAct.Tells (pid : Pid) (w : World) : SweepAct → Prop
  | read items => Owed pid items w
  | signal pid' => pid' = pid → Notified pid w
  | _ => True

/-- What an effect adds to the trace comes on top. -/
theorem mem_trace_of_exec {t : Tid} {a : Answer} {e : Eff} {r : e.Ret}
    (hexec : exec t a e w = some (r, w')) {o : Obs} (ho : o ∈ w.trace) : o ∈ w'.trace := by
  rw [exec_trace hexec]
  exact List.mem_append_right _ ho

/-- The sweep reads every child that has not exited, and the trace tells of its signals. -/
theorem exec_sweep {t : Tid} {a : Answer} {e : Eff} {r : e.Ret}
    (hallow : sweeps pid w (.effect t e a)) (hexec : exec t a e w = some (r, w')) :
    (SweepAct.of e r).Tells pid w' := by
  cases e with
  | await e => trivial
  | sync e =>
    cases e with
    | activeItems =>
      cases hexec
      refine hallow.imp id fun ⟨room, hreg⟩ => .inr ⟨room, ?_⟩
      refine List.mem_map.mpr ⟨⟨room, pid⟩, List.mem_reverse.mpr ?_, rfl⟩
      exact AList.mem_lookup_iff.mp hreg
    | sendSignal room pid' =>
      rintro rfl
      refine ⟨t, room, ?_⟩
      rw [exec_trace hexec]
      exact List.mem_append_left _ (Option.mem_toList.mpr rfl)
    | _ => trivial

/-- The sweep does what it owes. -/
def SweepInv (pid : Pid) (G : Tid → SweepStage) (w : World) : Prop :=
  ∀ t left, G t = .sweeping left → Owed pid left w

namespace SweepInv

variable {t : Tid} {g' : SweepStage}

/-- A task goes on, and owes what it should. -/
theorem move (h : SweepInv pid G w) (hlasts : Lasts w w') (htrace : ∀ o ∈ w.trace, o ∈ w'.trace)
    (howed : ∀ left, g' = .sweeping left → Owed pid left w') :
    SweepInv pid (Function.update G t g') w' := by
  intro u left hu
  by_cases hut : u = t
  · subst hut
    rw [Function.update_self] at hu
    exact howed left hu
  · rw [Function.update_of_ne hut] at hu
    exact (h u left hu).mono hlasts htrace

/-- The world changes, and no task goes on. -/
theorem moved (h : SweepInv pid G w) (hlasts : Lasts w w') (htrace : w'.trace = w.trace) :
    SweepInv pid G w' :=
  fun t left ht => (h t left ht).mono hlasts fun _ ho => htrace ▸ ho

/-- An act of a task takes place. -/
theorem step {act : SweepAct} (h : SweepInv pid G w) (hstep : SweepStep (G t) act g')
    (htells : act.Tells pid w') (hlasts : Lasts w w') (htrace : ∀ o ∈ w.trace, o ∈ w'.trace) :
    SweepInv pid (Function.update G t g') w' := by
  refine h.move hlasts htrace fun left hg' => ?_
  have hbefore := h t
  generalize G t = g at hstep hbefore
  cases hstep with
  | other => exact (hbefore left hg').mono hlasts htrace
  | signal => cases hg'
  | read items =>
    cases hg'
    exact htells
  | next room pid' left' =>
    cases hg'
    -- the first of the children is signalled; the others are still to be
    refine ((hbefore _ rfl).mono hlasts htrace).imp_right fun howed => ?_
    rcases howed with hnotified | ⟨room', hmem⟩
    · exact .inl hnotified
    · rcases List.mem_cons.mp hmem with heq | hmem
      · exact .inl (htells (congrArg Prod.snd heq).symm)
      · exact .inr ⟨room', hmem⟩
  | close => exact (hbefore left hg').mono hlasts htrace

end SweepInv

/-- Every run whose sweeps find the child keeps what they owe. -/
def sweepInvariant (config : MatrixDispatcher.Config) (pid : Pid) :
    Invariant (sweepCoverage config).supervision (sweeps pid) where
  inv := SweepInv pid
  effect := by
    intro G w w' t e a r g' _ hinv _ hallow hexec hnext
    exact hinv.step (SweepStage.step_cases hnext) (exec_sweep hallow hexec) (.of_exec hexec)
      fun _ => mem_trace_of_exec hexec
  finish := by
    intro G w t _ hinv _
    exact hinv.move (.of_eq rfl) (fun _ => id) fun _ h => by cases h
  env := by
    intro G w w' a _ hinv _ henv
    obtain ⟨m, -, hmoved⟩ := env_eq henv
    exact hinv.moved (.of_moved hmoved) (moved_same hmoved).1
  start := by
    intro G w w' t fiber a hgood hinv _ hstart _
    obtain ⟨n, request, henter, -, rfl⟩ := (sweepCoverage config).start_good hgood hstart
    rw [henter]
    exact hinv.move (.of_eq rfl) (fun _ => id) fun _ h => by cases request <;> cases h
  crash := by
    intro G w w' a _ _ _ _ t left h
    cases h

/-- A run that does not signal the child does not tell of a signal either. -/
theorem not_notified_of_sparing
    (h : (dispatcher config).Reachable (sparing pid) (.ofWorld World.initial) c) :
    ¬ Notified pid c.world := by
  refine h.keeps (I := fun w => ¬ Notified pid w) (fun ⟨_, _, hmem⟩ => by cases hmem) ?_ ?_ ?_ ?_
  · rintro c t e a r w - - hallow hexec hnot ⟨u, room, hmem⟩
    rw [exec_trace hexec, List.mem_append, Option.mem_toList] at hmem
    -- A mark that is new is that of a signal, which `sparing` excludes.
    rcases hmem with hobs | hmem
    · rw [obsOf.eq_def] at hobs
      split at hobs <;> cases hobs
      exact hallow rfl
    · exact hnot ⟨u, room, hmem⟩
  · rintro w w' a - henv hnot
    obtain ⟨m, -, hmoved⟩ := env_eq henv
    rwa [Notified, (moved_same hmoved).1]
  · rintro w w' t fiber a - hstart hnot
    obtain ⟨n, request, -, -, -, rfl⟩ := start_eq hstart
    exact hnot
  · rintro w w' a - hcrash hnot ⟨u, room, hmem⟩
    obtain ⟨-, rfl⟩ := crash_eq hcrash
    rcases List.mem_cons.mp hmem with heq | hmem
    · cases heq
    · exact hnot ⟨u, room, hmem⟩

/-- A child that is alive when the database is closed was sent a signal, if it was registered when
the shutdown read the registered children. -/
theorem shutdown_signals {w₀ : World} {t : Tid}
    (hstart : Reaches config (fun _ _ => True) (.ofWorld w₀))
    (h : (dispatcher config).Reachable (sweeps pid) (.ofWorld w₀) c)
    (hclose : c.About t (.sync .closeDb)) (halive : c.world.Alive pid) :
    Signalled config pid c := by
  obtain ⟨G, -, hinv, -, haccept⟩ := (sweepInvariant config pid).about h
    ((sweepCoverage config).good_reached hstart) (fun _ _ h => by cases h) hclose
  obtain ⟨g', hnext⟩ := haccept ()
  have hstep := SweepStage.step_cases hnext
  have howed := hinv t
  generalize G t = g at hstep howed
  cases hstep with
  | close =>
    -- nobody is left to be signalled
    rcases howed _ rfl with hexit | hnotified | ⟨room, hmem⟩
    · obtain ⟨child, hpid, hstatus⟩ := halive
      rw [exitOf_of_alive hpid hstatus] at hexit
      cases hexit
    · exact fun hspared => not_notified_of_sparing hspared hnotified
    · cases hmem

/-! ## Runs with a shutdown -/

/-- `sweeps`, evaluated for the child of a room. -/
def isSwept (room : RoomId) (pid : Pid) (w : World) : Step → Bool
  | .crash _ => false
  | .effect _ (.sync .activeItems) _ => decide (w.active.lookup room = some pid)
  | _ => true

theorem sweeps_of_check (room : RoomId) (pid : Pid) (w : World) (e : Step)
    (h : isSwept room pid w e = true) : sweeps pid w e := by
  rw [isSwept.eq_def] at h
  split at h
  · cases h
  · exact .inr ⟨room, of_decide_eq_true h⟩
  · next hcrash hread =>
    rw [sweeps.eq_def]
    split
    · exact (hcrash _ rfl).elim
    · exact (hread _ _ rfl).elim
    · trivial

/-- `sparing` in one process, evaluated on runs without any signal. -/
def isUnsignalled : Step → Bool
  | .crash _ => false
  | .effect _ (.sync (.sendSignal _ _)) _ => false
  | .effect _ (.sync (.kill _)) _ => false
  | _ => true

theorem sparing_of_check (pid : Pid) (w : World) (e : Step) (h : isUnsignalled e = true) :
    survives w e ∧ sparing pid w e := by
  rw [isUnsignalled.eq_def] at h
  split at h
  · cases h
  · cases h
  · cases h
  · next hcrash hsignal hkill =>
    refine ⟨?_, ?_⟩
    · cases e <;> first | trivial | exact (hcrash _ rfl).elim
    · rw [sparing.eq_def]
      split
      · exact (hsignal _ _ _ _ rfl).elim
      · exact (hkill _ _ _ rfl).elim
      · trivial

/-- The effect closes the database. -/
def isCloseDb : Eff → Bool
  | .sync .closeDb => true
  | _ => false

theorem eq_of_isCloseDb {e : Eff} (h : isCloseDb e = true) : e = .sync .closeDb := by
  rw [isCloseDb.eq_def] at h
  split at h
  · rfl
  · cases h

/-- The child is alive, evaluated. -/
def isAlive (pid : Pid) (w : World) : Bool :=
  w.procs[pid]?.any fun child => decide (child.status = .alive)

theorem alive_of_isAlive (h : isAlive pid w = true) : w.Alive pid := by
  obtain ⟨child, hpid, hstatus⟩ := (Option.any_eq_true ..).mp h
  exact ⟨child, hpid, of_decide_eq_true hstatus⟩

/-- The task `main` is interrupted and cancels the cleanup loop, which has not begun to run, and
the reconcile loop. -/
def interrupting : List Cue :=
  [.move .interrupt, .go .main 3, .step (.start (.pick 0)), .go .cleanup 3, .go .main 2]

/-- The child of the first message is signalled, and does not care; the handlers are given up. -/
def shuttingDown : List Cue :=
  spawning ++ interrupting ++ [.step (.start (.pick 0)), .go .reconcile 3, .go .main 7,
    .task .main (.raised .timeoutError), .go (.handler 0) 6, .go .main 1]

theorem shutdown_signals_child : ∃ c,
    (dispatcher oneAgent).Reachable (sweeps 0) (.ofWorld World.initial) c ∧
    c.About .main (.sync .closeDb) ∧ c.world.Alive 0 ∧ Signalled oneAgent 0 c := by
  obtain ⟨c, h, hgoal⟩ := reaches_of_play oneAgent shuttingDown
    (fun c => meets c .main isCloseDb && isAlive 0 c.world)
    (sweeps_of_check (lit "!room") 0) (by decide +kernel)
  obtain ⟨hmeets, halive⟩ := Bool.and_eq_true_iff.mp hgoal
  obtain ⟨e, habout, he⟩ := about_of_meets hmeets
  obtain rfl := eq_of_isCloseDb he
  have halive := alive_of_isAlive halive
  exact ⟨c, h, habout, halive, shutdown_signals .refl h habout halive⟩

/-- The reconcile loop is cancelled in an approval resume: it takes back the registration of the
child and leaves it running, and the sweep finds no child. -/
def orphaning : List Cue :=
  approving ++ reconciling 18 ++ interrupting ++ [.go .reconcile 7, .go .main 6]

/-- The child of an approval resume is alive and not signalled when the database is closed. -/
theorem child_orphaned : ¬ ∀ (c : Machine.Config Tid Eff Eff.Ret World) (pid : Pid),
    Reaches oneAgent survives c → c.About .main (.sync .closeDb) → c.world.Alive pid →
      Signalled oneAgent pid c := by
  intro hclaim
  obtain ⟨c, h, hgoal⟩ := reaches_of_play oneAgent orphaning
    (fun c => meets c .main isCloseDb && isAlive 1 c.world)
    (sparing_of_check 1) (by decide +kernel)
  obtain ⟨hmeets, halive⟩ := Bool.and_eq_true_iff.mp hgoal
  obtain ⟨e, habout, he⟩ := about_of_meets hmeets
  obtain rfl := eq_of_isCloseDb he
  exact hclaim c 1 (h.mono fun _ _ h => h.1) habout (alive_of_isAlive halive)
    (h.mono fun _ _ h => h.2)

end MatrixDispatcher
