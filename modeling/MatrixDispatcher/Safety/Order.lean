import MatrixDispatcher.Discipline.Ledger
import MatrixDispatcher.Discipline.Replies
import MatrixDispatcher.Safety.Locks

/-!
# The order of replies

In which order the handlers of replies call `resume_claude`, in every run: whatever the posts, the
registry and the other tasks do, over cancelled tasks and restarts.

* `Lock.Ahead` — a task has the lock, or waits for it ahead of another one.
* `ReplyInv` — what the stages of the handlers of replies say about the trace; `replyInvariant` —
  every run keeps it.
* `inTurn n₁ n₂` — handler `n₁` is in line when handler `n₂` asks for the lock, and stays in line.
* `LineInv` — then handler `n₂` does not overtake handler `n₁`.
* `replies_in_order` — handler `n₂` calls after handler `n₁` has called.
* `replies_swapped` — a run in which two replies are swapped.
-/

namespace MatrixDispatcher

open Coro

variable {config : MatrixDispatcher.Config} {G : Tid → ReplyStage} {w w' : World}

/-! ## Lines -/

/-- Task `t` has the lock, or waits for it ahead of task `u`. -/
def Lock.Ahead (l : Lock) (t u : Tid) : Prop := l.owner = some t ∨ List.Sublist [t, u] l.waiters

namespace TurnAct

variable {t t₁ t₂ : Tid} {room : RoomId}

/-- A task that is ahead of another one stays ahead, unless it gives up the lock or its place, or
the other one does. -/
theorem ahead_of_change {act : TurnAct} (h : (w.locks room).Ahead t₁ t₂)
    (hact : TurnChange t act w w') (hne : t ≠ t₂)
    (hrelease : ∀ r, act = .release r → (w.locks r).owner = some t ∧ t ≠ t₁)
    (hgiveUp : ∀ r, act = .waitLock r false → t ≠ t₁) : (w'.locks room).Ahead t₁ t₂ := by
  have hupdate : ∀ {room' l}, w'.locks = Function.update w.locks room' l →
      ((w.locks room').Ahead t₁ t₂ → l.Ahead t₁ t₂) → (w'.locks room).Ahead t₁ t₂ := by
    intro room' l hlocks hl
    rw [hlocks]
    by_cases hroom : room = room'
    · subst hroom
      rw [Function.update_self]
      exact hl h
    · rwa [Function.update_of_ne hroom]
  have hguard := hact.guard
  have hlocks := hact.locks
  cases act with
  | tryLock room' got =>
    cases got with
    | true =>
      -- the lock is free, and nobody waits for it
      obtain ⟨howner, hwaiters⟩ := hguard
      refine hupdate hlocks ?_
      rintro (hown | hline)
      · rw [howner] at hown
        cases hown
      · rw [hwaiters] at hline
        cases hline
    | false =>
      exact hupdate hlocks (Or.imp id fun hline => hline.trans (List.sublist_append_left _ _))
  | waitLock room' got =>
    cases got with
    | true =>
      obtain ⟨howner, hhead⟩ := hguard
      obtain ⟨ws, hws⟩ := List.head?_eq_some_iff.mp hhead
      refine hupdate hlocks ?_
      rintro (hown | hline)
      · rw [howner] at hown
        cases hown
      by_cases ht : t = t₁
      · exact .inl (congrArg some ht)
      · refine .inr ?_
        rw [hws] at hline ⊢
        exact (List.sublist_cons_iff.mp hline).resolve_right fun ⟨r, heq, _⟩ =>
          ht (List.cons.inj heq).1.symm
    | false =>
      refine hupdate hlocks (Or.imp id fun hline => ?_)
      have herase := hline.erase t
      rwa [List.erase_of_not_mem (by simp [hgiveUp room' rfl, hne])] at herase
  | release room' =>
    obtain ⟨howner, ht⟩ := hrelease room' rfl
    refine hupdate hlocks ?_
    rintro (hown | hline)
    · exact absurd (Option.some.inj (howner.symm.trans hown)) ht
    · exact .inr hline
  | _ =>
    rw [hlocks]
    exact h

/-- An act that does not concern the locks leaves them. -/
theorem locks_of_quiet {ls : RoomId → Lock} {act : TurnAct} (h : act.queues = false) :
    act.locks t ls = ls := by
  cases act <;> first | rfl | cases h

end TurnAct

/-! ## The handlers of replies -/

/-- The task is not the handler of a reply. -/
def Rootless (w : World) (t : Tid) : Prop :=
  (∀ n, t ≠ .handler n) ∨ ∃ args, w.Runs t (.handle args) ∧ ¬ args.Replies

/-- The handler has called the runner with a reply to the session that it found. -/
def HasCalled (w : World) (t : Tid) : Prop :=
  ∃ args row, w.Runs t (.handle args) ∧
    Obs.marked t (.runnerCall (replyOf args args.event.body.strip row)) ∈ w.trace

/-- What the stages of the handlers of replies say about the trace. -/
structure ReplyInv (G : Tid → ReplyStage) (w : World) : Prop where
  numbered : w.Numbered
  runs : ∀ t args, (G t).args? = some args → w.Runs t (.handle args)
  apart : ∀ t, G t = .apart → Rootless w t
  called : ∀ t args row, G t = .served args row → HasCalled w t
  /-- The handlers of replies resume. -/
  resumes : ∀ t turn, Obs.marked t (.runnerCall turn) ∈ w.trace →
    (∃ args row, w.Runs t (.handle args) ∧ turn = replyOf args args.event.body.strip row) ∨
      Rootless w t

/-- Nothing that was dispatched or called is forgotten. -/
structure Grows (w w' : World) : Prop where
  dispatched : dispatchedArgs w.trace <+: dispatchedArgs w'.trace
  trace : w.trace ⊆ w'.trace

/-- No effect takes anything out of the trace. -/
theorem Grows.of_exec {t : Tid} {a : Answer} {e : Eff} {r : e.Ret}
    (h : exec t a e w = some (r, w')) : Grows w w' := by
  refine ⟨prefix_dispatchedArgs h, ?_⟩
  rw [exec_trace h]
  exact List.subset_append_right _ _

/-- Where the trace is the same, nothing is forgotten. -/
theorem Grows.of_eq (h : w'.trace = w.trace) : Grows w w' := by
  refine ⟨⟨[], by rw [List.append_nil, h]⟩, fun _ ho => ?_⟩
  rwa [h]

/-- A crash leaves the trace. -/
theorem Grows.of_crashed : Grows w w.crashed :=
  ⟨⟨[], List.append_nil _⟩, List.subset_cons_self _ _⟩

/-- `Grows` is transitive. -/
theorem Grows.trans {w'' : World} (h : Grows w w') (h' : Grows w' w'') : Grows w w'' :=
  ⟨h.dispatched.trans h'.dispatched, List.Subset.trans h.trace h'.trace⟩

/-- Nothing is forgotten in a run. -/
theorem grows_of_reachable {allow : World → Step → Prop}
    {c₀ c : Machine.Config Tid Eff Eff.Ret World}
    (h : (dispatcher config).Reachable allow c₀ c) : Grows c₀.world c.world := by
  refine Machine.Reachable.keeps (I := Grows c₀.world) h (.of_eq rfl) ?_ ?_ ?_ ?_
  · intro c t e a r w _ _ _ hexec ih
    exact ih.trans (.of_exec hexec)
  · intro w w' a _ henv ih
    obtain ⟨m, -, hmoved⟩ := env_eq henv
    exact ih.trans (.of_eq (moved_same hmoved).1)
  · intro w w' t fiber a _ hstart ih
    obtain ⟨n, request, -, -, -, rfl⟩ := start_eq hstart
    exact ih.trans (.of_eq rfl)
  · intro w w' a _ hcrash ih
    obtain ⟨-, rfl⟩ := crash_eq hcrash
    exact ih.trans .of_crashed

/-- A task that is not the handler of a reply never becomes one. -/
theorem Rootless.mono {t : Tid} (hgrows : Grows w w') (h : Rootless w t) : Rootless w' t :=
  h.imp_right fun ⟨args, hruns, hnot⟩ => ⟨args, hruns.mono hgrows.dispatched, hnot⟩

/-- A call that was made stays in the trace. -/
theorem HasCalled.mono {t : Tid} (hgrows : Grows w w') (h : HasCalled w t) : HasCalled w' t :=
  h.imp fun _ ⟨row, hruns, hmem⟩ => ⟨row, hruns.mono hgrows.dispatched, hgrows.trace hmem⟩

/-- The message of a handler is one. -/
theorem World.Runs.unique {t : Tid} {args args' : HandlerArgs} (h : w.Runs t (.handle args))
    (h' : w.Runs t (.handle args')) : args = args' := by
  obtain ⟨n, rfl, hargs⟩ := h
  obtain ⟨m, hn, hargs'⟩ := h'
  cases hn
  exact Option.some.inj (hargs.symm.trans hargs')

/-- The handler of arguments that reply is not `Rootless`. -/
theorem not_rootless {n : Nat} {args : HandlerArgs} (hargs : w.argsOf n = some args)
    (hreplies : args.Replies) : ¬ Rootless w (.handler n) := by
  rintro (hnot | ⟨args', hruns, hnot⟩)
  · exact hnot n rfl
  · have hruns' : w.Runs (.handler n) (.handle args) := ⟨n, rfl, hargs⟩
    exact hnot (hruns'.unique hruns ▸ hreplies)

section

variable {t : Tid} {a : Answer} {e : Eff} {r : e.Ret}

/-- The turn of a reply's act is what the effect means for a turn. -/
theorem ReplyAct.turn_of {act : TurnAct} (h : ReplyAct.of e r = .turn act) :
    TurnAct.of e r = act := by
  rw [ReplyAct.of.eq_def] at h
  split at h <;> cases h
  rfl

/-- A lookup means nothing for a turn. -/
theorem ReplyAct.lookup_of {found : Option SessionRow} (h : ReplyAct.of e r = .lookup found) :
    TurnAct.of e r = .other := by
  rw [ReplyAct.of.eq_def] at h
  split at h <;> cases h
  rfl

/-- A call of the runner is one for the monitor of replies, too. -/
theorem ReplyAct.call_of {turn : Turn} (h : TurnAct.of e r = .call turn) :
    ReplyAct.of e r = .turn (.call turn) := by
  cases hact : ReplyAct.of e r with
  | lookup found =>
    rw [ReplyAct.lookup_of hact] at h
    cases h
  | turn act => rw [← h, ReplyAct.turn_of hact]

/-- Who asks for a lock. -/
theorem TurnAct.lockTry_of {room : RoomId} {got : Bool} (h : TurnAct.of e r = .tryLock room got) :
    e = .sync (.lockTry room) := by
  cases e with
  | sync e =>
    cases e with
    | execute s => cases s <;> cases r <;> cases h
    | createTask request => cases request <;> cases h
    | kill _ => cases r <;> cases h
    | mark m => cases m <;> cases h
    | _ => cases h <;> rfl
  | await e =>
    cases e with
    | communicate _ _ | wait _ =>
      rcases r with x | _
      · cases x <;> cases h
      · cases h
    | lockWait _ | fetchPending _ _ | exec _ _ _ _ | pause => cases r <;> cases h
    | _ => cases h

/-- Calls of the runner are observed where they are made. -/
theorem call_of_exec (h : exec t a e w = some (r, w')) {u : Tid} {turn : Turn}
    (hmem : Obs.marked u (.runnerCall turn) ∈ w'.trace) :
    Obs.marked u (.runnerCall turn) ∈ w.trace ∨ u = t ∧ TurnAct.of e r = .call turn := by
  rw [exec_trace h, List.mem_append, Option.mem_toList] at hmem
  rcases hmem with hobs | hold
  · rw [obsOf.eq_def] at hobs
    split at hobs <;> cases hobs
    exact .inr ⟨rfl, rfl⟩
  · exact .inl hold

/-- A call of the runner is observed. -/
theorem mem_of_call (h : exec t a e w = some (r, w')) {turn : Turn}
    (hcall : TurnAct.of e r = .call turn) : Obs.marked t (.runnerCall turn) ∈ w'.trace := by
  obtain rfl : e = .sync (.mark (.runnerCall turn)) := by
    have horigin := TurnAct.origin_of e r
    rwa [hcall] at horigin
  rw [exec_trace h]
  exact List.mem_cons_self

/-- Whose message a handler handles does not change. -/
theorem ReplyStep.args? {g g' : ReplyStage} {act : ReplyAct} (h : ReplyStep g act g') :
    g'.args? = g.args? := by
  cases h <;> rfl

/-- No transition enters or leaves `apart`. -/
theorem ReplyStep.apart_iff {g g' : ReplyStage} {act : ReplyAct} (h : ReplyStep g act g') :
    g' = .apart ↔ g = .apart := by
  cases h <;> simp

/-- A reply calls the runner with its text, for the session that it found. -/
theorem ReplyStep.call_cases {g g' : ReplyStage} {turn : Turn}
    (h : ReplyStep g (.turn (.call turn)) g') :
    g = .apart ∨ ∃ args row, g = .held args row ∧ g' = .served args row ∧
      turn = replyOf args args.event.body.strip row := by
  cases h with
  | apart => exact .inl rfl
  | call args row => exact .inr ⟨args, row, rfl, rfl, rfl⟩
  | quiet _ _ h => cases h

/-- A stage is `served` once the runner was called. -/
theorem ReplyStep.served_cases {g g' : ReplyStage} {act : ReplyAct} (h : ReplyStep g act g')
    {args : HandlerArgs} {row : SessionRow} (hg : g' = .served args row) :
    g = .served args row ∨ g = .held args row ∧
      act = .turn (.call (replyOf args args.event.body.strip row)) := by
  cases h with
  | again | quiet => exact .inl hg
  | call =>
    cases hg
    exact .inr ⟨rfl, rfl⟩
  | _ => cases hg

end

namespace ReplyInv

variable {t : Tid} {g' : ReplyStage}

/-- A task goes on to a stage that fits the trace. -/
theorem move (h : ReplyInv G w) (hgrows : Grows w w') (hnumbered : w'.Numbered)
    (hruns : ∀ args, g'.args? = some args → w'.Runs t (.handle args))
    (hapart : g' = .apart → Rootless w' t)
    (hcalled : ∀ args row, g' = .served args row → HasCalled w' t)
    (hresumes : ∀ u turn, Obs.marked u (.runnerCall turn) ∈ w'.trace →
      Obs.marked u (.runnerCall turn) ∈ w.trace ∨
        (∃ args row, w'.Runs u (.handle args) ∧ turn = replyOf args args.event.body.strip row) ∨
          Rootless w' u) :
    ReplyInv (Function.update G t g') w' where
  numbered := hnumbered
  runs u args hu := by
    by_cases hut : u = t
    · subst hut
      exact hruns args (by rwa [Function.update_self] at hu)
    · rw [Function.update_of_ne hut] at hu
      exact (h.runs u args hu).mono hgrows.dispatched
  apart u hu := by
    by_cases hut : u = t
    · subst hut
      exact hapart (by rwa [Function.update_self] at hu)
    · rw [Function.update_of_ne hut] at hu
      exact (h.apart u hu).mono hgrows
  called u args row hu := by
    by_cases hut : u = t
    · subst hut
      exact hcalled args row (by rwa [Function.update_self] at hu)
    · rw [Function.update_of_ne hut] at hu
      exact (h.called u args row hu).mono hgrows
  -- Calls of the trace before are explained as before.
  resumes u turn hmem := by
    rcases hresumes u turn hmem with hold | hnew
    · refine (h.resumes u turn hold).imp ?_ (Rootless.mono hgrows)
      rintro ⟨args, row, hruns, hturn⟩
      exact ⟨args, row, hruns.mono hgrows.dispatched, hturn⟩
    · exact hnew

/-- Acts of the handlers keep the invariant. -/
theorem step {a : Answer} {e : Eff} {r : e.Ret} (h : ReplyInv G w)
    (hexec : exec t a e w = some (r, w')) (hstep : ReplyStep (G t) (ReplyAct.of e r) g') :
    ReplyInv (Function.update G t g') w' := by
  have hgrows := Grows.of_exec hexec
  have hruns : ∀ args, (G t).args? = some args → w'.Runs t (.handle args) := fun args hargs =>
    (h.runs t args hargs).mono hgrows.dispatched
  refine h.move hgrows (h.numbered.exec hexec) (fun args hargs => hruns args (hstep.args? ▸ hargs))
    (fun hg' => (h.apart t (hstep.apart_iff.mp hg')).mono hgrows) (fun args row hg' => ?_)
    fun u turn hmem => ?_
  · rcases hstep.served_cases hg' with hserved | ⟨hheld, hact⟩
    · exact (h.called t args row hserved).mono hgrows
    · exact ⟨args, row, hruns args (by rw [hheld]; rfl),
        mem_of_call hexec (ReplyAct.turn_of hact)⟩
  · rcases call_of_exec hexec hmem with hold | ⟨rfl, hturn⟩
    · exact .inl hold
    · rw [ReplyAct.call_of hturn] at hstep
      rcases hstep.call_cases with hapart | ⟨args, row, hheld, -, hturn⟩
      · exact .inr (.inr ((h.apart u hapart).mono hgrows))
      · exact .inr (.inl ⟨args, row, hruns args (by rw [hheld]; rfl), hturn⟩)

/-- A task starts. -/
theorem start {request : Request} {n : Nat} (h : ReplyInv G w) (hruns : w.Runs t request) :
    ReplyInv (Function.update G t ((replyCoverage config).enter request))
      { w with inbox := w.inbox.eraseIdx n } := by
  have hgrows : Grows w { w with inbox := w.inbox.eraseIdx n } := .of_eq rfl
  -- A task that starts has called nobody.
  have hmove : ∀ {g'}, (∀ args, g'.args? = some args → w.Runs t (.handle args)) →
      (g' = .apart → Rootless w t) → (∀ args row, g' ≠ .served args row) →
      ReplyInv (Function.update G t g') { w with inbox := w.inbox.eraseIdx n } :=
    fun hargs hapart hserved => h.move hgrows (h.numbered.started n)
      (fun args hg => (hargs args hg).mono hgrows.dispatched) (fun hg => (hapart hg).mono hgrows)
      (fun args row hg => absurd hg (hserved args row)) fun _ _ => .inl
  cases request with
  | handle args =>
    rw [replyCoverage]
    dsimp only
    split
    · refine hmove ?_ (by simp) (by simp)
      rintro _ ⟨⟩
      exact hruns
    · next hreplies =>
      exact hmove (by simp [ReplyStage.args?]) (fun _ => .inr ⟨args, hruns, hreplies⟩) (by simp)
  | _ =>
    obtain rfl := hruns
    exact hmove (by simp [ReplyStage.args?, replyCoverage]) (fun _ => .inl (by simp))
      (by simp [replyCoverage])

end ReplyInv

/-- Every run keeps the invariant, whatever happens in it. -/
def replyInvariant (config : MatrixDispatcher.Config) (allow : World → Step → Prop) :
    Invariant (replyCoverage config).supervision allow where
  inv := ReplyInv
  effect _ hinv _ _ hexec hnext := hinv.step hexec (ReplyStage.step_cases hnext)
  finish := by
    intro G w t _ hinv _
    refine hinv.move (.of_eq rfl) hinv.numbered ?_ ?_ ?_ fun _ _ => .inl <;>
      simp [replyMonitor, ReplyStage.args?]
  env := by
    intro G w w' a _ hinv _ henv
    obtain ⟨m, -, hmoved⟩ := env_eq henv
    have htrace := (moved_same hmoved).1
    have hgrows := Grows.of_eq htrace
    have hmove : ReplyInv (Function.update G .main (G .main)) w' :=
      hinv.move hgrows (hinv.numbered.moved hmoved)
        (fun args hargs => (hinv.runs _ args hargs).mono hgrows.dispatched)
        (fun hg => (hinv.apart _ hg).mono hgrows)
        (fun args row hg => (hinv.called _ args row hg).mono hgrows)
        fun u turn hmem => .inl (htrace ▸ hmem)
    rwa [Function.update_eq_self] at hmove
  start := by
    intro G w w' t fiber a hgood hinv _ hstart habsent
    obtain ⟨n, request, rfl, hitem, -, rfl⟩ := start_eq hstart
    have hruns := hinv.numbered.inbox _ (List.mem_of_getElem? hitem)
    have henter : (replyCoverage config).supervision.enter (.pick n) w =
        (replyCoverage config).enter request := (replyCoverage config).entered_eq hitem
    rw [henter]
    exact hinv.start hruns
  crash := by
    intro G w w' a _ hinv _ hcrash
    obtain ⟨-, rfl⟩ := crash_eq hcrash
    refine ⟨hinv.numbered.crashed, by simp [replyMonitor, ReplyStage.args?], by simp [replyMonitor],
      by simp [replyMonitor], fun u turn hmem => ?_⟩
    have hold : Obs.marked u (.runnerCall turn) ∈ w.trace :=
      (List.mem_cons.mp hmem).resolve_left (by simp)
    refine (hinv.resumes u turn hold).imp ?_ (Rootless.mono .of_crashed)
    rintro ⟨args, row, hruns, hturn⟩
    exact ⟨args, row, hruns.mono List.prefix_rfl, hturn⟩

/-- No handler runs at first. -/
theorem ReplyInv.initial : ReplyInv (fun _ => .absent) World.initial :=
  ⟨.initial, by simp [ReplyStage.args?], by simp, by simp, by simp [World.initial]⟩

/-! ## Two replies -/

/-- When handler `n₂` asks for a lock, handler `n₁` has it, waits for it or has called the runner;
and handler `n₁` is not cancelled while it waits. -/
def inTurn (n₁ n₂ : Nat) (w : World) : Step → Prop
  | .effect t (.sync (.lockTry room)) _ => t = .handler n₂ →
    HasCalled w (.handler n₁) ∨ (w.locks room).owner = some (.handler n₁) ∨
      .handler n₁ ∈ (w.locks room).waiters
  | .effect t (.await (.lockWait _)) _ => t = .handler n₁ → t ∉ w.cancelled
  | _ => True

/-- Before each call of handler `n₂`, handler `n₁` has called. -/
def InOrder (n₁ n₂ : Nat) (w : World) : Prop :=
  ∀ later turn earlier, w.trace = later ++ .marked (.handler n₂) (.runnerCall turn) :: earlier →
    HasCalled { w with trace := earlier } (.handler n₁)

/-- A step on the way to a world in which both handlers are those of replies in the room. -/
structure Lined (config : MatrixDispatcher.Config) (n₁ n₂ : Nat) (room : RoomId) (w : World)
    (e : Step) : Prop where
  inTurn : inTurn n₁ n₂ w e
  locks : ∀ t eff a, e = .effect t eff a →
    ∃ G, LockInv G w ∧ ∀ r, ∃ g', TurnStep config (G t) (TurnAct.of eff r) g'
  replies₁ : ¬ Rootless w (.handler n₁)
  replies₂ : ¬ Rootless w (.handler n₂)
  rooms : ∀ args, w.Runs (.handler n₂) (.handle args) → args.roomId = room

/-- Handler `n₂` does not overtake handler `n₁`. -/
structure LineInv (n₁ n₂ : Nat) (room : RoomId) (G : Tid → ReplyStage) (w : World) : Prop where
  replies : ReplyInv G w
  queued : ∀ args row, G (.handler n₂) = .queued args row →
    HasCalled w (.handler n₁) ∨ (w.locks room).Ahead (.handler n₁) (.handler n₂)
  held : ∀ args row, G (.handler n₂) = .held args row → HasCalled w (.handler n₁)
  inOrder : InOrder n₁ n₂ w

section

variable {n₁ n₂ : Nat} {room : RoomId} {t : Tid} {a : Answer} {e : Eff} {r : e.Ret}

/-- A task leaves a line when it is cancelled. -/
theorem cancelled_of_giveUp (h : exec t a e w = some (r, w'))
    (hact : TurnAct.of e r = .waitLock room false) :
    e = .await (.lockWait room) ∧ t ∈ w.cancelled := by
  obtain ⟨⟨r', w''⟩, hquiet, heq⟩ := Option.map_eq_some_iff.mp h
  cases heq
  cases e with
  | sync e =>
    cases e with
    | execute s => cases s <;> cases r <;> cases hact
    | createTask request => cases request <;> cases hact
    | kill _ => cases r <;> cases hact
    | mark m => cases m <;> cases hact
    | _ => cases hact
  | await e =>
    cases e with
    -- Only a wait for a lock is given up, and only by a task that is cancelled.
    | lockWait room' =>
      cases r with
      | ok _ => cases hact
      | error x =>
        cases hact
        refine ⟨rfl, cancelled_of_error hquiet fun v hv => ?_⟩
        rw [execOperation] at hv
        split at hv <;> cases hv
    | communicate _ _ | wait _ =>
      rcases r with x | _
      · cases x <;> cases hact
      · cases hact
    | fetchPending _ _ | exec _ _ _ _ | pause => cases r <;> cases hact
    | _ => cases hact

/-- Calls of the runner come in order if each of them is made in order. -/
theorem InOrder.exec (h : InOrder n₁ n₂ w) (hexec : exec t a e w = some (r, w'))
    (hcall : ∀ turn, t = .handler n₂ → TurnAct.of e r = .call turn →
      HasCalled w (.handler n₁)) : InOrder n₁ n₂ w' := by
  intro later turn earlier heq
  rw [exec_trace hexec] at heq
  cases hobs : obsOf t e r with
  | none =>
    rw [hobs] at heq
    exact h later turn earlier heq
  | some o =>
    rw [hobs] at heq
    cases later with
    | nil =>
      obtain ⟨rfl, rfl⟩ := List.cons.inj heq
      rw [obsOf.eq_def] at hobs
      split at hobs <;> cases hobs
      exact hcall turn rfl rfl
    | cons o' later => exact h later turn earlier (List.cons.inj heq).2

/-- `InOrder` depends on the trace only. -/
theorem InOrder.of_trace (h : InOrder n₁ n₂ w) (htrace : w'.trace = w.trace) :
    InOrder n₁ n₂ w' :=
  fun later turn earlier heq => h later turn earlier (htrace ▸ heq)

namespace LineInv

/-- Whoever is ahead has called, or is still ahead, after an act of another task than the one that
waits behind it. -/
theorem stays_ahead {g' : ReplyStage} (h : ReplyInv G w)
    (hlined : Lined config n₁ n₂ room w (.effect t e a)) (hexec : exec t a e w = some (r, w'))
    (hstep : ReplyStep (G t) (ReplyAct.of e r) g') (hne : t ≠ .handler n₂)
    (hahead : HasCalled w (.handler n₁) ∨ (w.locks room).Ahead (.handler n₁) (.handler n₂)) :
    HasCalled w' (.handler n₁) ∨ (w'.locks room).Ahead (.handler n₁) (.handler n₂) := by
  by_cases hcalled : HasCalled w (.handler n₁)
  · exact .inl (hcalled.mono (.of_exec hexec))
  refine .inr (TurnAct.ahead_of_change (hahead.resolve_left hcalled) (exec_turn hexec) hne ?_ ?_)
  · intro room' hact
    obtain ⟨Gt, hlock, haccept⟩ := hlined.locks t e a rfl
    obtain ⟨gt, hturn⟩ := haccept r
    rw [hact] at hturn
    have hholds : (Gt t).room? = some room' := by
      generalize Gt t = gt' at hturn
      cases hturn with
      | release _ _ hheld => exact hheld.1
    refine ⟨((hlock room').owner t).mpr hholds, ?_⟩
    -- a reply releases the lock after its call
    rintro rfl
    cases hreply : ReplyAct.of e r with
    | lookup found =>
      rw [ReplyAct.lookup_of hreply] at hact
      cases hact
    | turn act =>
      obtain rfl : act = .release room' := (ReplyAct.turn_of hreply).symm.trans hact
      rw [hreply] at hstep
      generalize hg : G (.handler n₁) = g at hstep
      cases hstep with
      | apart => exact hlined.replies₁ (h.apart _ hg)
      | release args row => exact hcalled (h.called _ args row hg)
      | quiet _ _ hquiet => cases hquiet
  · rintro room' hact rfl
    obtain ⟨rfl, hcancelled⟩ := cancelled_of_giveUp hexec hact
    exact hlined.inTurn rfl hcancelled

/-- Handler `n₂` waits behind handler `n₁`, which may have called. -/
theorem queued_behind {g' : ReplyStage} {args : HandlerArgs} {row : SessionRow}
    (h : LineInv n₁ n₂ room G w) (hlined : Lined config n₁ n₂ room w (.effect (.handler n₂) e a))
    (hexec : exec (.handler n₂) a e w = some (r, w'))
    (hstep : ReplyStep (G (.handler n₂)) (ReplyAct.of e r) g') (hg' : g' = .queued args row) :
    HasCalled w' (.handler n₁) ∨ (w'.locks room).Ahead (.handler n₁) (.handler n₂) := by
  have hlocks := (exec_turn hexec).locks
  -- Where the locks stay, the place behind `n₁` stays.
  have hsame : w'.locks = w.locks → G (.handler n₂) = .queued args row →
      HasCalled w' (.handler n₁) ∨ (w'.locks room).Ahead (.handler n₁) (.handler n₂) := by
    intro hlocks hg
    rw [hlocks]
    exact (h.queued args row hg).imp_left (HasCalled.mono (.of_exec hexec))
  generalize hg : G (.handler n₂) = g at hstep
  generalize hact : ReplyAct.of e r = act at hstep
  cases hstep with
  | again _ found =>
    rw [ReplyAct.lookup_of hact] at hlocks
    exact hsame hlocks (hg.trans hg')
  | quiet _ act hquiet =>
    rw [ReplyAct.turn_of hact, TurnAct.locks_of_quiet hquiet] at hlocks
    exact hsame hlocks (hg.trans hg')
  -- The handler joins the line now; by `inTurn` the other one has the lock or is in line.
  | queue args' row' =>
    cases hg'
    have hturn := ReplyAct.turn_of hact
    obtain rfl : args.roomId = room :=
      hlined.rooms args (h.replies.runs _ args (by rw [hg]; rfl))
    obtain rfl : e = .sync (.lockTry args.roomId) := TurnAct.lockTry_of hturn
    rw [hturn] at hlocks
    refine (hlined.inTurn rfl).imp (HasCalled.mono (.of_exec hexec)) fun hline => ?_
    rw [hlocks, TurnAct.locks, Function.update_self]
    refine hline.imp id fun hmem => ?_
    exact (List.singleton_sublist.mpr hmem).append (List.Sublist.refl [Tid.handler n₂])
  | _ => cases hg'

/-- Handler `n₂` gets the lock after handler `n₁` has called. -/
theorem held_behind {g' : ReplyStage} {args : HandlerArgs} {row : SessionRow}
    (h : LineInv n₁ n₂ room G w) (hne : n₁ ≠ n₂)
    (hlined : Lined config n₁ n₂ room w (.effect (.handler n₂) e a))
    (hexec : exec (.handler n₂) a e w = some (r, w'))
    (hstep : ReplyStep (G (.handler n₂)) (ReplyAct.of e r) g') (hg' : g' = .held args row) :
    HasCalled w (.handler n₁) := by
  have hguard := (exec_turn hexec).guard
  generalize hg : G (.handler n₂) = g at hstep
  generalize hact : ReplyAct.of e r = act at hstep
  cases hstep with
  | again | quiet => exact h.held args row (hg.trans hg')
  | take args' row' =>
    cases hg'
    have hturn := ReplyAct.turn_of hact
    obtain rfl : e = .sync (.lockTry args.roomId) := TurnAct.lockTry_of hturn
    rw [hturn] at hguard
    -- the lock is free, so handler `n₁` is not in line
    obtain ⟨howner, hwaiters⟩ := hguard
    rcases hlined.inTurn rfl with hcalled | hown | hmem
    · exact hcalled
    · rw [howner] at hown
      cases hown
    · rw [hwaiters] at hmem
      cases hmem
  | wake args' row' =>
    cases hg'
    obtain rfl : args.roomId = room :=
      hlined.rooms args (h.replies.runs _ args (by rw [hg]; rfl))
    rw [ReplyAct.turn_of hact] at hguard
    obtain ⟨howner, hhead⟩ := hguard
    refine (h.queued args row hg).resolve_right ?_
    rintro (hown | hline)
    · rw [howner] at hown
      cases hown
    · -- handler `n₂` is the first in line, and only once
      obtain ⟨Gt, hlock, -⟩ := hlined.locks _ e a rfl
      obtain ⟨ws, hws⟩ := List.head?_eq_some_iff.mp hhead
      have hnodup := (hlock args.roomId).nodup
      rw [hws, List.nodup_cons] at hnodup
      rw [hws] at hline
      rcases List.sublist_cons_iff.mp hline with hrest | ⟨_, heq, -⟩
      · exact hnodup.1 (hrest.subset (by simp))
      · exact hne (Tid.handler.inj (List.cons.inj heq).1)
  | _ => cases hg'

/-- Acts of the handlers keep the order. -/
theorem step {g' : ReplyStage} (h : LineInv n₁ n₂ room G w) (hne : n₁ ≠ n₂)
    (hlined : Lined config n₁ n₂ room w (.effect t e a)) (hexec : exec t a e w = some (r, w'))
    (hstep : ReplyStep (G t) (ReplyAct.of e r) g') :
    LineInv n₁ n₂ room (Function.update G t g') w' := by
  have hgrows := Grows.of_exec hexec
  refine ⟨h.replies.step hexec hstep, fun args row hg => ?_, fun args row hg => ?_,
    h.inOrder.exec hexec ?_⟩
  · by_cases ht : t = .handler n₂
    · subst ht
      rw [Function.update_self] at hg
      exact h.queued_behind hlined hexec hstep hg
    · rw [Function.update_of_ne (Ne.symm ht)] at hg
      exact stays_ahead h.replies hlined hexec hstep ht (h.queued args row hg)
  · by_cases ht : t = .handler n₂
    · subst ht
      rw [Function.update_self] at hg
      exact (h.held_behind hne hlined hexec hstep hg).mono hgrows
    · rw [Function.update_of_ne (Ne.symm ht)] at hg
      exact (h.held args row hg).mono hgrows
  -- Handler `n₂` calls only when it holds the lock, and then `n₁` has called.
  · rintro turn rfl hturn
    have hact : ReplyAct.of e r = .turn (.call turn) := ReplyAct.call_of hturn
    rw [hact] at hstep
    rcases hstep.call_cases with hapart | ⟨args, row, hheld, -, -⟩
    · exact absurd (h.replies.apart _ hapart) hlined.replies₂
    · exact h.held args row hheld

/-- A task starts or ends, without a change that the line sees. -/
theorem other {g' : ReplyStage} (h : LineInv n₁ n₂ room G w)
    (hreplies : ReplyInv (Function.update G t g') w') (htrace : w'.trace = w.trace)
    (hlocks : w'.locks = w.locks)
    (hg' : ∀ args row, g' ≠ .queued args row ∧ g' ≠ .held args row) :
    LineInv n₁ n₂ room (Function.update G t g') w' := by
  have hkeep : ∀ {g}, Function.update G t g' (.handler n₂) = g → g ≠ g' →
      G (.handler n₂) = g := by
    intro g hg hne
    by_cases ht : Tid.handler n₂ = t
    · subst ht
      rw [Function.update_self] at hg
      exact absurd hg.symm hne
    · rwa [Function.update_of_ne ht] at hg
  refine ⟨hreplies, fun args row hg => ?_, fun args row hg => ?_, h.inOrder.of_trace htrace⟩
  · rw [hlocks]
    exact (h.queued args row (hkeep hg (hg' args row).1.symm)).imp_left
      (HasCalled.mono (.of_eq htrace))
  · exact (h.held args row (hkeep hg (hg' args row).2.symm)).mono (.of_eq htrace)

end LineInv

end

/-- Every run in which the handlers are in turn keeps the order. -/
def lineInvariant (config : MatrixDispatcher.Config) {n₁ n₂ : Nat} (hne : n₁ ≠ n₂)
    (room : RoomId) :
    Invariant (replyCoverage config).supervision (Lined config n₁ n₂ room) where
  inv := LineInv n₁ n₂ room
  effect _ hinv _ hallow hexec hnext :=
    hinv.step hne hallow hexec (ReplyStage.step_cases hnext)
  finish hgood hinv hfinal :=
    hinv.other ((replyInvariant config (Lined config n₁ n₂ room)).finish hgood hinv.replies hfinal)
      rfl rfl (by simp [replyMonitor])
  env := by
    intro G w w' a hgood hinv hallow henv
    have hreplies := (replyInvariant config _).env hgood hinv.replies hallow henv
    obtain ⟨m, -, hmoved⟩ := env_eq henv
    obtain ⟨htrace, hsame⟩ := moved_same hmoved
    have hlocks : w'.locks = w.locks :=
      hsame .locks (by decide) (by decide) (by decide) (by decide)
    refine ⟨hreplies, fun args row hg => ?_, fun args row hg => ?_, hinv.inOrder.of_trace htrace⟩
    · rw [hlocks]
      exact (hinv.queued args row hg).imp_left (HasCalled.mono (.of_eq htrace))
    · exact (hinv.held args row hg).mono (.of_eq htrace)
  start := by
    intro G w w' t fiber a hgood hinv hallow hstart habsent
    have hreplies := (replyInvariant config _).start hgood hinv.replies hallow hstart habsent
    obtain ⟨n, request, henter, -, rfl⟩ := (replyCoverage config).start_good hgood hstart
    refine hinv.other hreplies rfl rfl ?_
    rw [henter, replyCoverage]
    cases request with
    | handle args =>
      dsimp only
      split <;> simp
    | _ => simp
  crash := by
    intro G w w' a hgood hinv hallow hcrash
    have hreplies := (replyInvariant config _).crash hgood hinv.replies hallow hcrash
    obtain ⟨-, rfl⟩ := crash_eq hcrash
    refine ⟨hreplies, by simp [replyMonitor], by simp [replyMonitor], ?_⟩
    rintro (_ | ⟨o, later⟩) turn earlier heq
    · cases heq
    · exact hinv.inOrder later turn earlier (List.cons.inj heq).2

/-- Nobody waits at first. -/
theorem LineInv.initial {n₁ n₂ : Nat} {room : RoomId} :
    LineInv n₁ n₂ room (fun _ => .absent) World.initial :=
  ⟨.initial, by simp, by simp, fun later turn earlier heq => by
    cases later <;> cases heq⟩

/-- The steps of a run are on the way to its end. -/
theorem lined_of_past {n₁ n₂ : Nat} {args₁ args₂ : HandlerArgs}
    {c : Machine.Config Tid Eff Eff.Ret World} (hargs₁ : c.world.argsOf n₁ = some args₁)
    (hargs₂ : c.world.argsOf n₂ = some args₂) (hreplies₁ : args₁.Replies)
    (hreplies₂ : args₂.Replies) {w : World} {e : Step}
    (h : (dispatcher config).Past (inTurn n₁ n₂) (.ofWorld World.initial) c w e) :
    Lined config n₁ n₂ args₂.roomId w e := by
  obtain ⟨hturn, c₁, l, c₂, rfl, hevent, hreach, hstep, hrest⟩ := h
  have hgrows : Grows c₁.world c.world :=
    grows_of_reachable (.trans (.step l .refl (hevent ▸ hturn) hstep) hrest)
  refine ⟨hturn, ?_, fun h₁ => not_rootless hargs₁ hreplies₁ (h₁.mono hgrows),
    fun h₂ => not_rootless hargs₂ hreplies₂ (h₂.mono hgrows), fun args hruns => ?_⟩
  · rintro t eff a rfl
    exact locks_about hreach (Machine.about_of_event hevent hstep).2
  · have hlast : c.world.Runs (.handler n₂) (.handle args₂) := ⟨n₂, rfl, hargs₂⟩
    rw [(hruns.mono hgrows.dispatched).unique hlast]

/-- Each call of `resume_claude` for a reply comes after the call for an earlier reply, if the
earlier one is in line when the later one asks for the lock. -/
theorem replies_in_order {n₁ n₂ : Nat} (hlt : n₁ < n₂) {c : Machine.Config Tid Eff Eff.Ret World}
    (h : Reaches config (inTurn n₁ n₂) c) {args₁ args₂ : HandlerArgs}
    (hargs₁ : c.world.argsOf n₁ = some args₁) (hargs₂ : c.world.argsOf n₂ = some args₂)
    (hreplies₁ : args₁.Replies) (hreplies₂ : args₂.Replies) {later earlier : List Obs} {turn : Turn}
    (htrace : c.world.trace = later ++ .marked (.handler n₂) (.runnerCall turn) :: earlier) :
    (∃ row, turn = replyOf args₂ args₂.event.body.strip row) ∧
      ∃ row, Obs.marked (.handler n₁) (.runnerCall (replyOf args₁ args₁.event.body.strip row)) ∈
        earlier := by
  -- The assumption of the run names the two handlers by their messages.
  have hlined := Machine.Reachable.mono
    (fun _ _ => lined_of_past hargs₁ hargs₂ hreplies₁ hreplies₂) h.past
  obtain ⟨G, -, hline⟩ := (lineInvariant config hlt.ne args₂.roomId).reachable hlined
    (replyCoverage config).good_initial LineInv.initial
  have hruns : ∀ {n args}, c.world.argsOf n = some args →
      c.world.Runs (.handler n) (.handle args) := fun h => ⟨_, rfl, h⟩
  constructor
  -- The call is that of a reply to the handler's own message,
  · have hmem : Obs.marked (.handler n₂) (.runnerCall turn) ∈ c.world.trace := by simp [htrace]
    obtain ⟨args, row, hargs, hturn⟩ :=
      (hline.replies.resumes _ _ hmem).resolve_right (not_rootless hargs₂ hreplies₂)
    obtain rfl := hargs.unique (hruns hargs₂)
    exact ⟨row, hturn⟩
  -- and before it comes the call of the other handler, with its own message.
  · obtain ⟨args, row, hargs, hmem⟩ := hline.inOrder later turn earlier htrace
    have hgrows : dispatchedArgs earlier <+: dispatchedArgs c.world.trace := by
      rw [htrace, dispatchedArgs, dispatchedArgs, List.filterMap_append, List.reverse_append]
      exact List.prefix_append _ _
    obtain rfl := (hargs.mono hgrows).unique (hruns hargs₁)
    exact ⟨row, hmem⟩

/-! ## Scenarios -/

/-- The number of a handler. -/
def Tid.number? : Tid → Option Nat
  | .handler n => some n
  | _ => none

/-- The handlers start in the order of their creation. -/
def startsInOrder (w : World) : Step → Prop
  | .start (.pick i) => ∀ item, w.inbox[i]? = some item → ∀ item' ∈ w.inbox,
    ∀ n, item.1.number? = some n → ∀ m, item'.1.number? = some m → n ≤ m
  | _ => True

/-- `startsInOrder`, evaluated. -/
def isStartInOrder (w : World) : Step → Bool
  | .start (.pick i) => (w.inbox[i]?).all fun item => w.inbox.all fun item' =>
    item.1.number?.all fun n => item'.1.number?.all fun m => decide (n ≤ m)
  | _ => true

/-- What the check accepts meets the condition. -/
theorem startsInOrder_of_check (w : World) (e : Step) (h : isStartInOrder w e = true) :
    startsInOrder w e := by
  rw [startsInOrder.eq_def]
  split
  · intro item hitem item' hitem' n hn m hm
    rw [isStartInOrder, hitem, Option.all_some] at h
    have hall := List.all_eq_true.mp h item' hitem'
    rw [hn, Option.all_some, hm, Option.all_some] at hall
    exact of_decide_eq_true hall
  · trivial

/-- The turn for which a handler calls the runner. -/
def Obs.callOf (n : Nat) : Obs → Option Turn
  | .marked (.handler m) (.runnerCall turn) => if m = n then some turn else none
  | _ => none

/-- Only a mark of the handler itself is a call of its own. -/
theorem Obs.eq_of_callOf {n : Nat} {o : Obs} {turn : Turn} (h : o.callOf n = some turn) :
    o = .marked (.handler n) (.runnerCall turn) := by
  rw [callOf.eq_def] at h
  split at h
  · split at h
    · next hm =>
      cases h
      rw [hm]
    · cases h
  · cases h

/-- Two replies to the session of the first message, in one batch. The post that acknowledges the
first of them stays under way while the second one is acknowledged and resumed. -/
def swapping : List Cue :=
  spawning ++ [.move (.exit 0 0 (lit "ok") []), .go (.handler 0) 16] ++
    batch (lit "t2") (lit "!room") [messageOf (lit "$2") (lit "go on") (replyTo (lit "$1")),
      messageOf (lit "$3") (lit "stop") (replyTo (lit "$1"))] ++
    handling 1 2 2 ++ handling 2 2 15 ++
    [.move (.exit 1 0 (lit "ok") []), .go (.handler 2) 20, .go (.handler 1) 11]

/-- The messages are replies of the trusted sender in one room. -/
def TrustedReplies (args₁ args₂ : HandlerArgs) : Prop :=
  (args₁.Replies ∧ args₁.event.sender = args₁.trustedSender) ∧
    (args₂.Replies ∧ args₂.event.sender = args₂.trustedSender) ∧ args₁.roomId = args₂.roomId

instance (args₁ args₂ : HandlerArgs) : Decidable (TrustedReplies args₁ args₂) :=
  inferInstanceAs (Decidable (_ ∧ _))

/-- The last call is that of handler 1 and the one before that of handler 2, for one session. -/
def isOvertaken (trace : List Obs) : Bool :=
  (trace.head?.bind (Obs.callOf 1)).any fun turn₁ : Turn =>
    ((trace.tail[4]?).bind (Obs.callOf 2)).any fun turn₂ : Turn =>
      decide (turn₁.sessionId = turn₂.sessionId) &&
        (trace.tail.drop 5).all fun o => (Obs.callOf 1 o).isNone

/-- What the check finds is a call of the first handler after one of the second one for the same
session, and none before it. -/
theorem overtaken_of_check {trace : List Obs} (h : isOvertaken trace = true) :
    ∃ later earlier turn₁ turn₂, turn₁.sessionId = turn₂.sessionId ∧
      trace = .marked (.handler 1) (.runnerCall turn₁) :: later ++
        .marked (.handler 2) (.runnerCall turn₂) :: earlier ∧
      ∀ turn, Obs.marked (.handler 1) (.runnerCall turn) ∉ earlier := by
  obtain ⟨turn₁, hfirst, h⟩ := (Option.any_eq_true ..).mp h
  obtain ⟨turn₂, hsecond, h⟩ := (Option.any_eq_true ..).mp h
  obtain ⟨hsession, hnone⟩ := Bool.and_eq_true_iff.mp h
  obtain ⟨o₁, hhead, hcall₁⟩ := Option.bind_eq_some_iff.mp hfirst
  obtain ⟨o₂, hmem, hcall₂⟩ := Option.bind_eq_some_iff.mp hsecond
  obtain rfl := Obs.eq_of_callOf hcall₁
  obtain rfl := Obs.eq_of_callOf hcall₂
  obtain ⟨rest, rfl⟩ := List.head?_eq_some_iff.mp hhead
  rw [List.tail_cons] at hmem hnone
  obtain ⟨hlt, hget⟩ := List.getElem?_eq_some_iff.mp hmem
  refine ⟨rest.take 4, rest.drop 5, turn₁, turn₂, of_decide_eq_true hsession, ?_,
    fun turn hin => ?_⟩
  · rw [List.cons_append, ← hget, ← List.drop_eq_getElem_cons hlt, List.take_append_drop]
  · have hcall := List.all_eq_true.mp hnone _ hin
    rw [Obs.callOf, if_pos rfl] at hcall
    cases hcall

/-- The second reply is passed on to the session, and then the first one. -/
theorem replies_swapped : ∃ c args₁ args₂ later earlier turn₁ turn₂,
    Reaches oneAgent startsInOrder c ∧ c.world.argsOf 1 = some args₁ ∧
    c.world.argsOf 2 = some args₂ ∧ TrustedReplies args₁ args₂ ∧
    turn₁.sessionId = turn₂.sessionId ∧
    c.world.trace = .marked (.handler 1) (.runnerCall turn₁) :: later ++
      .marked (.handler 2) (.runnerCall turn₂) :: earlier ∧
    ∀ turn, Obs.marked (.handler 1) (.runnerCall turn) ∉ earlier := by
  obtain ⟨c, h, hgoal⟩ := reaches_of_play oneAgent swapping
    (fun c => isOvertaken c.world.trace && (c.world.argsOf 1).any fun args₁ : HandlerArgs =>
      (c.world.argsOf 2).any fun args₂ : HandlerArgs => decide (TrustedReplies args₁ args₂))
    startsInOrder_of_check (by decide +kernel)
  obtain ⟨hovertaken, hargs⟩ := Bool.and_eq_true_iff.mp hgoal
  obtain ⟨args₁, hargs₁, hargs⟩ := (Option.any_eq_true ..).mp hargs
  obtain ⟨args₂, hargs₂, hreplies⟩ := (Option.any_eq_true ..).mp hargs
  obtain ⟨later, earlier, turn₁, turn₂, hsession, htrace, hnone⟩ := overtaken_of_check hovertaken
  exact ⟨c, args₁, args₂, later, earlier, turn₁, turn₂, h, hargs₁, hargs₂,
    of_decide_eq_true hreplies, hsession, htrace, hnone⟩

/-- `inTurn`, evaluated: the first handler has the lock or waits for it. -/
def isInTurn (n₁ n₂ : Nat) (w : World) : Step → Bool
  | .effect t (.sync (.lockTry room)) _ => decide (t = .handler n₂ →
    (w.locks room).owner = some (.handler n₁) ∨ .handler n₁ ∈ (w.locks room).waiters)
  | .effect t (.await (.lockWait _)) _ => decide (t ∉ w.cancelled)
  | _ => true

/-- What the check accepts meets the condition. -/
theorem inTurn_of_check {n₁ n₂ : Nat} (w : World) (e : Step) (h : isInTurn n₁ n₂ w e = true) :
    inTurn n₁ n₂ w e := by
  rw [inTurn.eq_def]
  split
  · exact fun ht => .inr (of_decide_eq_true h ht)
  · exact fun _ => of_decide_eq_true h
  · trivial

/-- Two replies to the session of the first message. The second one waits for the turn of the first
one to end. -/
def queueing : List Cue :=
  spawning ++ [.move (.exit 0 0 (lit "ok") []), .go (.handler 0) 16] ++
    batch (lit "t2") (lit "!room") [messageOf (lit "$2") (lit "go on") (replyTo (lit "$1")),
      messageOf (lit "$3") (lit "stop") (replyTo (lit "$1"))] ++
    handling 1 2 16 ++ handling 2 2 11 ++
    [.move (.exit 1 0 (lit "ok") []), .go (.handler 1) 19, .go (.handler 2) 3]

/-- A run in turn, in which the second handler calls after the first one. -/
theorem replies_in_order_queued : ∃ c args₁ args₂ later earlier turn,
    Reaches oneAgent (inTurn 1 2) c ∧ c.world.argsOf 1 = some args₁ ∧
    c.world.argsOf 2 = some args₂ ∧ TrustedReplies args₁ args₂ ∧
    c.world.trace = later ++ .marked (.handler 2) (.runnerCall turn) :: earlier ∧
    (∃ row, turn = replyOf args₂ args₂.event.body.strip row) ∧
    ∃ row, Obs.marked (.handler 1) (.runnerCall (replyOf args₁ args₁.event.body.strip row)) ∈
      earlier := by
  obtain ⟨c, h, hgoal⟩ := reaches_of_play oneAgent queueing
    (fun c => (c.world.trace.head?.bind (Obs.callOf 2)).isSome &&
      (c.world.argsOf 1).any fun args₁ : HandlerArgs =>
        (c.world.argsOf 2).any fun args₂ : HandlerArgs => decide (TrustedReplies args₁ args₂))
    (@inTurn_of_check 1 2) (by decide +kernel)
  obtain ⟨hcalled, hargs⟩ := Bool.and_eq_true_iff.mp hgoal
  obtain ⟨args₁, hargs₁, hargs⟩ := (Option.any_eq_true ..).mp hargs
  obtain ⟨args₂, hargs₂, hreplies⟩ := (Option.any_eq_true ..).mp hargs
  have htrusted := of_decide_eq_true hreplies
  obtain ⟨turn, hturn⟩ := Option.isSome_iff_exists.mp hcalled
  obtain ⟨o, hhead, hcall⟩ := Option.bind_eq_some_iff.mp hturn
  obtain rfl := Obs.eq_of_callOf hcall
  obtain ⟨earlier, htrace⟩ := List.head?_eq_some_iff.mp hhead
  exact ⟨c, args₁, args₂, [], earlier, turn, h, hargs₁, hargs₂, htrusted, htrace,
    replies_in_order (by decide) h hargs₁ hargs₂ htrusted.1.1 htrusted.2.1.1
      (htrace.trans (List.nil_append _).symm)⟩

end MatrixDispatcher
