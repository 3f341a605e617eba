import MatrixDispatcher.Coro.Interference
import MatrixDispatcher.Coro.Monitor

/-!
# Programs and their logs

What a program does by itself, whatever the responses are that it gets. Its log is the list of its
effects with their responses.

* `Coro.Trace` — the logs of a program that has come to its end; `Coro.TraceE` for programs with
  exceptions, with one rule for every way to build them.
* `Coro.Permits` — the responses in a log are those that an assumption allows, given what was
  logged before.
* `Coro.logging` — the arena in which the world is the log; `Coro.logging_triple` is what its
  triples say of the traces of a program.
* `Arena.Executes` — the log of a program among others, and the world that it ends in.
-/

namespace Coro

variable {E : Type} {R : E → Type} {X α β : Type}

/-- An effect with its response. -/
structure Call (E : Type) (R : E → Type) where
  eff : E
  response : R eff

/-! ## Traces -/

/-- The program performs these effects, gets these responses, and returns `a`. -/
def Trace : Coro E R α → List (Call E R) → α → Prop
  | .ret a, es, b => es = [] ∧ a = b
  | .op e k, es, b => ∃ r es', es = ⟨e, r⟩ :: es' ∧ (k r).Trace es' b

/-- A trace begins with the first effect. -/
@[simp] theorem trace_op {e : E} {k : R e → Coro E R α} {es : List (Call E R)} {b : α} :
    (op e k).Trace es b ↔ ∃ r es', es = ⟨e, r⟩ :: es' ∧ (k r).Trace es' b := Iff.rfl

/-- The trace of one effect. -/
theorem trace_perform {e : E} {es : List (Call E R)} {r : R e} :
    (perform e : Coro E R (R e)).Trace es r ↔ es = [⟨e, r⟩] := by
  constructor
  · rintro ⟨_, _, rfl, rfl, rfl⟩
    rfl
  · rintro rfl
    exact ⟨r, [], rfl, rfl, rfl⟩

/-- The trace of two programs is that of the first one and then that of the second one. -/
theorem trace_bind {p : Coro E R α} {f : α → Coro E R β} {es : List (Call E R)} {b : β} :
    (p >>= f).Trace es b ↔
      ∃ es₁ a es₂, es = es₁ ++ es₂ ∧ p.Trace es₁ a ∧ (f a).Trace es₂ b := by
  induction p generalizing es with
  | ret a =>
    constructor
    · exact fun h => ⟨[], a, es, rfl, ⟨rfl, rfl⟩, h⟩
    · rintro ⟨_, _, _, rfl, ⟨rfl, rfl⟩, h⟩
      exact h
  | op e k ih =>
    rw [op_bind, trace_op]
    constructor
    · rintro ⟨r, es', rfl, h⟩
      obtain ⟨es₁, a, es₂, rfl, hp, hf⟩ := (ih r).mp h
      exact ⟨⟨e, r⟩ :: es₁, a, es₂, rfl, ⟨r, es₁, rfl, hp⟩, hf⟩
    · rintro ⟨_, a, es₂, rfl, ⟨r, es₁, rfl, hp⟩, hf⟩
      exact ⟨r, es₁ ++ es₂, rfl, (ih r).mpr ⟨es₁, a, es₂, rfl, hp, hf⟩⟩

/-- The program performs these effects with these responses first. -/
def Begins : Coro E R α → List (Call E R) → Prop
  | _, [] => True
  | .ret _, _ :: _ => False
  | .op e k, c :: es => ∃ r, c = ⟨e, r⟩ ∧ (k r).Begins es

/-- The state of a monitor after a log, if it accepts all of it. -/
def Monitor.after {γ : Type} (M : Monitor E R γ) : γ → List (Call E R) → Option γ
  | g, [] => some g
  | g, c :: es => (M.next g c.eff c.response).bind (M.after · es)

/-- A monitor that a program follows accepts all that the program begins with. -/
theorem Monitor.Follows.accepts {γ : Type} {M : Monitor E R γ} {awaits : E → Bool} {g : γ}
    {p : Coro E R α} {Q : α → γ → Prop} {es : List (Call E R)} (h : M.Follows awaits g p Q)
    (hes : p.Begins es) : ∃ g', M.after g es = some g' := by
  induction es generalizing g p with
  | nil => exact ⟨g, rfl⟩
  | cons c es ih =>
    cases p with
    | ret a => exact hes.elim
    | op e k =>
      obtain ⟨r, rfl, hrest⟩ := hes
      obtain ⟨g', hnext, hk⟩ := h.2 r
      obtain ⟨g'', hafter⟩ := ih hk hrest
      exact ⟨g'', by rw [after, hnext]; exact hafter⟩

/-- The effects of a trace are effects that the program performs. -/
theorem Trace.of_performs {P : E → Prop} {p : Coro E R α} {es : List (Call E R)} {a : α}
    (h : p.Trace es a) (hp : p.Performs P) : ∀ c ∈ es, P c.eff := by
  induction p generalizing es with
  | ret _ =>
    obtain ⟨rfl, -⟩ := h
    exact fun _ hc => by cases hc
  | op e k ih =>
    obtain ⟨r, es', rfl, h⟩ := h
    intro c hc
    rcases List.mem_cons.mp hc with rfl | hc
    · exact hp.1
    · exact ih r h (hp.2 r) c hc

/-- Two runs of a program that get the same responses are the same. -/
theorem Trace.unique {p : Coro E R α} {es es' l l' : List (Call E R)} {a a' : α}
    (h : p.Trace es a) (h' : p.Trace es' a') (heq : es ++ l = es' ++ l') :
    es = es' ∧ a = a' ∧ l = l' := by
  induction p generalizing es es' with
  | ret _ =>
    obtain ⟨rfl, rfl⟩ := h
    obtain ⟨rfl, rfl⟩ := h'
    exact ⟨rfl, rfl, heq⟩
  | op e k ih =>
    obtain ⟨r, es, rfl, h⟩ := h
    obtain ⟨r', es', rfl, h'⟩ := h'
    obtain ⟨hc, hrest⟩ := List.cons.inj heq
    cases hc
    obtain ⟨rfl, rfl, rfl⟩ := ih r h h' hrest
    exact ⟨rfl, rfl, rfl⟩

/-! ### Programs with exceptions -/

/-- `Trace` for programs with exceptions. -/
def TraceE (p : ExceptT X (Coro E R) α) (es : List (Call E R)) (res : Except X α) : Prop :=
  p.run.Trace es res

section TraceE

variable {p : ExceptT X (Coro E R) α} {es : List (Call E R)}

/-- The trace of returning is empty. -/
theorem traceE_pure {a : α} {res : Except X α} :
    TraceE (pure a : ExceptT X (Coro E R) α) es res ↔ es = [] ∧ res = .ok a :=
  and_congr_right fun _ => eq_comm

/-- The trace of raising is empty. -/
theorem traceE_throw {x : X} {res : Except X α} :
    TraceE (throw x : ExceptT X (Coro E R) α) es res ↔ es = [] ∧ res = .error x :=
  and_congr_right fun _ => eq_comm

/-- Two programs one after the other: the second one adds its trace if the first one does not raise.
-/
theorem traceE_bind {f : α → ExceptT X (Coro E R) β} {res : Except X β} :
    TraceE (p >>= f) es res ↔
      (∃ es₁ a es₂, es = es₁ ++ es₂ ∧ TraceE p es₁ (.ok a) ∧ TraceE (f a) es₂ res) ∨
        ∃ x, TraceE p es (.error x) ∧ res = .error x := by
  rw [TraceE, ExceptT.run_bind, trace_bind]
  constructor
  · rintro ⟨es₁, a | x, es₂, rfl, hp, hf⟩
    · obtain ⟨rfl, rfl⟩ := hf
      exact .inr ⟨_, by rwa [List.append_nil], rfl⟩
    · exact .inl ⟨es₁, _, es₂, rfl, hp, hf⟩
  · rintro (⟨es₁, a, es₂, rfl, hp, hf⟩ | ⟨x, hp, rfl⟩)
    · exact ⟨es₁, .ok a, es₂, rfl, hp, hf⟩
    · exact ⟨es, .error x, [], (List.append_nil es).symm, hp, rfl, rfl⟩

/-- Catching what a program raises leaves its trace. -/
theorem traceE_attempt {res : Except X (Except X α)} :
    TraceE (attempt p) es res ↔ ∃ r, TraceE p es r ∧ res = .ok r := by
  rw [TraceE, attempt, ExceptT.run_mk, map_eq_pure_bind, trace_bind]
  constructor
  · rintro ⟨es₁, r, _, rfl, hp, rfl, rfl⟩
    exact ⟨r, by rwa [List.append_nil], rfl⟩
  · rintro ⟨r, hp, rfl⟩
    exact ⟨es, r, [], (List.append_nil es).symm, hp, rfl, rfl⟩

/-- What is done on every way out comes last. -/
theorem traceE_finallyDo {fin : Coro E R Unit} {res : Except X α} :
    TraceE (finallyDo p fin) es res ↔
      ∃ es₁ es₂, es = es₁ ++ es₂ ∧ TraceE p es₁ res ∧ fin.Trace es₂ () := by
  rw [TraceE, finallyDo, ExceptT.run_mk, trace_bind]
  constructor
  · rintro ⟨es₁, r, es₂, rfl, hp, hfin⟩
    obtain ⟨es₃, ⟨⟩, _, rfl, hfin', rfl, rfl⟩ := trace_bind.mp hfin
    rw [List.append_nil]
    exact ⟨es₁, es₃, rfl, hp, hfin'⟩
  · rintro ⟨es₁, es₂, rfl, hp, hfin⟩
    refine ⟨es₁, res, es₂, rfl, hp, trace_bind.mpr ⟨es₂, (), [], ?_, hfin, rfl, rfl⟩⟩
    rw [List.append_nil]

/-- The handler adds its trace if the program raises. -/
theorem traceE_tryCatch {handler : X → ExceptT X (Coro E R) α} {res : Except X α} :
    TraceE (tryCatch p handler) es res ↔
      (∃ a, TraceE p es (.ok a) ∧ res = .ok a) ∨
        ∃ es₁ x es₂, es = es₁ ++ es₂ ∧ TraceE p es₁ (.error x) ∧ TraceE (handler x) es₂ res := by
  refine Iff.trans (trace_bind (p := p.run)) ⟨?_, ?_⟩
  · rintro ⟨es₁, a | x, es₂, rfl, hp, hf⟩
    · exact .inr ⟨es₁, _, es₂, rfl, hp, hf⟩
    · obtain ⟨rfl, rfl⟩ := hf
      exact .inl ⟨_, by rwa [List.append_nil], rfl⟩
  · rintro (⟨a, hp, rfl⟩ | ⟨es₁, x, es₂, rfl, hp, hf⟩)
    · exact ⟨es, .ok a, [], (List.append_nil es).symm, hp, rfl, rfl⟩
    · exact ⟨es₁, .error x, es₂, rfl, hp, hf⟩

end TraceE

/-! ## Assumptions on the responses -/

/-- What is assumed of a response, given the log so far. -/
abbrev Assumption (E : Type) (R : E → Type) := List (Call E R) → (e : E) → R e → Prop

/-- The responses in `es`, which follow the log `l`, are as assumed. -/
def Permits (A : Assumption E R) : List (Call E R) → List (Call E R) → Prop
  | _, [] => True
  | l, c :: es => A l c.eff c.response ∧ Permits A (l ++ [c]) es

/-- The responses of two logs are as assumed if those of the first are, and those of the second
after it. -/
theorem permits_append {A : Assumption E R} {l es es' : List (Call E R)} :
    Permits A l (es ++ es') ↔ Permits A l es ∧ Permits A (l ++ es) es' := by
  induction es generalizing l with
  | nil => simp [Permits]
  | cons c es ih => simp [Permits, ih, and_assoc]

/-- The arena of a program whose responses are as assumed; the world is its log. -/
def logging (A : Assumption E R) : Arena E R (List (Call E R)) where
  rely l l' := l' = l
  step l e r l' := A l e r ∧ l' = l ++ [⟨e, r⟩]
  safe _ _ := True
  rely_refl _ := rfl
  rely_trans h h' := h'.trans h

/-- A program runs in the arena if all its traces end as they should. -/
theorem logging_runs {A : Assumption E R} {p : Coro E R α} {Q : α → List (Call E R) → Prop}
    {l : List (Call E R)} :
    (logging A).Runs p Q l ↔ ∀ es a, p.Trace es a → Permits A l es → Q a (l ++ es) := by
  -- By induction on the program; the rely of the arena changes nothing.
  induction p generalizing l with
  | ret a =>
    constructor
    · rintro h _ _ ⟨rfl, rfl⟩ -
      rw [List.append_nil]
      exact h l rfl
    · rintro h _ rfl
      simpa using h [] a ⟨rfl, rfl⟩ trivial
  | op e k ih =>
    constructor
    · rintro h _ a ⟨r, es, rfl, htrace⟩ ⟨hA, hpermits⟩
      rw [List.append_cons]
      exact (ih r).mp ((h l rfl).2 r _ ⟨hA, rfl⟩) es a htrace hpermits
    · rintro h _ rfl
      refine ⟨trivial, ?_⟩
      rintro r _ ⟨hA, rfl⟩
      refine (ih r).mpr fun es a htrace hpermits => ?_
      rw [← List.append_cons]
      exact h _ a ⟨r, es, rfl, htrace⟩ ⟨hA, hpermits⟩

/-- What a triple says of a program that starts with nothing logged. -/
theorem logging_triple {A : Assumption E R} {p : Coro E R α} {Q : α → List (Call E R) → Prop} :
    (logging A).Triple (· = []) p Q ↔ ∀ es a, p.Trace es a → Permits A [] es → Q a es := by
  constructor
  · exact fun h es a => logging_runs.mp (h [] rfl) es a
  · rintro h _ rfl
    exact logging_runs.mpr h

namespace Logging

variable {A : Assumption E R} {P : List (Call E R) → Prop}

/-- Nobody else writes the log. -/
theorem stable (P : List (Call E R) → Prop) : (logging A).Stable P := by
  rintro l _ h rfl
  exact h

/-- A program that returns without doing anything. -/
theorem ret {a : α} {Q : α → List (Call E R) → Prop} (h : ∀ l, P l → Q a l) :
    (logging A).Triple P (.ret a) Q := by
  rintro _ hl l rfl
  exact h l hl

/-- One effect. -/
theorem perform {e : E} {Q : R e → List (Call E R) → Prop}
    (h : ∀ l r, P l → A l e r → Q r (l ++ [⟨e, r⟩])) :
    (logging A).Triple P (Coro.perform e) Q := by
  refine Arena.Triple.perform (stable P) (fun r => stable (Q r)) (fun _ _ => trivial) ?_
  rintro l r _ hl ⟨hA, rfl⟩
  exact h l r hl hA

/-- A program keeps what its effects keep. -/
theorem performs {F : E → Prop} {p : Coro E R α} (hp : p.Performs F)
    (h : ∀ l e r, F e → P l → A l e r → P (l ++ [⟨e, r⟩])) :
    (logging A).Triple P p fun _ => P := by
  refine Arena.Triple.performs (stable P) (fun _ _ _ _ => trivial) ?_ hp
  rintro e l r _ he hl ⟨hA, rfl⟩
  exact h l e r he hl hA

/-- What a log shows it goes on to show. -/
theorem grows {p : Coro E R α} (h : ∀ l c, P l → P (l ++ [c])) :
    (logging A).Triple P p fun _ => P :=
  performs p.performs_true fun l e r _ hl _ => h l ⟨e, r⟩ hl

/-- Returning leaves the log. -/
theorem pure {a : α} {Q : Except X α → List (Call E R) → Prop} (h : ∀ l, P l → Q (.ok a) l) :
    (logging A).Triple P (Pure.pure a : ExceptT X (Coro E R) α).run Q :=
  ret h

/-- Raising leaves the log. -/
theorem throw {x : X} {Q : Except X α → List (Call E R) → Prop} (h : ∀ l, P l → Q (.error x) l) :
    (logging A).Triple P (MonadExcept.throw x : ExceptT X (Coro E R) α).run Q :=
  ret h

/-- The response to one effect. -/
theorem lift {e : E} {Q : Except X (R e) → List (Call E R) → Prop}
    (h : ∀ l r, P l → A l e r → Q (.ok r) (l ++ [⟨e, r⟩])) :
    (logging A).Triple P (ExceptT.lift (Coro.perform e) : ExceptT X (Coro E R) (R e)).run Q :=
  Arena.Triple.bind (perform (Q := fun r => Q (.ok r)) h) fun _ => ret fun _ => id

/-- A program with exceptions, then another one. -/
theorem bind {p : ExceptT X (Coro E R) α} {f : α → ExceptT X (Coro E R) β}
    {Q : Except X α → List (Call E R) → Prop} {Q' : Except X β → List (Call E R) → Prop}
    (hp : (logging A).Triple P p.run Q)
    (hf : ∀ a, (logging A).Triple (Q (.ok a)) (f a).run Q')
    (herror : ∀ x l, Q (.error x) l → Q' (.error x) l) :
    (logging A).Triple P (p >>= f).run Q' := by
  rw [ExceptT.run_bind]
  refine Arena.Triple.bind hp fun res => ?_
  cases res with
  | ok a => exact hf a
  | error x => exact ret (herror x)

/-- One effect, and what is done with its response. -/
theorem lift_bind {e : E} {f : R e → ExceptT X (Coro E R) β} {Q : R e → List (Call E R) → Prop}
    {Q' : Except X β → List (Call E R) → Prop}
    (h : ∀ l r, P l → A l e r → Q r (l ++ [⟨e, r⟩]))
    (hf : ∀ r, (logging A).Triple (Q r) (f r).run Q') :
    (logging A).Triple P (ExceptT.lift (Coro.perform e) >>= f).run Q' :=
  bind (Q := fun res l => ∃ r, res = .ok r ∧ Q r l)
    (lift fun l r hl hr => ⟨r, rfl, h l r hl hr⟩)
    (fun a => Arena.Triple.pre (fun _ ⟨_, heq, hl⟩ => by cases heq; exact hl) (hf a))
    fun _ _ ⟨_, heq, _⟩ => nomatch heq

/-- A program that is run without raising, and what is done with the way it ended. -/
theorem attempt {p : ExceptT X (Coro E R) α} {f : Except X α → ExceptT X (Coro E R) β}
    {Q : Except X α → List (Call E R) → Prop} {Q' : Except X β → List (Call E R) → Prop}
    (hp : (logging A).Triple P p.run Q) (hf : ∀ res, (logging A).Triple (Q res) (f res).run Q') :
    (logging A).Triple P (attempt p >>= f).run Q' := by
  have hattempt : (Coro.attempt p >>= f).run = p.run >>= fun res => (f res).run := by
    rw [ExceptT.run_bind, Coro.attempt, ExceptT.run_mk, map_eq_pure_bind, bind_assoc]
    rfl
  rw [hattempt]
  exact Arena.Triple.bind hp hf

end Logging

/-! ## Logs among others -/

namespace Arena

variable {W : Type}

/-- The program starts in a world, performs these effects while the others do what they may, gets
these responses, and returns a value in this world. -/
def Executes (N : Arena E R W) : Coro E R α → W → List (Call E R) → α → W → Prop
  | .ret a, w, es, b, w' => es = [] ∧ a = b ∧ N.rely w w'
  | .op e k, w, es, b, w' => ∃ w₁ r w₂ es', N.rely w w₁ ∧ N.step w₁ e r w₂ ∧
      es = ⟨e, r⟩ :: es' ∧ N.Executes (k r) w₂ es' b w'

variable {N : Arena E R W} {p : Coro E R α} {w w' : W} {l es : List (Call E R)} {a : α}

/-- An execution is a trace of its program. -/
theorem Executes.trace (h : N.Executes p w es a w') : p.Trace es a := by
  induction p generalizing w es with
  | ret _ => exact ⟨h.1, h.2.1⟩
  | op e k ih =>
    obtain ⟨_, r, _, es', -, -, rfl, h⟩ := h
    exact ⟨r, es', rfl, ih r h⟩

/-- What is known of the world from the log stays known, and the responses are as assumed, if this
is so for each effect. -/
theorem Executes.permits {F : E → Prop} {A : Assumption E R} {J : List (Call E R) → W → Prop}
    (hrely : ∀ {l w w'}, J l w → N.rely w w' → J l w')
    (hstep : ∀ {l w e r w'}, F e → J l w → N.step w e r w' → A l e r ∧ J (l ++ [⟨e, r⟩]) w')
    (hp : p.Performs F) (h : N.Executes p w es a w') (hJ : J l w) :
    Permits A l es ∧ J (l ++ es) w' := by
  induction p generalizing w l es with
  | ret _ =>
    obtain ⟨rfl, -, hothers⟩ := h
    rw [List.append_nil]
    exact ⟨trivial, hrely hJ hothers⟩
  | op e k ih =>
    obtain ⟨_, r, _, es', hothers, hown, rfl, h⟩ := h
    obtain ⟨hA, hJ'⟩ := hstep hp.1 (hrely hJ hothers) hown
    obtain ⟨hpermits, hend⟩ := ih r (hp.2 r) h hJ'
    rw [List.append_cons]
    exact ⟨⟨hA, hpermits⟩, hend⟩

/-- A run of two programs, one after the other. -/
theorem Executes.of_bind {f : α → Coro E R β} {b : β} (h : N.Executes (p >>= f) w es b w') :
    ∃ es₁ a w₁ es₂, es = es₁ ++ es₂ ∧ N.Executes p w es₁ a w₁ ∧ N.Executes (f a) w₁ es₂ b w' := by
  induction p generalizing w es with
  | ret a => exact ⟨[], a, w, es, rfl, ⟨rfl, rfl, N.rely_refl w⟩, h⟩
  | op e k ih =>
    obtain ⟨w₁, r, w₂, es', hothers, hown, rfl, h⟩ := h
    obtain ⟨es₁, a, w₃, es₂, rfl, hp, hf⟩ := ih r h
    exact ⟨⟨e, r⟩ :: es₁, a, w₃, es₂, rfl, ⟨w₁, r, w₂, es₁, hothers, hown, rfl, hp⟩, hf⟩

/-- A run of two programs with exceptions, the second of which is reached. -/
theorem Executes.of_bindE {p : ExceptT X (Coro E R) α} {f : α → ExceptT X (Coro E R) β}
    {res : Except X β} (h : N.Executes (p >>= f).run w es res w') :
    (∃ es₁ a w₁ es₂, es = es₁ ++ es₂ ∧ N.Executes p.run w es₁ (.ok a) w₁ ∧
      N.Executes (f a).run w₁ es₂ res w') ∨
        ∃ x w₁, N.Executes p.run w es (.error x) w₁ ∧ res = .error x ∧ N.rely w₁ w' := by
  rw [ExceptT.run_bind] at h
  obtain ⟨es₁, a | x, w₁, es₂, rfl, hp, hf⟩ := h.of_bind
  · obtain ⟨rfl, rfl, hothers⟩ := hf
    rw [List.append_nil]
    exact .inr ⟨a, w₁, hp, rfl, hothers⟩
  · exact .inl ⟨es₁, x, w₁, es₂, rfl, hp, hf⟩

/-- A run of one effect. -/
theorem Executes.of_perform {e : E} {r : R e} (h : N.Executes (perform e) w es r w') :
    ∃ w₁ w₂, N.rely w w₁ ∧ N.step w₁ e r w₂ ∧ N.rely w₂ w' ∧ es = [⟨e, r⟩] := by
  obtain ⟨w₁, r', w₂, _, hothers, hown, rfl, rfl, rfl, hrest⟩ := h
  exact ⟨w₁, w₂, hothers, hown, hrest, rfl⟩

/-- The run of a program by itself, in a world that answers every effect or is stuck. -/
def drive (exec : W → (e : E) → Option (R e × W)) :
    Coro E R α → W → Option (List (Call E R) × α × W)
  | .ret a, w => some ([], a, w)
  | .op e k, w => (exec w e).bind fun (r, w₁) =>
      (drive exec (k r) w₁).map fun (es, a, w₂) => (⟨e, r⟩ :: es, a, w₂)

/-- A run of a program by itself is an execution, with no steps of others in between. -/
theorem executes_of_drive {exec : W → (e : E) → Option (R e × W)}
    (hexec : ∀ w e r w', exec w e = some (r, w') → N.step w e r w')
    (h : drive exec p w = some (es, a, w')) : N.Executes p w es a w' := by
  induction p generalizing w es with
  | ret _ =>
    cases h
    exact ⟨rfl, rfl, N.rely_refl _⟩
  | op e k ih =>
    obtain ⟨⟨r, w₁⟩, hown, h⟩ := Option.bind_eq_some_iff.mp h
    obtain ⟨⟨es', _, _⟩, hrest, heq⟩ := Option.map_eq_some_iff.mp h
    cases heq
    exact ⟨w, r, w₁, es', N.rely_refl w, hexec w e r w₁ hown, rfl, ih r hrest⟩

end Arena

end Coro
