import MatrixDispatcher.Coro.Effort
import MatrixDispatcher.Coro.Monitor
import MatrixDispatcher.RegistryInit

/-!
# The registry is initialised once

Any number of calls of `get_registry`, interleaved at their awaits, any of them cancelled.

* `InitStage`, `Moves` — where a call is, and its moves; every call makes only these
  (`caller_conforms`).
* `Locked`, `Single` — the lock agrees with the calls that hold it and wait for it, and the client
  is created once.
* `single_initialisation` — one client, at most one pool, no deadlock, and the right DSN.
-/

namespace MatrixDispatcher

namespace RegistryInit

open Coro

variable {env : Environ}

/-! ## Stages -/

/-- Where a call of `get_registry` is. -/
inductive InitStage where
  | idle
  /-- The task has not begun to run. -/
  | begun
  | called
  /-- There is no client. -/
  | unset
  /-- There is no lock either. -/
  | lockless
  | locking (lock : LockRef)
  | waiting (lock : LockRef)
  | holding (lock : LockRef)
  /-- There still is no client; this is what Vault has answered. -/
  | building (lock : LockRef) (vaultDsn : Option (Option Str))
  /-- `_build_pool` is about to return. -/
  | pooled (lock : LockRef) (pool : Option Pool)
  | complete (lock : LockRef) (pool : Option Pool)
  | made (lock : LockRef) (client : ClientRef)
  | leaving (lock : LockRef) (res : Option ClientRef)
  | done (res : Option ClientRef)
  | ended

namespace InitStage

/-- The lock that the call works with. -/
def lock : InitStage → Option LockRef
  | locking l | waiting l | holding l | building l _ | pooled l _ | complete l _ | made l _
  | leaving l _ => some l
  | _ => none

/-- The call holds the lock. -/
def holds : InitStage → Bool
  | holding _ | building _ _ | pooled _ _ | complete _ _ | made _ _ | leaving _ _ => true
  | _ => false

/-- The call waits for the lock. -/
def waits : InitStage → Bool
  | waiting _ => true
  | _ => false

/-- The call has found that there is no client, under the lock. -/
def creates : InitStage → Bool
  | building _ _ | pooled _ _ | complete _ _ | made _ _ => true
  | _ => false

/-- The call has built the pool, and is about to publish the client. -/
def publishes : InitStage → Bool
  | complete _ _ | made _ _ => true
  | _ => false

/-- The client that the call is going to return. -/
def gives : InitStage → Option ClientRef
  | leaving _ res | done res => res
  | _ => none

/-- What Vault has answered to the call, as far as that matters. -/
def answer : InitStage → Option (Option (Option Str))
  | building _ read => some read
  | begun | called | unset | lockless | locking _ | waiting _ | holding _ => some none
  | _ => none

/-- The call keeps the processor. -/
def atomic : InitStage → Bool
  | unset | lockless | locking _ | holding _ | pooled _ _ | complete _ _ | made _ _ | leaving _ _
  | done _ => true
  | _ => false

end InitStage

/-- The DSN that a call takes after this answer of Vault, if it asked Vault. -/
def dsnAfter (env : Environ) (vaultDsn : Option (Option Str)) : Str := resolve env vaultDsn.join

/-- Vault has been asked if it is configured. -/
def Asked (env : Environ) (vaultDsn : Option (Option Str)) : Prop :=
  vaultDsn.isSome = vaultConfigured env

open InitStage in
/-- The moves of a call. -/
inductive Moves (env : Environ) : InitStage → (e : InitEff) → e.Ret → InitStage → Prop
  | start : Moves env begun (.await .start) (.ok ()) called
  | unstarted {x : Exn} : Moves env begun (.await .start) (.error x) (done none)
  | found {c : ClientRef} : Moves env called (.sync .registryGet) (some c) (done (some c))
  | missing : Moves env called (.sync .registryGet) none unset
  | lock {l : LockRef} : Moves env unset (.sync .initLockGet) (some l) (locking l)
  | noLock : Moves env unset (.sync .initLockGet) none lockless
  | newLock {l : LockRef} : Moves env lockless (.sync .newLock) l (locking l)
  | take {l : LockRef} : Moves env (locking l) (.sync (.lockTry l)) true (holding l)
  | queue {l : LockRef} : Moves env (locking l) (.sync (.lockTry l)) false (waiting l)
  | enter {l : LockRef} : Moves env (waiting l) (.await (.lockWait l)) (.ok ()) (holding l)
  | giveUp {l : LockRef} {x : Exn} :
      Moves env (waiting l) (.await (.lockWait l)) (.error x) (done none)
  | lost {l : LockRef} {c : ClientRef} :
      Moves env (holding l) (.sync .registryGet) (some c) (leaving l (some c))
  | first {l : LockRef} : Moves env (holding l) (.sync .registryGet) none (building l none)
  | read {l : LockRef} {d : Option Str} (h : vaultConfigured env = true) :
      Moves env (building l none) (.await .readVault) (.ok d) (building l (some d))
  | unread {l : LockRef} {x : Exn} (h : vaultConfigured env = true) :
      Moves env (building l none) (.await .readVault) (.error x) (leaving l none)
  | installed {l : LockRef} {read : Option (Option Str)} :
      Moves env (building l read) (.sync .importAsyncpg) true (building l read)
  | missingDep {l : LockRef} {read : Option (Option Str)} :
      Moves env (building l read) (.sync .importAsyncpg) false (pooled l none)
  | connect {l : LockRef} {read : Option (Option Str)} {dsn : Str} {p : Pool}
      (hasked : Asked env read) (hdsn : dsn = dsnAfter env read) (hne : dsn ≠ []) :
      Moves env (building l read) (.await (.createPool dsn)) (.ok p) (pooled l (some p))
  | refused {l : LockRef} {read : Option (Option Str)} {dsn : Str} {x : Exn}
      (hasked : Asked env read) (hdsn : dsn = dsnAfter env read) (hne : dsn ≠ [])
      (hx : x.isException = true) :
      Moves env (building l read) (.await (.createPool dsn)) (.error x) (pooled l none)
  | interrupted {l : LockRef} {read : Option (Option Str)} {dsn : Str} {x : Exn}
      (hasked : Asked env read) (hdsn : dsn = dsnAfter env read) (hne : dsn ≠ [])
      (hx : x.isException = false) :
      Moves env (building l read) (.await (.createPool dsn)) (.error x) (leaving l none)
  | built {l : LockRef} {pool : Option Pool} :
      Moves env (pooled l pool) (.sync (.mark (.built pool))) () (complete l pool)
  | disabled {l : LockRef} {read : Option (Option Str)} {c : ClientRef}
      (hasked : Asked env read) (hdsn : dsnAfter env read = []) :
      Moves env (building l read) (.sync (.newClient none)) c (made l c)
  | make {l : LockRef} {pool : Option Pool} {c : ClientRef} :
      Moves env (complete l pool) (.sync (.newClient pool)) c (made l c)
  | publish {l : LockRef} {c : ClientRef} :
      Moves env (made l c) (.sync (.registrySet c)) () (leaving l (some c))
  | leave {l : LockRef} {res : Option ClientRef} :
      Moves env (leaving l res) (.sync (.lockRelease l)) () (done res)
  | report {res : Except Exn ClientRef} {out : Option ClientRef} (hres : res.toOption = out) :
      Moves env (done out) (.sync (.mark (.returned res))) () ended

/-- An effect and its response determine the next stage of a call. -/
theorem Moves.unique {g g₁ g₂ : InitStage} {e : InitEff} {r : e.Ret} (h₁ : Moves env g e r g₁)
    (h₂ : Moves env g e r g₂) : g₁ = g₂ := by
  cases h₁ <;> cases h₂ <;> first | rfl | simp_all

/-- The monitor of the calls. -/
noncomputable def initMonitor (env : Environ) : Monitor InitEff InitEff.Ret InitStage where
  next := Monitor.nextOf (Moves env)
  atomic := InitStage.atomic
  final g := g = .ended
  idle := .idle
  atomic_idle := rfl

/-- The monitor takes a step exactly where `Moves` has one. -/
theorem next_iff {g g' : InitStage} {e : InitEff} {r : e.Ret} :
    (initMonitor env).next g e r = some g' ↔ Moves env g e r g' :=
  Monitor.nextOf_eq_some_iff (Moves env) fun _ _ _ _ _ => Moves.unique

/-! ## The program -/

/-- From stage `g`, the coroutine makes moves and ends as `Q` says. -/
abbrev Makes {α : Type} (env : Environ) (g : InitStage) (p : Init α)
    (Q : Except Exn α → InitStage → Prop) : Prop :=
  (initMonitor env).Follows InitEff.awaits g p.run Q

section

variable {α β : Type} {g : InitStage}

/-- A synchronous effect, then the rest of the call. -/
theorem makes_sync {e : InitSync} {f : e.Ret → Init β} {Q : Except Exn β → InitStage → Prop}
    (h : ∀ r, ∃ g', Moves env g (.sync e) r g' ∧ Makes env g' (f r) Q) :
    Makes env g (sync e >>= f) Q :=
  ⟨fun _ => rfl, fun r => (h r).imp fun _ h => ⟨next_iff.mpr h.1, h.2⟩⟩

/-- An operation that a call awaits where it gives up the processor. -/
theorem makes_await {e : InitAwait} {Q : Except Exn e.Val → InitStage → Prop}
    (hg : g.atomic = false) (h : ∀ r, ∃ g', Moves env g (.await e) r g' ∧ Q r g') :
    Makes env g (await e) Q :=
  Monitor.Follows.perform (fun hatomic => by rw [show g.atomic = true from hatomic] at hg; cases hg)
    fun r => (h r).imp fun _ h => ⟨next_iff.mpr h.1, h.2⟩

/-- One effect of a call. -/
theorem makes_perform {e : InitSync} {Q : e.Ret → InitStage → Prop}
    (h : ∀ r, ∃ g', Moves env g (.sync e) r g' ∧ Q r g') :
    (initMonitor env).Follows InitEff.awaits g (Coro.perform (InitEff.sync e)) Q :=
  Monitor.Follows.perform (fun _ => rfl) fun r => (h r).imp fun _ h => ⟨next_iff.mpr h.1, h.2⟩

/-- `_build_pool` returns a pool or `None`, or is cancelled. -/
theorem makes_buildPool {l : LockRef} {read : Option (Option Str)} (hasked : Asked env read)
    (hne : dsnAfter env read ≠ []) :
    Makes env (.building l read) (buildPool (dsnAfter env read)) fun res g =>
      match res with
      | .ok pool => g = .complete l pool
      | .error _ => g = .leaving l none := by
  -- `create_pool` succeeds, raises an `Exception`, which is caught, or is cancelled.
  have htry : Makes env (.building l read) (tryPool (dsnAfter env read)) fun res g =>
      match res with
      | .ok pool => g = .pooled l pool
      | .error _ => g = .leaving l none := by
    refine makes_sync fun installed => ?_
    cases installed with
    | false => exact ⟨.pooled l none, .missingDep, rfl⟩
    | true =>
      refine ⟨.building l read, .installed, ?_⟩
      refine Monitor.Follows.bindE (Monitor.Follows.attempt (makes_await rfl fun r => ?_))
      cases r with
      -- Only then is the pool counted as built.
      | ok pool => exact ⟨.pooled l (some pool), .connect hasked rfl hne, rfl⟩
      | error x =>
        dsimp only
        by_cases hx : x.isException = true
        · rw [if_pos hx]
          exact ⟨.pooled l none, .refused hasked rfl hne hx, rfl⟩
        · rw [if_neg hx]
          exact ⟨.leaving l none, .interrupted hasked rfl hne (by simpa using hx), rfl⟩
  refine Monitor.Follows.bindE (htry.mono fun res g hg => ?_)
  cases res with
  | ok pool =>
    obtain rfl : g = .pooled l pool := hg
    exact makes_sync fun _ => ⟨.complete l pool, .built, rfl⟩
  | error x => exact hg

/-- What is done under the lock ends with a client, which is then the one that there is, or with an
exception. -/
theorem makes_initialise {l : LockRef} :
    Makes env (.holding l) (initialise env) fun res g => g = .leaving l res.toOption := by
  refine makes_sync fun found => ?_
  rcases found with _ | client
  · refine ⟨.building l none, .first, ?_⟩
    -- the client is made from a pool, or without one
    have hmake : ∀ {g : InitStage} {pool : Option Pool},
        (∀ c, Moves env g (.sync (.newClient pool)) c (.made l c)) → Makes env g (do
          let client ← sync (.newClient pool)
          sync (.registrySet client)
          pure client) fun res g => g = .leaving l res.toOption := fun hmove =>
      makes_sync fun c => ⟨.made l c, hmove c, makes_sync fun _ =>
        ⟨.leaving l (some c), .publish, rfl⟩⟩
    have hrest : ∀ {read : Option (Option Str)}, Asked env read →
        Makes env (.building l read) (do
          let pool ← poolFor (dsnAfter env read)
          let client ← sync (.newClient pool)
          sync (.registrySet client)
          pure client) fun res g => g = .leaving l res.toOption := by
      intro read hasked
      rw [poolFor]
      by_cases hdsn : dsnAfter env read = []
      · rw [if_pos hdsn]
        exact hmake fun c => .disabled hasked hdsn
      · rw [if_neg hdsn]
        refine Monitor.Follows.bindE ((makes_buildPool hasked hdsn).mono fun res g hg => ?_)
        cases res with
        | ok pool =>
          obtain rfl : g = .complete l pool := hg
          exact hmake fun c => .make
        | error x => exact hg
    dsimp only
    rw [readVault]
    by_cases hvault : vaultConfigured env = true
    · rw [if_pos hvault]
      refine Monitor.Follows.bindE (makes_await rfl fun r => ?_)
      cases r with
      | ok d => exact ⟨.building l (some d), .read hvault, hrest (by simp [Asked, hvault])⟩
      | error x => exact ⟨.leaving l none, .unread hvault, rfl⟩
    · rw [if_neg hvault]
      exact @hrest none (by simpa [Asked] using hvault)
  · exact ⟨.leaving l (some client), .lost, rfl⟩

/-- `async with lock`. -/
theorem makes_withLock {l : LockRef} :
    Makes env (.locking l) (withLock l (initialise env)) fun res g => g = .done res.toOption := by
  have hheld : Makes env (.holding l) (Coro.finallyDo (initialise env)
      (Coro.perform (InitEff.sync (.lockRelease l)))) fun res g => g = .done res.toOption := by
    refine Monitor.Follows.finallyDo (makes_initialise.mono fun res g hg => ?_)
    subst hg
    exact makes_perform fun _ => ⟨.done res.toOption, .leave, rfl⟩
  refine Monitor.Follows.bindE (makes_sync fun got => ?_)
  cases got with
  | true => exact ⟨.holding l, .take, hheld⟩
  | false =>
    refine ⟨.waiting l, .queue, makes_await rfl fun r => ?_⟩
    cases r with
    | ok _ => exact ⟨.holding l, .enter, hheld⟩
    | error x => exact ⟨.done none, .giveUp, rfl⟩

/-- `get_registry` makes moves from `called` on, and ends in `done` with the client that it returns.
-/
theorem makes_getRegistry :
    Makes env .called (getRegistry env) fun res g => g = .done res.toOption := by
  refine makes_sync fun found => ?_
  rcases found with _ | client
  · refine ⟨.unset, .missing, Monitor.Follows.bindE (makes_sync fun lock => ?_)⟩
    rcases lock with _ | lock
    · exact ⟨.lockless, .noLock, fun _ => rfl, fun lock =>
        ⟨.locking lock, next_iff.mpr .newLock, makes_withLock⟩⟩
    · exact ⟨.locking lock, .lock, makes_withLock⟩
  · exact ⟨.done (some client), .found, rfl⟩

/-- Every call makes only these moves. -/
theorem caller_conforms : (initMonitor env).Conforms InitEff.awaits .begun (callerFiber env) := by
  refine Monitor.Conforms.once (Monitor.Follows.bind (p := ExceptT.run _) (Q := fun res g =>
    g = .done res.toOption) ?_ fun res g hg => ?_)
  · refine Monitor.Follows.bindE (makes_await rfl fun r => ?_)
    cases r with
    | ok _ => exact ⟨.called, .start, makes_getRegistry⟩
    | error x => exact ⟨.done none, .unstarted, rfl⟩
  · subst hg
    exact makes_perform fun _ => ⟨.ended, .report rfl, rfl, rfl⟩

end

/-! ## What an effect changes -/

section

variable {t : Caller} {a : InitAnswer} {e : InitEff} {r : e.Ret} {w w' : InitWorld}

/-- The effect changes a lock, or the global that holds it. -/
def locks : InitEff → Bool
  | .sync .newLock | .sync (.lockTry _) | .sync (.lockRelease _) | .await (.lockWait _) => true
  | _ => false

/-- What an effect and its response add to the trace. -/
def marks (t : Caller) : (e : InitEff) → e.Ret → List (Caller × InitMark)
  | .sync (.mark m), _ => [(t, m)]
  | .await .readVault, .ok dsn => [(t, .read dsn)]
  | _, _ => []

/-- A cancellation that is delivered leaves the client and the marks alone; it touches a lock only
where the call waits for it. -/
theorem deliverCancel_frame {e : InitAwait} : (deliverCancel t w e).initLock = w.initLock ∧
    (deliverCancel t w e).registry = w.registry ∧ (deliverCancel t w e).trace = w.trace ∧
    (deliverCancel t w e).callers = w.callers ∧
    (locks (.await e) = false → (deliverCancel t w e).locks = w.locks) := by
  cases e with
  | lockWait l =>
    rw [deliverCancel]
    dsimp only
    split <;> exact ⟨rfl, rfl, rfl, rfl, nofun⟩
  | _ => exact ⟨rfl, rfl, rfl, rfl, fun _ => rfl⟩

/-- Effects that have nothing to do with the lock leave it alone, the client is only set by
`registrySet`, and the trace grows by what the effect marks. -/
theorem exec_frame (h : exec t a e w = some (r, w')) :
    (locks e = false → w'.initLock = w.initLock ∧ w'.locks = w.locks) ∧
      ((∀ c, e ≠ .sync (.registrySet c)) → w'.registry = w.registry) ∧
      w'.trace = marks t e r ++ w.trace ∧ w'.callers = w.callers := by
  cases e with
  | sync e =>
    cases e with
    -- Locks change here, and nothing else does.
    | lockTry l | lockRelease l =>
      rw [exec, execSync] at h
      split at h <;> cases h
      exact ⟨nofun, fun _ => rfl, rfl, rfl⟩
    | importAsyncpg =>
      cases a <;> cases h
      exact ⟨fun _ => ⟨rfl, rfl⟩, fun _ => rfl, rfl, rfl⟩
    | registrySet c =>
      cases h
      exact ⟨fun _ => ⟨rfl, rfl⟩, fun hset => absurd rfl (hset c), rfl, rfl⟩
    | newLock =>
      cases h
      exact ⟨nofun, fun _ => rfl, rfl, rfl⟩
    | _ =>
      cases h
      exact ⟨fun _ => ⟨rfl, rfl⟩, fun _ => rfl, rfl, rfl⟩
  | await e =>
    rw [exec] at h
    split at h
    · cases h
      -- The operation is cancelled and does not take place.
      obtain ⟨hlock, hregistry, htrace, hcallers, hlocks⟩ :=
        deliverCancel_frame (t := t) (w := w) (e := e)
      refine ⟨fun he => ⟨hlock, hlocks he⟩, fun _ => hregistry, ?_, hcallers⟩
      rw [htrace]
      cases e <;> rfl
    · cases e with
      | start =>
        cases h
        exact ⟨fun _ => ⟨rfl, rfl⟩, fun _ => rfl, rfl, rfl⟩
      | lockWait l =>
        rw [execOperation] at h
        split at h
        · cases h
        · obtain ⟨m, -, heq⟩ := Option.map_eq_some_iff.mp h
          cases heq
          exact ⟨nofun, fun _ => rfl, rfl, rfl⟩
      | readVault =>
        rw [execOperation.eq_def] at h
        dsimp only at h
        split at h
        · split at h <;> cases h <;> exact ⟨fun _ => ⟨rfl, rfl⟩, fun _ => rfl, rfl, rfl⟩
        · cases h
      | createPool dsn =>
        rw [execOperation.eq_def] at h
        dsimp only at h
        split at h
        · cases h
          exact ⟨fun _ => ⟨rfl, rfl⟩, fun _ => rfl, rfl, rfl⟩
        · split at h <;> cases h
          exact ⟨fun _ => ⟨rfl, rfl⟩, fun _ => rfl, rfl, rfl⟩
        · cases h

end

/-! ## The lock -/

/-- A call that holds the lock has one. -/
theorem InitStage.lock_of_holds {g : InitStage} (h : g.holds = true) : ∃ l, g.lock = some l := by
  cases g <;> first | exact ⟨_, rfl⟩ | cases h

/-- A call that waits for the lock has one. -/
theorem InitStage.lock_of_waits {g : InitStage} (h : g.waits = true) : ∃ l, g.lock = some l := by
  cases g <;> first | exact ⟨_, rfl⟩ | cases h

/-- The calls agree about the lock, and the lock with them. -/
structure Locked (G : Caller → InitStage) (w : InitWorld) : Prop where
  uses : ∀ t l, (G t).lock = some l → w.initLock = some l
  lock : ∀ l, w.initLock = some l → ∃ m, w.locks[l]? = some m ∧
    m.Describes (fun t => (G t).holds = true) (fun t => (G t).waits = true)
  lockless : ∀ t, G t = .lockless → w.initLock = none

namespace Locked

variable {G : Caller → InitStage} {w w' : InitWorld} {t : Caller} {g' : InitStage}

/-- At most one call holds the lock. -/
theorem unique (h : Locked G w) {t u : Caller} (ht : (G t).holds = true) (hu : (G u).holds = true) :
    t = u := by
  obtain ⟨l, hl⟩ := InitStage.lock_of_holds ht
  obtain ⟨m, -, hm⟩ := h.lock l (h.uses t l hl)
  exact hm.unique ht hu

/-- Only the lock matters. -/
theorem congr (h : Locked G w) (hlock : w'.initLock = w.initLock) (hlocks : w'.locks = w.locks) :
    Locked G w' :=
  ⟨fun t l ht => hlock ▸ h.uses t l ht, fun l hl => hlocks ▸ h.lock l (hlock ▸ hl),
    fun t ht => hlock ▸ h.lockless t ht⟩

/-- A call moves on without touching the lock. -/
theorem keep (h : Locked G w) (hothers : ∀ u, u ≠ t → G u ≠ .lockless)
    (hlock : w'.initLock = w.initLock) (hlocks : w'.locks = w.locks)
    (huses : ∀ l, g'.lock = some l → w.initLock = some l) (hholds : g'.holds = (G t).holds)
    (hwaits : g'.waits = (G t).waits) (hnone : g' = .lockless → w.initLock = none) :
    Locked (Function.update G t g') w' := by
  -- One part for each field; in each of them, either the call itself or another one.
  refine ⟨fun u l hu => ?_, fun l hl => ?_, fun u hu => ?_⟩
  · rw [hlock]
    by_cases hut : u = t
    · subst hut
      rw [Function.update_self] at hu
      exact huses l hu
    · rw [Function.update_of_ne hut] at hu
      exact h.uses u l hu
  · obtain ⟨m, hm, hdescribes⟩ := h.lock l (hlock ▸ hl)
    refine ⟨m, hlocks ▸ hm, hdescribes.congr (fun u => ?_) fun u => ?_⟩ <;>
    · by_cases hut : u = t
      · subst hut
        rw [Function.update_self]
        first | rw [hholds] | rw [hwaits]
      · rw [Function.update_of_ne hut]
  · by_cases hut : u = t
    · subst hut
      rw [Function.update_self] at hu
      exact hlock ▸ hnone hu
    · rw [Function.update_of_ne hut] at hu
      exact absurd hu (hothers u hut)

/-- A call changes the lock. -/
theorem change (h : Locked G w) (hothers : ∀ u, u ≠ t → G u ≠ .lockless) {l : LockRef}
    {m m' : Mutex Caller} (hl : w.initLock = some l) (hm : w.locks[l]? = some m)
    (huses : ∀ l', g'.lock = some l' → l' = l) (hnone : g' ≠ .lockless)
    (hdescribes : m.Describes (fun u => (G u).holds = true) (fun u => (G u).waits = true) →
      m'.Describes (fun u => (Function.update G t g' u).holds = true)
        fun u => (Function.update G t g' u).waits = true) :
    Locked (Function.update G t g') (w.setLock l m') := by
  refine ⟨fun u l' hu => ?_, fun l' hl' => ?_, fun u hu => ?_⟩
  · by_cases hut : u = t
    · subst hut
      rw [Function.update_self] at hu
      rw [huses l' hu]
      exact hl
    · rw [Function.update_of_ne hut] at hu
      exact h.uses u l' hu
  -- There is one lock, and `m'` describes who holds it and who waits.
  · obtain rfl : l = l' := Option.some.inj (hl.symm.trans hl')
    obtain ⟨m₁, hm₁, hold⟩ := h.lock l hl
    obtain rfl : m = m₁ := Option.some.inj (hm.symm.trans hm₁)
    refine ⟨m', ?_, hdescribes hold⟩
    obtain ⟨hlt, -⟩ := List.getElem?_eq_some_iff.mp hm
    exact List.getElem?_set_self hlt
  · by_cases hut : u = t
    · subst hut
      rw [Function.update_self] at hu
      exact absurd hu hnone
    · rw [Function.update_of_ne hut] at hu
      exact absurd hu (hothers u hut)

/-- What a call does keeps the lock in order. -/
theorem effect (h : Locked G w) (hothers : ∀ u, u ≠ t → (G u).atomic = false) {a : InitAnswer}
    {e : InitEff} {r : e.Ret} (hexec : exec t a e w = some (r, w'))
    (hmove : Moves env (G t) e r g') :
    Locked (Function.update G t g') w' := by
  have hlockless : ∀ u, u ≠ t → G u ≠ .lockless := fun u hu hG => by
    have := hothers u hu
    rw [hG] at this
    cases this
  have hframe := (exec_frame hexec).1
  -- moves that have nothing to do with the lock
  have hkeep : locks e = false → (∀ l, g'.lock = some l → w.initLock = some l) →
      g'.holds = (G t).holds → g'.waits = (G t).waits → g' ≠ .lockless →
      Locked (Function.update G t g') w' := fun he huses hholds hwaits hnone =>
    h.keep hlockless (hframe he).1 (hframe he).2 huses hholds hwaits fun heq => absurd heq hnone
  -- moves of a call that holds the lock, and goes on to hold it
  have hinside : locks e = false → (G t).holds = true → g'.lock = (G t).lock → g'.holds = true →
      g'.waits = (G t).waits → g' ≠ .lockless → Locked (Function.update G t g') w' :=
    fun he hold hlock hholds hwaits hnone =>
      hkeep he (fun l hl => h.uses t l (hlock ▸ hl)) (hholds.trans hold.symm) hwaits hnone
  have hself : ∀ u, u ≠ t → ((Function.update G t g' u).holds = true ↔ (G u).holds = true) ∧
      ((Function.update G t g' u).waits = true ↔ (G u).waits = true) := fun u hu => by
    rw [Function.update_of_ne hu]
    exact ⟨Iff.rfl, Iff.rfl⟩
  have hat : Function.update G t g' t = g' := Function.update_self ..
  have hnow : g'.holds = true → (Function.update G t g' t).holds = true := fun hb => by rwa [hat]
  have hnow' : g'.waits = true → (Function.update G t g' t).waits = true := fun hb => by rwa [hat]
  have hnot : g'.holds = false → ¬ (Function.update G t g' t).holds = true := fun hb heq => by
    rw [hat, hb] at heq
    cases heq
  have hnot' : g'.waits = false → ¬ (Function.update G t g' t).waits = true := fun hb heq => by
    rw [hat, hb] at heq
    cases heq
  generalize hg : G t = g at hmove
  have hholds : g.holds = (G t).holds := (congrArg InitStage.holds hg).symm
  have hwaits : g.waits = (G t).waits := (congrArg InitStage.waits hg).symm
  have huses : ∀ l, g.lock = some l → w.initLock = some l := fun l hl =>
    h.uses t l ((congrArg InitStage.lock hg).trans hl)
  have hold : ∀ {b}, g.holds = b → ¬ b = true → ¬ (G t).holds = true := fun hb hne heq =>
    hne (hb.symm.trans (hholds.trans heq))
  have hold' : ∀ {b}, g.waits = b → ¬ b = true → ¬ (G t).waits = true := fun hb hne heq =>
    hne (hb.symm.trans (hwaits.trans heq))
  cases hmove with
  | start | unstarted | found | missing | report => exact hkeep rfl nofun hholds hwaits nofun
  | lock =>
    obtain ⟨hr, rfl⟩ := Prod.mk.inj (Option.some.inj hexec)
    refine hkeep rfl (fun l hl => ?_) hholds hwaits nofun
    cases hl
    exact hr
  | noLock =>
    obtain ⟨hr, rfl⟩ := Prod.mk.inj (Option.some.inj hexec)
    exact h.keep hlockless rfl rfl nofun hholds hwaits fun _ => hr
  | newLock =>
    -- there was no lock, so nobody knows of one
    have hnone := h.lockless t hg
    have hnobody : ∀ u, (G u).lock = none := fun u => by
      rcases hu : (G u).lock with _ | l
      · rfl
      · rw [h.uses u l hu] at hnone
        cases hnone
    cases hexec
    refine ⟨fun u l hu => ?_, fun l hl => ⟨.free, ?_, Mutex.describes_free (fun u hu => ?_)
      fun u hu => ?_⟩, fun u hu => ?_⟩
    · by_cases hut : u = t
      · subst hut
        rw [hat] at hu
        exact hu
      · rw [Function.update_of_ne hut, hnobody u] at hu
        cases hu
    · cases hl
      exact List.getElem?_concat_length
    · by_cases hut : u = t
      · subst hut
        rw [hat] at hu
        cases hu
      · rw [Function.update_of_ne hut] at hu
        obtain ⟨l, hl⟩ := InitStage.lock_of_holds hu
        rw [hnobody u] at hl
        cases hl
    · by_cases hut : u = t
      · subst hut
        rw [hat] at hu
        cases hu
      · rw [Function.update_of_ne hut] at hu
        obtain ⟨l, hl⟩ := InitStage.lock_of_waits hu
        rw [hnobody u] at hl
        cases hl
    · by_cases hut : u = t
      · subst hut
        rw [hat] at hu
        cases hu
      · rw [Function.update_of_ne hut] at hu
        exact absurd hu (hlockless u hut)
  | @take l | @queue l =>
    obtain ⟨m, hm, -⟩ := h.lock l (huses l rfl)
    rw [exec, execSync, hm] at hexec
    dsimp only at hexec
    obtain ⟨hr, rfl⟩ := Prod.mk.inj (Option.some.inj hexec)
    refine h.change hlockless (huses l rfl) hm (fun l' hl' => (Option.some.inj hl').symm) nofun
      fun hd => ?_
    first
    | exact hd.acquired (fun u hu => (hself u hu).1) (fun u hu => (hself u hu).2)
        (Prod.ext hr rfl) (hold' rfl nofun) (hnow rfl) (hnot' rfl)
    | exact hd.queued (fun u hu => (hself u hu).1) (fun u hu => (hself u hu).2)
        (Prod.ext hr rfl) (hold rfl nofun) (hold' rfl nofun) (hnot rfl) (hnow' rfl)
  | @enter l =>
    obtain ⟨m, hm, -⟩ := h.lock l (huses l rfl)
    rw [exec] at hexec
    split at hexec
    · cases hexec
    · rw [execOperation, hm] at hexec
      obtain ⟨m', henter, heq⟩ := Option.map_eq_some_iff.mp hexec
      cases heq
      exact h.change hlockless (huses l rfl) hm (fun l' hl' => (Option.some.inj hl').symm) nofun
        fun hd => hd.entered (fun u hu => (hself u hu).1) (fun u hu => (hself u hu).2) henter
          (hnow rfl) (hnot' rfl)
  | @giveUp l x =>
    obtain ⟨m, hm, -⟩ := h.lock l (huses l rfl)
    rw [exec] at hexec
    split at hexec
    · cases hexec
      rw [deliverCancel]
      dsimp only
      rw [hm]
      have hleft : Locked (Function.update G t (.done none)) (w.setLock l (m.leave t)) :=
        h.change hlockless (huses l rfl) hm nofun nofun fun hd =>
          hd.left (fun u hu => (hself u hu).1) (fun u hu => (hself u hu).2) (hold rfl nofun)
            (hnot rfl) (hnot' rfl)
      exact hleft.congr rfl rfl
    · rw [execOperation, hm] at hexec
      obtain ⟨m', -, heq⟩ := Option.map_eq_some_iff.mp hexec
      cases heq
  | @leave l res =>
    obtain ⟨m, hm, -⟩ := h.lock l (huses l rfl)
    rw [exec, execSync, hm] at hexec
    cases hexec
    exact h.change hlockless (huses l rfl) hm nofun nofun fun hd =>
      hd.released (fun u hu => (hself u hu).1) (fun u hu => (hself u hu).2)
        hholds.symm (hold' rfl nofun) (hnot rfl) (hnot' rfl)
  | _ => exact hinside rfl hholds.symm (congrArg InitStage.lock hg).symm rfl hwaits nofun

end Locked

/-! ## The client -/

/-- How often `_build_pool` has completed. -/
def builds (trace : List (Caller × InitMark)) : Nat :=
  trace.countP fun o =>
    match o.2 with
    | .built _ => true
    | _ => false

/-- The client is created once. -/
structure Single (G : Caller → InitStage) (w : InitWorld) : Prop where
  unset : ∀ t, (G t).creates = true → w.registry = none
  /-- Until the client is published, only the call that is about to do so has built a pool. -/
  fresh : w.registry = none → builds w.trace = 0 ∨ ∃ t, (G t).publishes = true
  once : builds w.trace ≤ 1
  gives : ∀ t c, (G t).gives = some c → w.registry = some c
  returned : ∀ t c, (t, .returned (.ok c)) ∈ w.trace → w.registry = some c

/-- A call that is about to create the client holds the lock. -/
theorem InitStage.holds_of_creates {g : InitStage} (h : g.creates = true) : g.holds = true := by
  cases g <;> first | rfl | cases h

/-- A call that is about to publish the client holds the lock. -/
theorem InitStage.holds_of_publishes {g : InitStage} (h : g.publishes = true) : g.holds = true := by
  cases g <;> first | rfl | cases h

namespace Single

variable {G : Caller → InitStage} {w w' : InitWorld} {t : Caller} {g' : InitStage}

/-- A call moves on, and neither builds a pool, nor publishes the client, nor returns. -/
theorem keep (h : Single G w) (hregistry : w'.registry = w.registry)
    (hbuilds : builds w'.trace = builds w.trace)
    (hreturned : ∀ u c, (u, .returned (.ok c)) ∈ w'.trace → w.registry = some c)
    (hunset : g'.creates = true → w.registry = none)
    (hpublishes : (G t).publishes = true → g'.publishes = true)
    (hgives : ∀ c, g'.gives = some c → w.registry = some c) :
    Single (Function.update G t g') w' := by
  -- One part for each field; in each of them, either the call itself or another one.
  refine ⟨fun u hu => ?_, fun hnone => ?_, hbuilds ▸ h.once, fun u c hu => ?_, fun u c hu => ?_⟩
  · rw [hregistry]
    by_cases hut : u = t
    · subst hut
      rw [Function.update_self] at hu
      exact hunset hu
    · rw [Function.update_of_ne hut] at hu
      exact h.unset u hu
  · rw [hbuilds]
    refine (h.fresh (hregistry ▸ hnone)).imp_right fun ⟨u, hu⟩ => ⟨u, ?_⟩
    by_cases hut : u = t
    · subst hut
      rw [Function.update_self]
      exact hpublishes hu
    · rwa [Function.update_of_ne hut]
  · rw [hregistry]
    by_cases hut : u = t
    · subst hut
      rw [Function.update_self] at hu
      exact hgives c hu
    · rw [Function.update_of_ne hut] at hu
      exact h.gives u c hu
  · exact hregistry ▸ hreturned u c hu

/-- What a call does keeps the client single. -/
theorem effect (h : Single G w) (hlocked : Locked G w) {a : InitAnswer} {e : InitEff} {r : e.Ret}
    (hexec : exec t a e w = some (r, w')) (hmove : Moves env (G t) e r g') :
    Single (Function.update G t g') w' := by
  obtain ⟨-, hregistry, htrace, -⟩ := exec_frame hexec
  generalize hg : G t = g at hmove
  have hunset : g.creates = true → w.registry = none := fun hc =>
    h.unset t ((congrArg InitStage.creates hg).trans hc)
  have hpublishes : ∀ {b}, g.publishes = b → ¬ b = true → ¬ (G t).publishes = true :=
    fun hb hne heq => hne (hb.symm.trans ((congrArg InitStage.publishes hg).symm.trans heq))
  -- moves that leave no mark
  have hkeep : (∀ c, e ≠ .sync (.registrySet c)) → marks t e r = [] →
      (g'.creates = true → w.registry = none) →
      ((G t).publishes = true → g'.publishes = true) →
      (∀ c, g'.gives = some c → w.registry = some c) → Single (Function.update G t g') w' := by
    intro hset hmarks hcreates hpub hgives
    have hsame : w'.trace = w.trace := by rw [htrace, hmarks, List.nil_append]
    exact h.keep (hregistry hset) (by rw [hsame]) (fun u c hu => h.returned u c (hsame ▸ hu))
      hcreates hpub hgives
  cases hmove with
  | @found c =>
    obtain ⟨hr, -⟩ := Prod.mk.inj (Option.some.inj hexec)
    refine hkeep nofun rfl nofun (fun hp => absurd hp (hpublishes rfl nofun)) fun c' hc' => ?_
    cases hc'
    exact hr
  | @lost l c =>
    obtain ⟨hr, -⟩ := Prod.mk.inj (Option.some.inj hexec)
    refine hkeep nofun rfl nofun (fun hp => absurd hp (hpublishes rfl nofun)) fun c' hc' => ?_
    cases hc'
    exact hr
  | first =>
    obtain ⟨hr, -⟩ := Prod.mk.inj (Option.some.inj hexec)
    exact hkeep nofun rfl (fun _ => hr) (fun hp => absurd hp (hpublishes rfl nofun)) nofun
  | read =>
    refine h.keep (hregistry nofun) (by rw [htrace]; rfl) (fun u c hu => ?_) (fun _ => hunset rfl)
      (fun hp => absurd hp (hpublishes rfl nofun)) nofun
    rw [htrace] at hu
    rcases List.mem_cons.mp hu with heq | hu
    · cases heq
    · exact h.returned u c hu
  | installed | missingDep | connect | refused =>
    exact hkeep nofun rfl (fun _ => hunset rfl) (fun hp => absurd hp (hpublishes rfl nofun)) nofun
  | @built l pool =>
    -- nobody else holds the lock, so nothing was built before
    have hnone : builds w.trace = 0 := by
      refine (h.fresh (hunset rfl)).resolve_right fun ⟨u, hu⟩ => ?_
      have hut : u = t := hlocked.unique (InitStage.holds_of_publishes hu)
        ((congrArg InitStage.holds hg).trans rfl)
      exact absurd (hut ▸ hu) (hpublishes rfl nofun)
    have hbuilds : builds w'.trace = 1 := by
      have hcons : builds w'.trace = builds w.trace + 1 := by
        rw [htrace]
        exact List.countP_cons_of_pos rfl
      rw [hcons, hnone]
    refine ⟨fun u hu => ?_, fun _ => .inr ⟨t, ?_⟩, hbuilds.le, fun u c hu => ?_, fun u c hu => ?_⟩
    · exact (hregistry nofun).trans (hunset rfl)
    · rw [Function.update_self]
      rfl
    · rw [hregistry nofun]
      by_cases hut : u = t
      · subst hut
        rw [Function.update_self] at hu
        cases hu
      · rw [Function.update_of_ne hut] at hu
        exact h.gives u c hu
    · rw [hregistry nofun]
      rw [htrace] at hu
      rcases List.mem_cons.mp hu with heq | hu
      · cases heq
      · exact h.returned u c hu
  | disabled | make => exact hkeep nofun rfl (fun _ => hunset rfl) (fun _ => rfl) nofun
  | @publish l c =>
    have hnone := hunset rfl
    cases hexec
    refine ⟨fun u hu => ?_, nofun, h.once, fun u c' hu => ?_, fun u c' hu => ?_⟩
    · -- the others do not hold the lock
      exfalso
      by_cases hut : u = t
      · subst hut
        rw [Function.update_self] at hu
        cases hu
      · rw [Function.update_of_ne hut] at hu
        exact hut (hlocked.unique (InitStage.holds_of_creates hu)
          ((congrArg InitStage.holds hg).trans rfl))
    · by_cases hut : u = t
      · subst hut
        rw [Function.update_self] at hu
        exact hu
      · rw [Function.update_of_ne hut] at hu
        rw [h.gives u c' hu] at hnone
        cases hnone
    · rw [h.returned u c' hu] at hnone
      cases hnone
  | leave =>
    exact hkeep nofun rfl nofun (fun hp => absurd hp (hpublishes rfl nofun)) fun c hc =>
      h.gives t c ((congrArg InitStage.gives hg).trans hc)
  | @report res out hres =>
    refine h.keep (hregistry nofun) (by rw [htrace]; rfl) (fun u c hu => ?_) nofun
      (fun hp => absurd hp (hpublishes rfl nofun)) nofun
    rw [htrace] at hu
    rcases List.mem_cons.mp hu with heq | hu
    · cases heq
      exact h.gives t c ((congrArg InitStage.gives hg).trans hres.symm)
    · exact h.returned u c hu
  | _ => exact hkeep nofun rfl nofun (fun hp => absurd hp (hpublishes rfl nofun)) nofun

end Single

/-! ## What Vault has answered -/

/-- What Vault has answered to the call, if it was read. -/
def readOf (trace : List (Caller × InitMark)) (t : Caller) : Option (Option Str) :=
  trace.findSome? fun o =>
    match o with
    | (u, .read dsn) => if u = t then some dsn else none
    | _ => none

/-- The calls remember what Vault has answered; a call that is to come has not read it. -/
structure Recorded (G : Caller → InitStage) (w : InitWorld) : Prop where
  called : ∀ t, G t ≠ .idle → t < w.callers
  traced : ∀ o ∈ w.trace, o.1 < w.callers
  answer : ∀ t read, (G t).answer = some read → readOf w.trace t = read

/-- A step adds marks of its own call only. -/
theorem marks_self {t : Caller} {e : InitEff} {r : e.Ret} : ∀ o ∈ marks t e r, o.1 = t := by
  intro o ho
  rw [marks.eq_def] at ho
  split at ho
  · exact (List.mem_singleton.mp ho) ▸ rfl
  · exact (List.mem_singleton.mp ho) ▸ rfl
  · cases ho

/-- Marks of other calls do not change what a call has read. -/
theorem readOf_append_of_ne {marks trace : List (Caller × InitMark)} {u : Caller}
    (h : ∀ o ∈ marks, o.1 ≠ u) : readOf (marks ++ trace) u = readOf trace u := by
  rw [readOf, List.findSome?_append]
  have hnone : marks.findSome? (fun o =>
      match o with
      | (u', .read dsn) => if u' = u then some dsn else none
      | _ => none) = none := by
    refine List.findSome?_eq_none_iff.mpr fun o ho => ?_
    split
    · exact if_neg (h _ ho)
    · rfl
  rw [hnone]
  rfl

namespace Recorded

variable {G : Caller → InitStage} {w w' : InitWorld} {t : Caller} {g' : InitStage}

/-- What a call does is recorded. -/
theorem effect (h : Recorded G w) {a : InitAnswer} {e : InitEff} {r : e.Ret}
    (hexec : exec t a e w = some (r, w')) (hmove : Moves env (G t) e r g') :
    Recorded (Function.update G t g') w' := by
  obtain ⟨-, -, htrace, hcallers⟩ := exec_frame hexec
  -- A call that moves has been made.
  have hcalled : t < w.callers := h.called t fun hidle => by
    rw [hidle] at hmove
    cases hmove
  refine ⟨fun u hu => ?_, fun o ho => ?_, fun u read hu => ?_⟩
  · rw [hcallers]
    by_cases hut : u = t
    · exact hut ▸ hcalled
    · rw [Function.update_of_ne hut] at hu
      exact h.called u hu
  · rw [hcallers]
    rw [htrace] at ho
    rcases List.mem_append.mp ho with ho | ho
    · exact marks_self o ho ▸ hcalled
    · exact h.traced o ho
  · by_cases hut : u = t
    · subst hut
      rw [Function.update_self] at hu
      rw [htrace]
      generalize hg : G u = g at hmove
      -- What a call remembers was read before, unless it reads now.
      have hold : ∀ {read}, g.answer = some read → readOf w.trace u = read := fun hread =>
        h.answer u _ ((congrArg InitStage.answer hg).trans hread)
      cases hmove with
      | read =>
        cases hu
        simp [readOf, marks]
      | _ => first | exact hold hu | cases hu
    · rw [Function.update_of_ne hut] at hu
      rw [htrace, readOf_append_of_ne fun o ho => (marks_self o ho).trans_ne (Ne.symm hut)]
      exact h.answer u read hu

end Recorded

/-! ## The invariant -/

/-- Calls are monitored from their beginning. -/
noncomputable def initSupervision (env : Environ) :
    Supervision (initialiser env) (initMonitor env) where
  enter _ _ := .begun
  good _ := True
  exec _ _ _ := trivial
  env _ _ := trivial
  start := by
    intro w w' t fiber a _ hstart
    cases hstart
    exact ⟨rfl, caller_conforms, trivial⟩
  crash _ _ := trivial

/-- A task begins or ends. -/
theorem Locked.enter {G : Caller → InitStage} {w w' : InitWorld} {t : Caller} {g' : InitStage}
    (h : Locked G w) (hlock : w'.initLock = w.initLock) (hlocks : w'.locks = w.locks)
    (hold : (G t).holds = false) (hold' : (G t).waits = false) (hg : g'.lock = none)
    (hnone : g' ≠ .lockless) : Locked (Function.update G t g') w' := by
  -- A call that has no lock yet neither holds it nor waits for it.
  have hholds : g'.holds = false := by
    rw [Bool.eq_false_iff]
    intro hh
    obtain ⟨l, hl⟩ := InitStage.lock_of_holds hh
    rw [hg] at hl
    cases hl
  have hwaits : g'.waits = false := by
    rw [Bool.eq_false_iff]
    intro hh
    obtain ⟨l, hl⟩ := InitStage.lock_of_waits hh
    rw [hg] at hl
    cases hl
  refine ⟨fun u l hu => ?_, fun l hl => ?_, fun u hu => ?_⟩
  · rw [hlock]
    by_cases hut : u = t
    · rw [hut, Function.update_self, hg] at hu
      cases hu
    · rw [Function.update_of_ne hut] at hu
      exact h.uses u l hu
  · obtain ⟨m, hm, hd⟩ := h.lock l (hlock ▸ hl)
    refine ⟨m, hlocks ▸ hm, hd.congr (fun u => ?_) fun u => ?_⟩ <;>
    · by_cases hut : u = t
      · subst hut
        rw [Function.update_self]
        first | rw [hholds, hold] | rw [hwaits, hold']
      · rw [Function.update_of_ne hut]
  · rw [hlock]
    by_cases hut : u = t
    · rw [hut, Function.update_self] at hu
      exact absurd hu hnone
    · rw [Function.update_of_ne hut] at hu
      exact h.lockless u hu

/-- The invariant of the calls. -/
structure InitInvariant (G : Caller → InitStage) (w : InitWorld) : Prop where
  locked : Locked G w
  single : Single G w
  recorded : Recorded G w

/-- The calls keep the invariant, in every run. -/
noncomputable def initInvariant (env : Environ) :
    Invariant (initSupervision env) fun _ _ => True where
  inv := InitInvariant
  effect := by
    intro G w w' t e a r g' _ h hothers _ hexec hnext
    have hmove := next_iff.mp hnext
    exact ⟨h.locked.effect hothers hexec hmove, h.single.effect h.locked hexec hmove,
      h.recorded.effect hexec hmove⟩
  finish := by
    intro G w t _ h hfinal
    have hended : G t = .ended := hfinal
    refine ⟨h.locked.enter rfl rfl (by rw [hended]; rfl) (by rw [hended]; rfl) rfl nofun,
      h.single.keep rfl rfl h.single.returned nofun (by rw [hended]; nofun) nofun,
      fun u hu => h.recorded.called u fun hidle => hu ?_, h.recorded.traced, fun u read hu => ?_⟩
    · by_cases hut : u = t
      · rw [hut]
        exact Function.update_self ..
      · rw [Function.update_of_ne hut]
        exact hidle
    · by_cases hut : u = t
      · rw [hut, Function.update_self] at hu
        cases hu
      · rw [Function.update_of_ne hut] at hu
        exact h.recorded.answer u read hu
  env := by
    intro G w w' a _ h _ henv
    cases a with
    | cancel t =>
      have henv : (if t < w.callers then some { w with cancelled := t :: w.cancelled } else none) =
        some w' := henv
      split at henv <;> cases henv
      exact ⟨h.locked.congr rfl rfl, ⟨h.single.unset, h.single.fresh, h.single.once, h.single.gives,
        h.single.returned⟩, ⟨h.recorded.called, h.recorded.traced, h.recorded.answer⟩⟩
    | _ => cases henv
  start := by
    intro G w w' t fiber a _ h _ hstart hidle
    cases hstart
    have hidle : G w.callers = .idle := hidle
    refine ⟨h.locked.enter rfl rfl (by rw [hidle]; rfl) (by rw [hidle]; rfl) rfl nofun,
      h.single.keep rfl rfl h.single.returned nofun (by rw [hidle]; nofun) nofun,
      fun u hu => ?_, fun o ho => (h.recorded.traced o ho).trans (Nat.lt_succ_self _),
      fun u read hu => ?_⟩
    · by_cases hut : u = w.callers
      · exact hut ▸ Nat.lt_succ_self _
      · have hne : G u ≠ .idle := by rwa [Function.update_of_ne hut] at hu
        exact (h.recorded.called u hne).trans (Nat.lt_succ_self _)
    · by_cases hut : u = w.callers
      · -- a call that begins has not left a mark
        subst hut
        rw [Function.update_self] at hu
        cases hu
        have hnone : readOf (w.trace ++ []) w.callers = readOf [] w.callers :=
          readOf_append_of_ne fun o ho => (h.recorded.traced o ho).ne
        rwa [List.append_nil] at hnone
      · rw [Function.update_of_ne hut] at hu
        exact h.recorded.answer u read hu
  crash := by
    intro G w w' a _ _ _ hcrash
    cases hcrash

/-- The configurations that runs reach from the import of the module. -/
abbrev InitReaches (env : Environ) (c : Machine.Config Caller InitEff InitEff.Ret InitWorld) :
    Prop :=
  (initialiser env).Reachable (fun _ _ => True) (.ofWorld InitWorld.initial) c

/-- In every configuration that runs reach, the calls are where the monitor tracks them, and
`InitInvariant` holds. -/
theorem init_tracked {c : Machine.Config Caller InitEff InitEff.Ret InitWorld}
    (h : InitReaches env c) :
    ∃ G, Tracked (initialiser env) (initMonitor env) c G ∧ InitInvariant G c.world := by
  have hinit : InitInvariant (fun _ => .idle) InitWorld.initial :=
    ⟨⟨nofun, nofun, nofun⟩, ⟨nofun, fun _ => .inl rfl, Nat.zero_le _, nofun, nofun⟩,
      ⟨fun _ h => absurd rfl h, nofun, nofun⟩⟩
  obtain ⟨G, htracked, -, hinv⟩ := (initInvariant env).tracked h trivial hinit (.ofWorld _)
  exact ⟨G, htracked, hinv⟩

/-! ## Every call comes to its end -/

section

variable {c : Machine.Config Caller InitEff InitEff.Ret InitWorld} {G : Caller → InitStage}
  {t : Caller} {e : InitEff}

/-- An effect that a call is about to perform is possible, unless it waits for the lock. -/
theorem exec_possible (htracked : Tracked (initialiser env) (initMonitor env) c G)
    (hinv : InitInvariant G c.world) (habout : c.About t e)
    (hwait : ∀ l, e = .await (.lockWait l) → t ∈ c.world.cancelled) :
    ∃ a r w, exec t a e c.world = some (r, w) := by
  have hmove : ∀ r, ∃ g', Moves env (G t) e r g' := fun r =>
    (htracked.accepts habout r).imp fun _ => next_iff.mp
  -- a lock that the call knows exists
  have hlock : ∀ l, (G t).lock = some l → ∃ m, c.world.locks[l]? = some m := fun l hl =>
    (hinv.locked.lock l (hinv.locked.uses t l hl)).imp fun _ h => h.1
  cases e with
  | sync e =>
    cases e with
    | lockTry l =>
      obtain ⟨g', hmove⟩ := hmove true
      obtain ⟨m, hm⟩ := hlock l (by generalize G t = g at hmove; cases hmove; rfl)
      exact ⟨.done, _, _, by rw [exec, execSync, hm]⟩
    | lockRelease l =>
      obtain ⟨g', hmove⟩ := hmove ()
      obtain ⟨m, hm⟩ := hlock l (by generalize G t = g at hmove; cases hmove; rfl)
      exact ⟨.done, _, _, by rw [exec, execSync, hm]⟩
    | importAsyncpg => exact ⟨.asyncpg true, _, _, rfl⟩
    | _ => exact ⟨.done, _, _, rfl⟩
  | await e =>
    by_cases hcancel : t ∈ c.world.cancelled
    · exact ⟨.done, _, _, by rw [exec, if_pos hcancel]⟩
    · cases e with
      | start => exact ⟨.done, _, _, by rw [exec, if_neg hcancel, execOperation]⟩
      | lockWait l => exact absurd (hwait l rfl) hcancel
      | readVault =>
        exact ⟨.vault ⟨false, .ok (), .ok none, .ok ()⟩, _, _, by rw [exec, if_neg hcancel]; rfl⟩
      | createPool dsn => exact ⟨.done, _, _, by rw [exec, if_neg hcancel, execOperation]⟩

/-- As long as a call has not come to its end, some call can go on. -/
theorem init_progress (h : InitReaches env c) {fiber : Fiber InitEff InitEff.Ret}
    (htask : c.tasks t = some fiber) :
    ∃ u a c', (initialiser env).step c (.task u a) = some c' := by
  obtain ⟨G, htracked, hinv⟩ := init_tracked h
  -- A call that is free to go on, and does not wait in the queue, can make a step.
  have hgo : ∀ u fiber, c.tasks u = some fiber → c.Free u →
      (∀ l, c.About u (.await (.lockWait l)) → u ∈ c.world.cancelled) →
      ∃ u a c', (initialiser env).step c (.task u a) = some c' := by
    intro u fiber hu hfree hwait
    obtain ⟨a, c', hstep⟩ := Machine.exists_step (S := initialiser env) hfree hu (fun e habout =>
      exec_possible htracked hinv habout fun l hl => hwait l (hl ▸ habout)) .done
    exact ⟨u, a, c', hstep⟩
  rcases hrun : c.running with _ | u
  · -- nobody has the processor
    by_cases hwait : ∃ l, c.About t (.await (.lockWait l)) ∧ t ∉ c.world.cancelled
    · obtain ⟨l, habout, hcancel⟩ := hwait
      obtain ⟨g', haccept⟩ := htracked.accepts habout (.ok ())
      have hG : G t = .waiting l := by
        have hmove := next_iff.mp haccept
        generalize G t = g at hmove
        cases hmove
        rfl
      obtain ⟨m, hm, hd⟩ := hinv.locked.lock l (hinv.locked.uses t l (by rw [hG]; rfl))
      have halive : ∀ u, G u ≠ .idle → ∃ fiber, c.tasks u = some fiber := fun u hu => by
        rcases hnone : c.tasks u with _ | fiber
        · exact absurd (htracked.idle u hnone) hu
        · exact ⟨fiber, rfl⟩
      rcases howner : m.owner with _ | v
      · -- the first of the queue takes the lock
        have htw : t ∈ m.waiters := (hd.waiters t).mpr (by rw [hG]; rfl)
        obtain ⟨v, rest, hrest⟩ := List.exists_cons_of_ne_nil (List.ne_nil_of_mem htw)
        have hvw : (G v).waits = true := (hd.waiters v).mp (by rw [hrest]; exact List.mem_cons_self)
        obtain ⟨fiber', hv⟩ := halive v fun hidle => by rw [hidle] at hvw; cases hvw
        have hop : ∀ e, c.About v e →
            ∃ a r w, (initialiser env).exec v a e c.world = some (r, w) := by
          intro e habout'
          by_cases hturn : ∃ l', e = .await (.lockWait l') ∧ v ∉ c.world.cancelled
          · obtain ⟨l', rfl, hcancel'⟩ := hturn
            obtain ⟨g'', haccept'⟩ := htracked.accepts habout' (.ok ())
            have hl' : (G v).lock = some l' := by
              have hmove := next_iff.mp haccept'
              generalize G v = g at hmove
              cases hmove
              rfl
            obtain rfl : l = l' := Option.some.inj
              ((hinv.locked.uses t l (by rw [hG]; rfl)).symm.trans (hinv.locked.uses v l' hl'))
            have henter : m.enter v = some ⟨some v, rest⟩ := by
              rw [Mutex.enter, if_pos ⟨howner, by rw [hrest]; rfl⟩, hrest]
              rfl
            refine ⟨.done, .ok (), c.world.setLock l ⟨some v, rest⟩, ?_⟩
            change exec v .done (.await (.lockWait l)) c.world = _
            rw [exec, if_neg hcancel', execOperation, hm]
            exact congrArg (Option.map _) henter
          · exact exec_possible htracked hinv habout' fun l' hl' => by
              by_contra hcancel'
              exact hturn ⟨l', hl', hcancel'⟩
        obtain ⟨a, c', hstep⟩ := Machine.exists_step (S := initialiser env) (.inl hrun) hv hop .done
        exact ⟨v, a, c', hstep⟩
      · -- the holder does not wait
        have hvh : (G v).holds = true := (hd.owner v).mp howner
        obtain ⟨fiber', hv⟩ := halive v fun hidle => by rw [hidle] at hvh; cases hvh
        refine hgo v fiber' hv (.inl hrun) fun l' habout' => ?_
        obtain ⟨g'', haccept'⟩ := htracked.accepts habout' (.ok ())
        have hmove := next_iff.mp haccept'
        generalize G v = g at hmove hvh
        cases hmove
        cases hvh
    · exact hgo t fiber htask (.inl hrun) fun l habout => by
        by_contra hcancel
        exact hwait ⟨l, habout, hcancel⟩
  · -- the task that has the processor is not at an effect that waits
    obtain ⟨fiber', hu, hholds⟩ := h.running hrun
    refine hgo u fiber' hu (.inr hrun) fun l habout => ?_
    obtain ⟨-, fiber'', k, hu', hop⟩ := habout
    obtain rfl : fiber' = fiber'' := Option.some.inj (hu.symm.trans hu')
    rw [Fiber.holdsProcessor, hop] at hholds
    cases hholds

/-! ### The number of steps -/

section

variable {α β : Type} {m n : Nat}

/-- The program performs at most `n` effects. -/
abbrev Brief (n : Nat) (p : Init α) : Prop := p.run.EndsWithin (fun _ => True) n

/-- Returning performs no effect. -/
theorem brief_pure (a : α) : Brief n (pure a : Init α) := by cases n <;> trivial

/-- Raising performs no effect. -/
theorem brief_throw (x : Exn) : Brief n (throw x : Init α) := by cases n <;> trivial

/-- A synchronous effect is one effect. -/
theorem brief_sync {e : InitSync} : Brief 1 (sync e) := fun _ => trivial

/-- An operation is one effect. -/
theorem brief_await {e : InitAwait} : Brief 1 (await e) := fun _ => trivial

/-- Two programs one after the other perform the sum of their effects. -/
theorem brief_bind {p : Init α} {f : α → Init β} (hp : Brief m p) (hf : ∀ a, Brief n (f a)) :
    Brief (m + n) (p >>= f) := by
  rw [Brief, ExceptT.run_bind]
  refine EndsWithin.bind hp fun res _ => ?_
  cases res with
  | ok a => exact hf a
  | error x => exact brief_throw (α := β) x

/-- Catching what a program raises performs no effect of its own. -/
theorem brief_attempt {p : Init α} (hp : Brief n p) : Brief n (Coro.attempt p) :=
  EndsWithin.bind (n := 0) hp fun _ _ => trivial

/-- `_build_pool` performs at most 3 effects. -/
theorem brief_buildPool {dsn : Str} : Brief 3 (buildPool dsn) := by
  have hcreate : Brief 1 (createPool dsn) := by
    refine brief_bind (m := 1) (n := 0) (brief_attempt brief_await) fun res => ?_
    cases res with
    | ok pool => exact brief_pure _
    | error x =>
      dsimp only
      split
      · exact brief_pure _
      · exact brief_throw _
  have htry : Brief 2 (tryPool dsn) := brief_bind (m := 1) (n := 1) brief_sync fun installed => by
    split
    · exact hcreate
    · exact brief_pure _
  exact brief_bind (m := 2) (n := 1) htry fun pool =>
    brief_bind (m := 1) (n := 0) brief_sync fun _ => brief_pure pool

/-- The body of the lock performs at most 7 effects. -/
theorem brief_initialise : Brief 7 (initialise env) := by
  have hread : Brief 1 (readVault env) := by
    rw [readVault]
    split
    · exact brief_await
    · exact brief_pure _
  have hpool : ∀ dsn, Brief 3 (poolFor dsn) := fun dsn => by
    rw [poolFor]
    split
    · exact brief_pure _
    · exact brief_buildPool
  refine brief_bind (m := 1) (n := 6) brief_sync fun found => ?_
  cases found with
  | none =>
    exact brief_bind (m := 1) (n := 5) hread fun read => brief_bind (m := 3) (n := 2) (hpool _)
      fun pool => brief_bind (m := 1) (n := 1) brief_sync fun c =>
        brief_bind (m := 1) (n := 0) brief_sync fun _ => brief_pure c
  | some client => exact brief_pure _

/-- With the lock around it, it is at most 10. -/
theorem brief_withLock {l : LockRef} : Brief 10 (withLock l (initialise env)) := by
  have hacquire : Brief 2 (acquire l) := brief_bind (m := 1) (n := 1) brief_sync fun got => by
    split
    · exact brief_pure _
    · exact brief_await
  refine brief_bind (m := 2) (n := 8) hacquire fun _ => ?_
  exact EndsWithin.bind (m := 7) (n := 1) brief_initialise fun _ _ _ => trivial

/-- A call of `get_registry` performs at most 13 effects. -/
theorem brief_getRegistry : Brief 13 (getRegistry env) := by
  have hlock : Brief 2 initLock := brief_bind (m := 1) (n := 1) brief_sync fun lock => by
    cases lock with
    | some l => exact brief_pure l
    | none => exact brief_sync
  refine brief_bind (m := 1) (n := 12) brief_sync fun found => ?_
  cases found with
  | none => exact brief_bind (m := 2) (n := 10) hlock fun l => brief_withLock
  | some client => exact brief_pure _

/-- A call performs at most 15 effects, and is over then. -/
theorem caller_endsWithin : (callerFiber env).prog.EndsWithin (· = none) 15 := by
  have hrun : Brief 14 (do await .start; getRegistry env : Init ClientRef) :=
    brief_bind (m := 1) (n := 13) brief_await fun _ => brief_getRegistry
  exact EndsWithin.bind (m := 15) (n := 0) (P := fun _ => True)
    (EndsWithin.bind (m := 14) (n := 1) hrun fun _ _ _ => trivial) fun _ _ => rfl

/-- Every call that is under way has a budget of 16 steps. -/
theorem init_budget {c : Machine.Config Caller InitEff InitEff.Ret InitWorld}
    (h : InitReaches env c) :
    Machine.Budget c (Finset.range c.world.callers) fun _ => 16 := by
  induction h with
  | refl => exact fun _ _ h => by cases h
  | @step c c' l _ _ hstep ih =>
    cases l with
    | task t a =>
      obtain ⟨f', hbudget, hle, -⟩ := ih.step hstep
      refine hbudget.mono ?_ hle
      -- only a call that begins changes the number of calls
      have hchange := Machine.change_of_step hstep
      generalize hevent : Machine.event c (.task t a) = event at hchange
      cases hchange with
      | effect habout hexec => rw [(exec_frame hexec).2.2.2]
      | turn heq => rw [heq]
      | _ =>
        rw [Machine.event] at hevent
        split at hevent <;> cases hevent
    | env a =>
      obtain ⟨w, henv, rfl⟩ := Option.map_eq_some_iff.mp hstep
      have hcallers : w.callers = c.world.callers := by
        cases a with
        | cancel t =>
          have henv : (if t < c.world.callers then some { c.world with
            cancelled := t :: c.world.cancelled } else none) = some w := henv
          split at henv <;> cases henv
          rfl
        | _ => cases henv
      intro t fiber htask
      obtain ⟨hlive, hends⟩ := ih t fiber htask
      exact ⟨hcallers ▸ hlive, hends⟩
    | start a =>
      have hstart : (initialiser env).start a c.world = some (c.world.callers, callerFiber env,
        { c.world with callers := c.world.callers + 1 }) := rfl
      rw [Machine.step, hstart] at hstep
      dsimp only at hstep
      split at hstep <;> cases hstep
      intro t fiber htask
      by_cases ht : t = c.world.callers
      · subst ht
        have htask :
            Function.update c.tasks c.world.callers (some (callerFiber env)) c.world.callers =
          some fiber := htask
        rw [Function.update_self] at htask
        cases htask
        exact ⟨Finset.mem_range.mpr (Nat.lt_succ_self _), 15, rfl, caller_endsWithin⟩
      · obtain ⟨hlive, hends⟩ := ih t fiber ((Function.update_of_ne ht _ _).symm.trans htask)
        exact ⟨Finset.mem_range.mpr ((Finset.mem_range.mp hlive).trans (Nat.lt_succ_self _)), hends⟩
    | crash a => cases hstep

end

end

/-! ## Single initialisation -/

/-- The calls come to their end: as long as one has not, some call can make a step, and together
they make at most 16 steps each, in any schedule in which no call begins. -/
structure Completes (env : Environ) (c : Machine.Config Caller InitEff InitEff.Ret InitWorld) :
    Prop where
  progress : ∀ t, (c.tasks t).isSome → ∃ u a c', (initialiser env).step c (.task u a) = some c'
  bounded : ∀ {labels : List (Label Caller InitAnswer)} {c'}, (∀ l ∈ labels, ∃ t a, l = .task t a) →
    (initialiser env).run (fun _ _ => True) c labels = some c' →
      labels.length ≤ 16 * c.world.callers

/-- Vault has given a DSN to the call. -/
def FromVault (env : Environ) (trace : List (Caller × InitMark)) (t : Caller) (dsn : Str) : Prop :=
  vaultConfigured env = true ∧ readOf trace t = some (some dsn) ∧ dsn ≠ []

/-- `get_registry` initialises the registry once: all calls that return give the same client,
`_build_pool` completes at most once, no call waits for ever, and the DSN of the pool is that of
Vault, if it is configured and has given one, and otherwise that of the environment. -/
theorem single_initialisation (env : Environ)
    {c : Machine.Config Caller InitEff InitEff.Ret InitWorld} (h : InitReaches env c) :
    (∀ {t t' client client'}, (t, .returned (.ok client)) ∈ c.world.trace →
      (t', .returned (.ok client')) ∈ c.world.trace → client = client') ∧
    builds c.world.trace ≤ 1 ∧
    Completes env c ∧
    ∀ {t dsn}, c.About t (.await (.createPool dsn)) →
      (FromVault env c.world.trace t dsn ∨
        (¬ ∃ dsn', FromVault env c.world.trace t dsn') ∧
          dsn = getenv env (lit "AGENT_REGISTRY_DSN")) := by
  obtain ⟨G, htracked, hinv⟩ := init_tracked h
  -- One client, one build, progress, a bound on the steps, and the DSN.
  refine ⟨fun ht ht' => ?_, hinv.single.once, ⟨fun t ht => ?_, fun hlabels hrun => ?_⟩,
    fun {t dsn} habout => ?_⟩
  · exact Option.some.inj ((hinv.single.returned _ _ ht).symm.trans (hinv.single.returned _ _ ht'))
  · obtain ⟨fiber, htask⟩ := Option.isSome_iff_exists.mp ht
    exact init_progress h htask
  · have hle := Machine.length_le_of_run (init_budget h) hlabels hrun
    rwa [Finset.sum_const_nat fun _ _ => rfl, Finset.card_range, Nat.mul_comm] at hle
  · obtain ⟨g', hnext⟩ := htracked.accepts habout (.error .cancelledError)
    have hmove := next_iff.mp hnext
    -- The call is about to connect, so its stage says what it has read and what it takes from that.
    have hanswer :
        ∃ read, readOf c.world.trace t = read ∧ Asked env read ∧ dsn = dsnAfter env read := by
      generalize hg : G t = g at hmove
      cases hmove with
      | refused hasked hdsn hne hx => cases hx
      | @interrupted l read _ _ hasked hdsn hne hx =>
        exact ⟨read, hinv.recorded.answer t read (by rw [hg]; rfl), hasked, hdsn⟩
    obtain ⟨read, hread, hasked, rfl⟩ := hanswer
    rw [Asked] at hasked
    rw [dsnAfter, resolve]
    -- Vault has no DSN, or an empty one: the variable is taken.
    by_cases hdsn : read.join.getD [] = []
    · rw [if_pos hdsn]
      refine .inr ⟨?_, rfl⟩
      rintro ⟨dsn', -, hread', hne⟩
      obtain rfl : read = some (some dsn') := hread.symm.trans hread'
      exact hne hdsn
    · rw [if_neg hdsn]
      rcases read with _ | _ | dsn'
      · exact absurd rfl hdsn
      · exact absurd rfl hdsn
      · exact .inl ⟨hasked.symm, hread, hdsn⟩

/-- All variables are set. -/
def allSet : Environ := fun _ => some (lit "set")

/-- The next steps of a call, with nothing to answer. -/
def go (t : Caller) (n : Nat) : List (Label Caller InitAnswer) := List.replicate n (.task t .done)

/-- Three calls: the first one is cancelled while it reads Vault, and the second one, which waited
for the lock, gets a DSN from Vault and is about to connect. -/
def handedOver : List (Label Caller InitAnswer) :=
  [.start .done, .start .done, .start .done] ++ go 0 6 ++ go 1 4 ++ go 2 4 ++
    [.env (.cancel 0)] ++ go 0 4 ++ go 1 2 ++
    [.task 1 (.vault ⟨true, .ok (), .ok (some (lit "dsn")), .error .clientError⟩),
      .task 1 (.asyncpg true)]

/-- The second call connects and returns, and so does the third one. -/
def bothReturn : List (Label Caller InitAnswer) := go 1 7 ++ go 2 5

/-- The call has returned that client. -/
def hasReturned (t : Caller) (client : ClientRef) (trace : List (Caller × InitMark)) : Bool :=
  trace.any fun o =>
    match o with
    | (u, .returned (.ok client')) => decide (u = t ∧ client' = client)
    | _ => false

/-- What `hasReturned` finds is in the trace. -/
theorem mem_of_hasReturned {t : Caller} {client : ClientRef} {trace : List (Caller × InitMark)}
    (h : hasReturned t client trace = true) : (t, .returned (.ok client)) ∈ trace := by
  obtain ⟨o, ho, hcheck⟩ := List.any_eq_true.mp h
  split at hcheck
  · obtain ⟨rfl, rfl⟩ := of_decide_eq_true hcheck
    exact ho
  · cases hcheck

/-- The effect connects with that DSN. -/
def isConnect (dsn : Str) : InitEff → Bool
  | .await (.createPool dsn') => decide (dsn' = dsn)
  | _ => false

/-- A builder is cancelled, the next one connects with the DSN of Vault, and the third call finds
the client. -/
theorem single_initialisation_handedOver : ∃ c c',
    InitReaches allSet c ∧ c.About 1 (.await (.createPool (lit "dsn"))) ∧
    (FromVault allSet c.world.trace 1 (lit "dsn") ∨
      (¬ ∃ dsn', FromVault allSet c.world.trace 1 dsn') ∧
        lit "dsn" = getenv allSet (lit "AGENT_REGISTRY_DSN")) ∧
    InitReaches allSet c' ∧ (1, .returned (.ok 0)) ∈ c'.world.trace ∧
    (2, .returned (.ok 0)) ∈ c'.world.trace ∧ builds c'.world.trace ≤ 1 ∧ Completes allSet c' := by
  have hrun : ((initialiser allSet).run (fun _ _ => True) (.ofWorld InitWorld.initial)
      handedOver).any (fun c => decide (c.Free 1) && (c.next 1).any (isConnect (lit "dsn")) &&
        ((initialiser allSet).run (fun _ _ => True) c bothReturn).any fun c' =>
          hasReturned 1 0 c'.world.trace && hasReturned 2 0 c'.world.trace) = true := by
    decide +kernel
  obtain ⟨c, hfirst, hgoal⟩ := (Option.any_eq_true ..).mp hrun
  obtain ⟨habout, hrest⟩ := Bool.and_eq_true_iff.mp hgoal
  obtain ⟨hfree, hnext⟩ := Bool.and_eq_true_iff.mp habout
  obtain ⟨e, he, hconnect⟩ := (Option.any_eq_true ..).mp hnext
  obtain ⟨c', hsecond, hreturned⟩ := (Option.any_eq_true ..).mp hrest
  obtain ⟨h₁, h₂⟩ := Bool.and_eq_true_iff.mp hreturned
  have hreach : InitReaches allSet c := Machine.reachable_of_run hfirst
  have hreach' : InitReaches allSet c' := hreach.trans (Machine.reachable_of_run hsecond)
  have habout : c.About 1 (.await (.createPool (lit "dsn"))) := by
    refine Machine.Config.about_iff.mpr ⟨of_decide_eq_true hfree, ?_⟩
    rw [isConnect.eq_def] at hconnect
    split at hconnect
    · rw [he, of_decide_eq_true hconnect]
    · cases hconnect
  -- The first configuration shows the DSN, and the second one the rest.
  obtain ⟨-, -, -, hdsn⟩ := single_initialisation allSet hreach
  obtain ⟨-, honce, hends, -⟩ := single_initialisation allSet hreach'
  exact ⟨c, c', hreach, habout, hdsn habout, hreach', mem_of_hasReturned h₁, mem_of_hasReturned h₂,
    honce, hends⟩

end RegistryInit

end MatrixDispatcher
