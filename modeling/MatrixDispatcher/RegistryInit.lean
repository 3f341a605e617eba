import MatrixDispatcher.Coro.Machine
import MatrixDispatcher.Coro.Mutex
import MatrixDispatcher.Runtime.Effect
import MatrixDispatcher.Text

/-!
# The first use of the registry

`get_registry` of `registry.py`, which any number of tasks may call at the same time: the client is
created once, under a lock that is created on the way. It has effects of its own, and a machine of
its own in which nothing but such calls runs.

* `getRegistry` — double-checked initialisation, with the choice of the DSN and `_build_pool`.
* `readDsnFromVaultSync` — the one-shot read, which runs in another thread.
* `InitWorld`, `initialiser` — the module's globals and the objects, and the machine.
-/

namespace MatrixDispatcher

namespace RegistryInit

open Coro

/-! ## Names and values -/

/-- A call of `get_registry`, numbered in the order of the calls. -/
abbrev Caller := Nat

/-- A `RegistryClient` object. -/
abbrev ClientRef := Nat

/-- An `asyncio.Lock` object. -/
abbrev LockRef := Nat

/-- An `asyncpg` pool. -/
abbrev Pool := Nat

/-- `os.environ`. -/
abbrev Environ := Str → Option Str

/-- `os.environ.get(name, "").strip()`. -/
def getenv (env : Environ) (name : Str) : Str := ((env name).getD []).strip

/-- The variables for the address of Vault and the AppRole are set. -/
def vaultConfigured (env : Environ) : Bool :=
  getenv env (lit "VAULT_ADDR") != [] &&
    getenv env (lit "DISPATCHER_REGISTRY_VAULT_ROLE_ID") != [] &&
    getenv env (lit "DISPATCHER_REGISTRY_VAULT_SECRET_ID") != []

/-- What a login to Vault comes to. -/
structure Vault where
  /-- `hvac` can be imported. -/
  installed : Bool
  /-- The login, with the creation of the client before it. -/
  login : Except Exn Unit
  /-- The value under the key in the secret, if it has one. -/
  secret : Except Exn (Option Str)
  revokeSelf : Except Exn Unit

/-- `try: p except Exception: return a`. -/
def orElse {α : Type} (p : Except Exn α) (a : α) : Except Exn α :=
  match p with
  | .ok b => .ok b
  | .error x => if x.isException then .ok a else .error x

/-- `_read_dsn_from_vault_sync`: one login, one read. -/
def readDsnFromVaultSync (vault : Vault) : Except Exn (Option Str) :=
  if vault.installed then
    orElse (do
      vault.login
      let dsn := (← vault.secret).getD []
      if dsn = [] then pure none
      else
        -- a revocation that fails does not make the read fail
        orElse vault.revokeSelf ()
        pure (some dsn)) none
  else .ok none

/-! ## Effects -/

/-- Observations. -/
inductive InitMark where
  /-- Vault was read with this result. -/
  | read (dsn : Option Str)
  /-- `_build_pool` has completed. -/
  | built (pool : Option Pool)
  /-- `get_registry` has returned or raised. -/
  | returned (res : Except Exn ClientRef)

/-- What is done without giving up the processor. -/
inductive InitSync where
  | registryGet
  | registrySet (client : ClientRef)
  | initLockGet
  /-- `_init_lock = asyncio.Lock()`. -/
  | newLock
  | lockTry (lock : LockRef)
  | lockRelease (lock : LockRef)
  /-- Whether `asyncpg` can be imported. -/
  | importAsyncpg
  | newClient (pool : Option Pool)
  | mark (m : InitMark)

/-- The types of the responses. -/
abbrev InitSync.Ret : InitSync → Type
  | .registryGet => Option ClientRef
  | .initLockGet => Option LockRef
  | .newLock => LockRef
  | .lockTry _ => Bool
  | .importAsyncpg => Bool
  | .newClient _ => ClientRef
  | .registrySet _ | .lockRelease _ | .mark _ => Unit

/-- What is awaited. -/
inductive InitAwait where
  /-- The task begins to run. -/
  | start
  | lockWait (lock : LockRef)
  /-- `asyncio.to_thread(_read_dsn_from_vault_sync)`. -/
  | readVault
  /-- `asyncpg.create_pool(dsn, …)`. -/
  | createPool (dsn : Str)

/-- The types of the values. -/
abbrev InitAwait.Val : InitAwait → Type
  | .start | .lockWait _ => Unit
  | .readVault => Option Str
  | .createPool _ => Pool

/-- The effects of `get_registry`. -/
inductive InitEff where
  | sync (e : InitSync)
  | await (e : InitAwait)

/-- The types of the responses. -/
abbrev InitEff.Ret : InitEff → Type
  | .sync e => e.Ret
  | .await e => Except Exn e.Val

/-- The task gives up the processor at the effect. -/
def InitEff.awaits : InitEff → Bool
  | .sync _ => false
  | .await _ => true

/-- Coroutines over these effects that can raise. -/
abbrev Init := ExceptT Exn (Coro InitEff InitEff.Ret)

def sync (e : InitSync) : Init e.Ret := ExceptT.lift (Coro.perform (InitEff.sync e))

def await (e : InitAwait) : Init e.Val := ExceptT.mk (Coro.perform (InitEff.await e))

/-! ## The program -/

/-- `try: return await asyncpg.create_pool(dsn, …)`, `except Exception: return None`. -/
def createPool (dsn : Str) : Init (Option Pool) := do
  match ← Coro.attempt (await (.createPool dsn)) with
  | .ok pool => pure (some pool)
  | .error x => if x.isException then pure none else throw x

/-- Create a pool if the library is there. -/
def tryPool (dsn : Str) : Init (Option Pool) := do
  if ← sync .importAsyncpg then createPool dsn else pure none

/-- `_build_pool`: create an asyncpg pool, or return `None` on any failure. -/
def buildPool (dsn : Str) : Init (Option Pool) := do
  let pool ← tryPool dsn
  sync (.mark (.built pool))
  pure pool

/-- `async with lock`, up to the body. -/
def acquire (lock : LockRef) : Init Unit := do
  if ← sync (.lockTry lock) then pure () else await (.lockWait lock)

/-- `async with lock: body`. -/
def withLock {α : Type} (lock : LockRef) (body : Init α) : Init α := do
  acquire lock
  Coro.finallyDo body (Coro.perform (InitEff.sync (.lockRelease lock)))

/-- The DSN that Vault has, if Vault is configured. -/
def readVault (env : Environ) : Init (Option Str) :=
  if vaultConfigured env then await .readVault else pure none

/-- The DSN: that of Vault if there is one, and otherwise that of the environment. -/
def resolve (env : Environ) (vaultDsn : Option Str) : Str :=
  if vaultDsn.getD [] = [] then getenv env (lit "AGENT_REGISTRY_DSN") else vaultDsn.getD []

/-- `await _build_pool(dsn) if dsn else None`. -/
def poolFor (dsn : Str) : Init (Option Pool) :=
  if dsn = [] then pure none else buildPool dsn

/-- What is done under the lock. -/
def initialise (env : Environ) : Init ClientRef := do
  match ← sync .registryGet with
  -- lost the race
  | some client => pure client
  | none =>
    let vaultDsn ← readVault env
    let pool ← poolFor (resolve env vaultDsn)
    let client ← sync (.newClient pool)
    sync (.registrySet client)
    pure client

/-- `_init_lock`, which is created if it is not there. -/
def initLock : Init LockRef := do
  match ← sync .initLockGet with
  | some lock => pure lock
  | none => sync .newLock

/-- Return the process-wide registry client, building the pool on first use. -/
def getRegistry (env : Environ) : Init ClientRef := do
  match ← sync .registryGet with
  | some client => pure client
  | none => withLock (← initLock) (initialise env)

/-! ## The machine -/

/-- The globals `_registry` and `_init_lock`, the objects, and what has happened. -/
structure InitWorld where
  registry : Option ClientRef
  initLock : Option LockRef
  locks : List (Mutex Caller)
  /-- The pools of the clients. -/
  clients : List (Option Pool)
  pools : Nat
  /-- The tasks whose cancellation is still to be delivered. -/
  cancelled : List Caller
  callers : Nat
  trace : List (Caller × InitMark)

/-- The module has been imported. -/
def InitWorld.initial : InitWorld := ⟨none, none, [], [], 0, [], 0, []⟩

/-- What settles a step that the world does not determine. -/
inductive InitAnswer where
  | done
  /-- All who wait for the lock are about to be cancelled, and do not count any more. -/
  | overtake
  | asyncpg (installed : Bool)
  | vault (vault : Vault)
  | raised (x : Exn)
  | cancel (t : Caller)

def InitWorld.setLock (w : InitWorld) (lock : LockRef) (m : Mutex Caller) : InitWorld :=
  { w with locks := w.locks.set lock m }

/-- Nobody in the queue of the lock counts. -/
def InitWorld.first (w : InitWorld) (a : InitAnswer) (m : Mutex Caller) : Bool :=
  match a with
  | .overtake => m.waiters.all (· ∈ w.cancelled)
  | _ => m.waiters.isEmpty

/-- Effects that do not await. -/
def execSync (t : Caller) (a : InitAnswer) (w : InitWorld) :
    (e : InitSync) → Option (e.Ret × InitWorld)
  | .registryGet => some (w.registry, w)
  | .registrySet client => some ((), { w with registry := some client })
  | .initLockGet => some (w.initLock, w)
  | .newLock =>
    some (w.locks.length, { w with locks := w.locks ++ [.free], initLock := some w.locks.length })
  | .lockTry lock =>
    match w.locks[lock]? with
    | none => none
    | some m => some ((m.acquire t (w.first a m)).1, w.setLock lock (m.acquire t (w.first a m)).2)
  | .lockRelease lock =>
    match w.locks[lock]? with
    | none => none
    | some m => some ((), w.setLock lock m.release)
  | .importAsyncpg =>
    match a with
    | .asyncpg installed => some (installed, w)
    | _ => none
  | .newClient pool => some (w.clients.length, { w with clients := w.clients ++ [pool] })
  | .mark m => some ((), { w with trace := (t, m) :: w.trace })

/-- Awaited operations, of tasks that are not cancelled. -/
def execOperation (t : Caller) (a : InitAnswer) (w : InitWorld) :
    (e : InitAwait) → Option (Except Exn e.Val × InitWorld)
  | .start => some (.ok (), w)
  | .lockWait lock =>
    match w.locks[lock]? with
    | none => none
    | some m => (m.enter t).map fun m => (.ok (), w.setLock lock m)
  | .readVault =>
    match a with
    | .vault vault =>
      match readDsnFromVaultSync vault with
      | .ok dsn => some (.ok dsn, { w with trace := (t, .read dsn) :: w.trace })
      | .error x => some (.error x, w)
    | _ => none
  | .createPool _ =>
    match a with
    | .done => some (.ok w.pools, { w with pools := w.pools + 1 })
    | .raised x => if x.isException then some (.error x, w) else none
    | _ => none

/-- A cancellation is delivered; a task that waits for a lock leaves the queue. -/
def deliverCancel (t : Caller) (w : InitWorld) (e : InitAwait) : InitWorld :=
  let w := { w with cancelled := w.cancelled.filter (· ≠ t) }
  match e with
  | .lockWait lock =>
    match w.locks[lock]? with
    | none => w
    | some m => w.setLock lock (m.leave t)
  | _ => w

/-- The response to an effect of a call, and the world after it. -/
def exec (t : Caller) (a : InitAnswer) : (e : InitEff) → InitWorld → Option (e.Ret × InitWorld)
  | .sync e, w => execSync t a w e
  | .await e, w =>
    if t ∈ w.cancelled then some (.error .cancelledError, deliverCancel t w e)
    else execOperation t a w e

/-- The task of a call. -/
def callerFiber (env : Environ) : Fiber InitEff InitEff.Ret :=
  Fiber.once do
    let res ← (do await .start; getRegistry env : Init ClientRef).run
    Coro.perform (InitEff.sync (.mark (.returned res)))

/-- Calls of `get_registry` in a process. A call may come, and a task may be cancelled, at any
time. -/
def initialiser (env : Environ) : Machine Caller InitEff InitEff.Ret InitAnswer InitWorld where
  awaits := InitEff.awaits
  exec := exec
  env
    | .cancel t, w => if t < w.callers then some { w with cancelled := t :: w.cancelled } else none
    | _, _ => none
  start _ w := some (w.callers, callerFiber env, { w with callers := w.callers + 1 })
  crash _ _ := none

end RegistryInit

end MatrixDispatcher
