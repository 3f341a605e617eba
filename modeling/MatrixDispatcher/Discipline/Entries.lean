import MatrixDispatcher.Discipline.Footprint
import MatrixDispatcher.Discipline.Rules
import MatrixDispatcher.Discipline.Supervise

/-!
# The discipline of new sessions

A message at the root of a room gets its session under the lock of the room, and its handler has
nothing left to do but to end when it gives the lock up.

* `EntryAct` — what an effect and its response mean for the handler of such a message.
* `EntryStage.step` — the automaton; a stage holds the message.
* `entryMonitor`, `entryCoverage` — every task keeps this discipline. Tasks that are not handlers
  of such messages are `apart`.
-/

namespace MatrixDispatcher

open Py Coro

variable {config : MatrixDispatcher.Config} {α : Type}

/-- The message begins a session: it is at the root of its room, and not a command. -/
def HandlerArgs.Begins (args : HandlerArgs) : Prop :=
  extractThreadRoot args.event = .ok none ∧ (lit "!").isPrefixOf args.event.body.strip = false

instance (args : HandlerArgs) : Decidable args.Begins :=
  match h : extractThreadRoot args.event with
  | .ok none =>
    decidable_of_iff ((lit "!").isPrefixOf args.event.body.strip = false)
      (by simp [HandlerArgs.Begins, h])
  | .ok (some _) => .isFalse (by simp [HandlerArgs.Begins, h])
  | .error _ => .isFalse (by simp [HandlerArgs.Begins, h])

/-- What an effect and its response mean for a new session. -/
inductive EntryAct where
  /-- A session is inserted. -/
  | insert
  | take (roomId : RoomId)
  | release (roomId : RoomId)
  /-- The task is about to end. -/
  | done
  | other

/-- What an effect means. -/
def EntryAct.of : (e : Eff) → e.Ret → EntryAct
  | .sync (.execute (.insertSession _ _ _ _ _)), _ => .insert
  | .sync (.lockTry room), true => .take room
  | .await (.lockWait room), .ok _ => .take room
  | .sync (.lockRelease room), _ => .release room
  | .sync .taskDone, _ => .done
  | _, _ => .other

/-- How far the handler of a message has come. -/
inductive EntryStage where
  /-- The task does not run, or has nothing left to do. -/
  | absent
  /-- The task is not the handler of a message that begins a session. -/
  | apart
  /-- The handler does not have the lock. -/
  | message (args : HandlerArgs)
  /-- The handler has the lock, and may insert the session. -/
  | locked (args : HandlerArgs)
  /-- The handler has given the lock up. -/
  | ended

namespace EntryStage

/-- The message of the handler. -/
def args? : EntryStage → Option HandlerArgs
  | message args | locked args => some args
  | _ => none

/-- The handler must end at once. -/
def isOver : EntryStage → Bool
  | ended => true
  | _ => false

/-- The automaton of new sessions. -/
def step : EntryStage → EntryAct → Option EntryStage
  | apart, _ => some apart
  | message args, .other => some (message args)
  | message args, .take room => if room = args.roomId then some (locked args) else none
  | message _, .done => some absent
  | locked args, .insert => some (locked args)
  | locked args, .other => some (locked args)
  | locked args, .release room => if room = args.roomId then some ended else none
  | ended, .done => some absent
  | _, _ => none

end EntryStage

/-- The transitions of `EntryStage.step`. -/
inductive EntryStep : EntryStage → EntryAct → EntryStage → Prop
  | apart (act) : EntryStep .apart act .apart
  | wait (args) : EntryStep (.message args) .other (.message args)
  | take (args) : EntryStep (.message args) (.take args.roomId) (.locked args)
  | refuse (args) : EntryStep (.message args) .done .absent
  | insert (args) : EntryStep (.locked args) .insert (.locked args)
  | work (args) : EntryStep (.locked args) .other (.locked args)
  | release (args) : EntryStep (.locked args) (.release args.roomId) .ended
  | finish : EntryStep .ended .done .absent

/-- Every transition of the automaton is one of those. -/
theorem EntryStage.step_cases {g g' : EntryStage} {act : EntryAct} (h : g.step act = some g') :
    EntryStep g act g' := by
  rw [step.eq_def] at h
  -- One case for each line of the table, and those without a transition.
  split at h
  · cases h
    exact .apart _
  · cases h
    exact .wait _
  · split at h
    · next hroom =>
      cases h
      subst hroom
      exact .take _
    · cases h
  · cases h
    exact .refuse _
  · cases h
    exact .insert _
  · cases h
    exact .work _
  · split at h
    · next hroom =>
      cases h
      subst hroom
      exact .release _
    · cases h
  · cases h
    exact .finish
  · cases h

/-- The monitor of new sessions. -/
def entryMonitor : Monitor Eff Eff.Ret EntryStage where
  next g e r := g.step (EntryAct.of e r)
  atomic := EntryStage.isOver
  final g := g = .absent ∨ g = .apart
  idle := .absent
  atomic_idle := rfl

/-! ## Every task follows the discipline -/

/-- From stage `g`, the coroutine keeps the discipline and ends as `Q` says. -/
abbrev FollowsEntry (g : EntryStage) (p : Py α) (Q : Except Exn α → EntryStage → Prop) : Prop :=
  entryMonitor.Follows Eff.awaits g p.run Q

/-- The effect neither takes a lock, nor gives one up, nor is the last one of a task. -/
def Eff.inside : Eff → Bool
  | .sync (.lockTry _) | .sync (.lockRelease _) | .sync .taskDone | .await (.lockWait _) => false
  | _ => true

/-- Under the lock, a handler may do anything else. -/
theorem entryMonitor_ignores {args : HandlerArgs} {e : Eff} (he : e.inside = true) :
    entryMonitor.Ignores (.locked args) e := by
  intro r
  cases e with
  | sync e =>
    cases e with
    | execute s => cases s <;> rfl
    | _ => first | rfl | cases he
  | await e =>
    cases e with
    | _ => first | rfl | cases he

theorem inside_of_busy {e : Eff} (h : Busy e) : e.inside = true := by
  cases e with
  | sync e => cases e <;> first | rfl | cases h
  | await e => cases e <;> first | rfl | cases h

/-- The effects of a program are those of a handler under the lock. -/
abbrev Inside (p : Py α) : Prop := PerformsE (fun e => e.inside = true) p

theorem inside_busy {p : Py α} (hp : PerformsE Busy p) : Inside p := hp.mono fun _ => inside_of_busy

theorem inside_plain {p : Py α} (hp : PerformsE Plain p) : Inside p :=
  inside_busy (hp.mono fun _ => Busy.of_plain)

/-- The turn of a new session has nothing to do with locks. -/
theorem inside_spawnTurn {args : HandlerArgs} {message : Str} :
    Inside (spawnTurn args message) := by
  refine performsE_bind (performsE_sync rfl) fun session => ?_
  refine performsE_bind (inside_plain (plain_postMessage _ _ _)) fun ack => ?_
  refine performsE_bind (inside_plain (plain_insertSession _ _ _ _)) fun _ => ?_
  refine performsE_bind (inside_plain (plain_registerAlias _ _)) fun _ => ?_
  refine performsE_bind (inside_plain (plain_registerSession _ _ _ _ _)) fun _ => ?_
  refine performsE_bind (performsE_sync rfl) fun start => ?_
  refine performsE_bind (performsE_attempt (performsE_bind (performsE_sync rfl) fun _ =>
    inside_busy ((run_runClaude _).mono fun _ => Busy.of_run))) fun res => ?_
  split
  · exact inside_plain (plain_postAlias _ _ _ _)
  · exact performsE_throw _
  · refine performsE_bind (inside_plain (plain_postResponse _ _ _ _ _ _ _ _ _)) fun _ => ?_
    exact inside_busy ((record_recordPendingIfGated _).mono fun _ => Busy.of_record)

theorem inside_rootTurn {args : HandlerArgs} {message : Str} : Inside (rootTurn args message) := by
  refine performsE_bind (performsE_sync rfl) fun now => ?_
  refine performsE_bind (performsE_sync rfl) fun last => ?_
  dsimp only
  split
  · exact inside_plain (plain_notice _ _ _)
  · exact performsE_bind (performsE_sync rfl) fun _ => inside_spawnTurn

/-- `async with _room_lock(room)` around the turn of a new session. -/
theorem entry_withRoomLock {args : HandlerArgs} {body : Py α} (hbody : Inside body) :
    FollowsEntry (.message args) (withRoomLock args.roomId body)
      fun _ g => g = .message args ∨ g = .ended := by
  -- Inside, nothing concerns the lock until it is released.
  have hlocked : FollowsEntry (.locked args)
      (Coro.finallyDo body (Coro.perform (Eff.sync (.lockRelease args.roomId))))
      fun _ g => g = .message args ∨ g = .ended := by
    refine Monitor.Follows.finallyDo ?_
    refine Follows.ignored (hbody.mono fun _ => entryMonitor_ignores) rfl fun _ => ?_
    exact Follows.perform_sync fun _ => ⟨.ended, if_pos rfl, .inr rfl⟩
  refine Monitor.Follows.bindE (Follows.sync_bind fun got => ?_)
  cases got with
  -- The lock was free, or it is waited for.
  | true => exact ⟨.locked args, if_pos rfl, hlocked⟩
  | false =>
    refine ⟨.message args, rfl, Follows.await rfl fun res => ?_⟩
    cases res with
    | ok _ => exact ⟨.locked args, if_pos rfl, hlocked⟩
    | error _ => exact ⟨.message args, rfl, .inl rfl⟩

theorem entry_handleEvent {args : HandlerArgs} (hbegins : args.Begins) :
    FollowsEntry (.message args) (handleEvent args) fun _ g => g = .message args ∨ g = .ended := by
  obtain ⟨hthread, hcommand⟩ := hbegins
  rw [handleEvent]
  split
  · exact .inl rfl
  dsimp only
  rw [hthread, hcommand]
  exact entry_withRoomLock inside_rootTurn

/-- The handler of a message that begins a session keeps the discipline. -/
theorem entry_handler {args : HandlerArgs} (hbegins : args.Begins) :
    entryMonitor.Conforms Eff.awaits (.message args) (handlerFiber args) := by
  refine Monitor.Conforms.once (Monitor.Follows.bind
    (Q := fun _ g => g = .message args ∨ g = .ended) ?_ ?_)
  · refine Monitor.Follows.bindE (Follows.await rfl fun res => ⟨.message args, rfl, ?_⟩)
    cases res with
    | error _ => exact .inl rfl
    | ok _ => exact entry_handleEvent hbegins
  · rintro _ g (rfl | rfl) <;>
      exact Follows.perform_sync fun _ => ⟨.absent, rfl, rfl, .inl rfl⟩

/-- The other tasks stay apart. -/
theorem entry_apart (fiber : Fiber Eff Eff.Ret) : entryMonitor.Conforms Eff.awaits .apart fiber :=
  .of_performs rfl (.inr rfl) (.of_forall (fun _ _ => rfl) _) fun _ => .of_forall (fun _ _ => rfl) _

/-- Every task of the dispatcher keeps the discipline of new sessions. -/
def entryCoverage (config : MatrixDispatcher.Config) : Coverage config entryMonitor where
  enter
    | .handle args => if args.Begins then .message args else .apart
    | _ => .apart
  ok _ := True
  ok_main := trivial
  create _ := trivial
  atomic request := by
    cases request with
    | handle args =>
      dsimp only
      split <;> rfl
    | _ => rfl
  conforms := by
    intro request _
    cases request with
    | handle args =>
      dsimp only
      split
      · next hbegins => exact entry_handler hbegins
      · exact entry_apart _
    | _ => exact entry_apart _

end MatrixDispatcher
