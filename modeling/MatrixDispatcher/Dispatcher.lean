import MatrixDispatcher.App
import MatrixDispatcher.Runtime.World

/-!
# The dispatcher as a machine

The tasks of a process, run against the world of `Runtime.World`: `main` with its poll loop, the
cleanup loop, the reconcile loop, and one task for each dispatched message.
-/

namespace MatrixDispatcher

open Coro Py

/-- `cleanup_loop`. -/
def cleanupFiber (config : MatrixDispatcher.Config) : Fiber Eff Eff.Ret where
  State := Unit
  prog := do nextRound endTask (← (do await .start; cleanupRound config : Py Unit).run)
  next _ := do nextRound endTask (← (cleanupRound config).run)

/-- `reconcile_loop`: it ends at once if the registry is disabled. -/
def reconcileFiber (config : MatrixDispatcher.Config) : Fiber Eff Eff.Ret where
  State := Unit
  prog := do
    match ← (do await .start; sync .registryEnabled : Py Bool).run with
    | .ok true => nextRound endTask (← (reconcileRound config).run)
    | _ => do
      endTask
      pure none
  next _ := do nextRound endTask (← (reconcileRound config).run)

/-- `main` with its poll loop. -/
def mainFiber (config : MatrixDispatcher.Config) : Fiber Eff Eff.Ret where
  State := Option Token
  prog := mainProgram config
  next since := do nextRound endMain (← (pollRound config since).run)

/-- The task of one message. -/
def handlerFiber (args : HandlerArgs) : Fiber Eff Eff.Ret :=
  Fiber.once do
    let _ ← (do await .start; handleEvent args : Py Unit).run
    endTask

/-- The task that a request asks for. -/
def taskOf (config : MatrixDispatcher.Config) : Request → Fiber Eff Eff.Ret
  | .main => mainFiber config
  | .cleanup => cleanupFiber config
  | .reconcile => reconcileFiber config
  | .handle args => handlerFiber args

/-- The dispatcher under a configuration. -/
def dispatcher (config : MatrixDispatcher.Config) : Machine Tid Eff Eff.Ret Answer World where
  awaits := Eff.awaits
  exec := exec
  env
    | .move m, w => w.moved m
    | _, _ => none
  start
    | .pick n, w =>
      match w.inbox[n]? with
      | none => none
      | some (t, request) =>
        some (t, taskOf config request, { w with inbox := w.inbox.eraseIdx n })
    | _, _ => none
  crash
    | .done, w => some w.crashed
    | _, _ => none

instance : Inhabited Answer := ⟨.done⟩

/-- What happens in a step of the dispatcher, as a filter on runs sees it. -/
abbrev Step := Coro.Event Tid Eff Answer

/-- The configurations that runs from an empty database reach whose steps are all allowed. -/
abbrev Reaches (config : MatrixDispatcher.Config) (allow : World → Step → Prop)
    (c : Machine.Config Tid Eff Eff.Ret World) : Prop :=
  (dispatcher config).Reachable allow (.ofWorld World.initial) c

/-- The process does not die. -/
def survives (_ : World) : Step → Prop
  | .crash _ => False
  | _ => True

/-- `survives`, evaluated. -/
def isSurvived : Step → Bool
  | .crash _ => false
  | _ => true

theorem survives_of_check (w : World) (e : Step) (h : isSurvived e = true) : survives w e := by
  cases e <;> trivial

/-! ## Scenarios -/

/-- An answer with which an effect succeeds. The clock advances with every turn. -/
def usualAnswer (w : World) : Eff → Answer
  | .sync .time | .sync .utcnow => .clock (w.clock + secondsToTime 100)
  | .sync .uuid4 => .text (lit "5e55")
  | .sync (.readTranscript _ _) => .transcript .missing
  | .sync (.listTranscripts _) => .listing none
  | .await (.sync _) => .synced .error
  | .await (.roomSend _ _ _) => .text (lit "$post")
  | .await (.roomGetEvent _ _) => .sender none
  | _ => .done

/-- The entries of a scenario. -/
abbrev Cue := Machine.Cue Tid Answer

/-- A step of a task with an answer of its own. -/
def Cue.task (t : Tid) (a : Answer) : Cue := .step (.task t a)

/-- A move of another program. -/
def Cue.move (m : Move) : Cue := .step (.env (.move m))

/-- The configuration that a scenario reaches from an empty database is one that is reached. -/
theorem reaches_of_play (config : MatrixDispatcher.Config) (cues : List Cue)
    (goal : Machine.Config Tid Eff Eff.Ret World → Bool) {allow : World → Step → Prop}
    {check : World → Step → Bool} (hcheck : ∀ w e, check w e = true → allow w e)
    (h : ((dispatcher config).play usualAnswer (fun w e => check w e = true)
      (.ofWorld World.initial) cues).any goal = true) :
    ∃ c, Reaches config allow c ∧ goal c = true :=
  Machine.exists_reachable hcheck h

/-- Task `t` may move, and its next effect is as wanted. -/
def meets (c : Machine.Config Tid Eff Eff.Ret World) (t : Tid) (wanted : Eff → Bool) : Bool :=
  decide (c.Free t) && (c.next t).any wanted

theorem about_of_meets {c : Machine.Config Tid Eff Eff.Ret World} {t : Tid} {wanted : Eff → Bool}
    (h : meets c t wanted = true) : ∃ e, c.About t e ∧ wanted e = true := by
  obtain ⟨hfree, hnext⟩ := Bool.and_eq_true_iff.mp h
  obtain ⟨e, he, hwanted⟩ := (Option.any_eq_true ..).mp hnext
  exact ⟨e, Machine.Config.about_iff.mpr ⟨of_decide_eq_true hfree, he⟩, hwanted⟩

/-- A configuration with one agent. -/
def oneAgent : MatrixDispatcher.Config where
  trustedSender := some (lit "@ted")
  mentionUser := none
  botUserId := none
  maxMessageLength := none
  sessionRetentionDays := none
  startupNotificationAgent := none
  agents := [(lit "agent", ⟨lit "!room", some (lit "/p"), none, none⟩)]

/-- A configuration with two agents that work in one directory. -/
def twoAgents : MatrixDispatcher.Config where
  __ := oneAgent
  agents := [(lit "agent", ⟨lit "!room", some (lit "/p"), none, none⟩),
    (lit "other", ⟨lit "!other", some (lit "/p"), none, none⟩)]

/-- The effect looks for the session of an event. -/
def isLookup (e : EventId) : Eff → Bool
  | .sync (.execute (.getSessionByEvent e')) => decide (e' = e)
  | _ => false

theorem eq_of_isLookup {e : EventId} {eff : Eff} (h : isLookup e eff = true) :
    eff = .sync (.execute (.getSessionByEvent e)) := by
  rw [isLookup.eq_def] at h
  split at h
  · rw [of_decide_eq_true h]
  · cases h

/-- The effect starts a child for such a turn. -/
def isLaunch (wanted : Turn → Bool) : Eff → Bool
  | .await (.exec _ _ _ turn) => wanted turn
  | _ => false

theorem eq_of_isLaunch {wanted : Turn → Bool} {eff : Eff} (h : isLaunch wanted eff = true) :
    ∃ argv cwd agent turn, eff = .await (.exec argv cwd agent turn) ∧ wanted turn = true := by
  rw [isLaunch.eq_def] at h
  split at h
  · exact ⟨_, _, _, _, rfl, h⟩
  · cases h

/-- The first start of the process, up to the sync of its first round. -/
def booting : List Cue :=
  [.step (.start (.pick 0)), .go .main 5, .task .main (.synced (.response (lit "t0") [])),
    .go .main 4]

/-- A message of the trusted sender. -/
def messageOf (e : EventId) (body : Str) (source : Json) : TimelineEvent :=
  .text ⟨e, lit "@ted", body, source⟩

/-- The source of a message that replies to `e`. -/
def replyTo (e : EventId) : Json :=
  .obj [(lit "content", .obj [(lit "m.relates_to", .obj
    [(lit "m.in_reply_to", .obj [(lit "event_id", .str e)])])])]

/-- A batch with messages for a room: they are dispatched, and the round is over. -/
def batch (next : Token) (room : RoomId) (events : List TimelineEvent) : List Cue :=
  [.task .main (.synced (.response next [(room, events)])), .go .main (5 + events.length)]

/-- The handler in the `i`-th place of the inbox begins, and makes `n` steps. -/
def handling (handler i n : Nat) : List Cue := [.step (.start (.pick i)), .go (.handler handler) n]

/-- The first message spawns a session, whose child is running. -/
def spawning : List Cue :=
  booting ++ batch (lit "t1") (lit "!room") [messageOf (lit "$1") (lit "hi") (.obj [])] ++
    handling 0 2 22

/-- An approval that the first child of that agent asks for. -/
def bashApproval : Approval :=
  ⟨lit "a1", lit "agent", some (lit "Bash"), secondsToTime 101, .pending, none, some 0⟩

/-- The child of the first message meets a gate and exits, and the handler records the approval. -/
def gating : List Cue :=
  spawning ++ [.move (.mint bashApproval), .move (.exit 0 0 (lit "ok") []), .go (.handler 0) 22]

/-- The operator approves. -/
def approving : List Cue := gating ++ [.move (.setState (lit "a1") .approved)]

/-- The reconcile loop makes `n` steps from its beginning. -/
def reconciling (n : Nat) : List Cue := [.step (.start (.pick 1)), .go .reconcile n]

/-- A reply to the first message resumes its session, in the handler of that number. -/
def replying (handler : Nat) : List Cue :=
  batch (lit "t2") (lit "!room") [messageOf (lit "$2") (lit "go on") (replyTo (lit "$1"))] ++
    handling handler 2 16

end MatrixDispatcher
