import MatrixDispatcher.Safety.Conversation
import MatrixDispatcher.Safety.Liveness
import MatrixDispatcher.Safety.Provenance

/-!
# The turns of a room are serial

In every run, whatever the tasks, the locks and the responses are, what is seen of a room is what
the abstract room can show.

* `sights` — what the trace of a run says of a room.
* `SpeechInv` — the tasks speak as they should, and have the locks of the rooms of their turns.
* `TalkRel` — the abstract room has the turn of the task that has one in the room.
* `TalkRel.step` — what one effect of a task does to the abstract room.
* `talkSimulation`, `room_serial` — the dispatcher refines the abstract room.
-/

namespace MatrixDispatcher

open Py Coro

variable {config : MatrixDispatcher.Config} {w w' : World} {t : Tid} {room : RoomId}

/-! ## What the trace says of a room -/

/-- What an observation says of the room. -/
def sightOf (room : RoomId) : Obs → Option Sight
  | .marked t (.runnerCall turn) => if turn.roomId = room then some (.called t turn) else none
  | .marked t (.leftRun r _ outcome) => if r = room then some (.left t outcome) else none
  | .posted t r _ _ _ => if r = room then some (.said t) else none
  | .recorded row => if row.roomId = room then some (.noted row) else none
  | .restarted => some .died
  | _ => none

/-- What is seen of the room, latest first. -/
def sights (room : RoomId) (w : World) : List Sight := w.trace.filterMap (sightOf room)

/-- What an act of speech of task `t` says of the room. -/
def SpeechAct.sight (t : Tid) (room : RoomId) : SpeechAct → Option Sight
  | say (some r) => if r = room then some (.said t) else none
  | call turn => if turn.roomId = room then some (.called t turn) else none
  | leave r outcome => if r = room then some (.left t outcome) else none
  | note row => if row.roomId = room then some (.noted row) else none
  | _ => none

theorem sight_of_obs {e : Eff} {r : e.Ret} :
    (obsOf t e r).bind (sightOf room) = (SpeechAct.of e r).sight t room := by
  cases e with
  | sync e =>
    cases e with
    | execute s => cases s <;> first | rfl | (cases r <;> rfl)
    | createTask request => cases request <;> rfl
    | mark m => cases m <;> rfl
    | _ => rfl
  | await e =>
    cases e with
    | roomSend _ _ _ | sync _ | fetchStates _ | exec _ _ _ _ | pause => cases r <;> rfl
    | _ => rfl

/-- What is seen after an effect. -/
theorem exec_sights {a : Answer} {e : Eff} {r : e.Ret} (h : exec t a e w = some (r, w')) :
    sights room w' = ((SpeechAct.of e r).sight t room).toList ++ sights room w := by
  rw [sights, exec_filterMap (sightOf room) h, sight_of_obs]
  rfl

/-! ## Tasks and their turns -/

/-- A task of this name takes turns; it may come again, or not. -/
def TakesTurns (again : Bool) : Tid → Prop
  | .reconcile => again = true
  | .handler _ => again = false
  | _ => False

/-- A task of this name can be at this stage. -/
def SpeechStage.Fits (t : Tid) : SpeechStage → Prop
  | absent | apart => True
  | free again | turn again _ _ => TakesTurns again t
  | silent => TakesTurns false t

theorem SpeechStage.fits_released {b : Bool} (h : TakesTurns b t) : (released b).Fits t := by
  cases b <;> exact h

/-- Steps of speech keep the kind of the task. -/
theorem SpeechStep.fits {g g' : SpeechStage} {act : SpeechAct} (h : g.Fits t)
    (hstep : SpeechStep g act g') : g'.Fits t := by
  cases hstep with
  | finish b turn phase hphase => exact SpeechStage.fits_released h
  | release b => exact SpeechStage.fits_released h
  | _ => exact h

/-- A task that does not run stays so. -/
theorem SpeechStep.of_absent {g' : SpeechStage} {act : SpeechAct}
    (hstep : SpeechStep .absent act g') : g' = .absent := by
  cases hstep with
  | other | miss => rfl
  | say _ _ h => cases h

/-- How a task comes to have a turn: it is called, or it had it before. -/
theorem SpeechStep.turn_cases {g g' : SpeechStage} {act : SpeechAct} {turn : Turn} {phase : Phase}
    (hstep : SpeechStep g act g') (h : g'.turn? = some (turn, phase)) :
    act = .call turn ∨ (∃ phase', g.turn? = some (turn, phase')) ∧ act ≠ .release := by
  cases hstep with
  | call b turn' =>
    obtain ⟨rfl, -⟩ := Prod.mk.inj (Option.some.inj h)
    exact .inl rfl
  | finish b turn' phase' hphase => cases b <;> cases h
  | release b => cases b <;> cases h
  | _ => exact .inr ⟨⟨_, by first | exact h | (cases h; rfl)⟩, by simp⟩

/-- A call of the runner is one for both disciplines. -/
theorem call_of_speech {e : Eff} {r : e.Ret} {turn : Turn} (h : SpeechAct.of e r = .call turn) :
    TurnAct.of e r = .call turn := by
  cases e with
  | sync e =>
    cases e with
    | execute s => cases s <;> first | cases h | (cases r <;> cases h)
    | mark m =>
      cases m <;> cases h
      rfl
    | _ => cases h
  | await e =>
    cases e with
    | roomSend _ _ _ | exec _ _ _ _ | pause => cases r <;> cases h
    | _ => cases h

/-- So is a release. -/
theorem release_of_turn {e : Eff} {r : e.Ret} (h : TurnAct.of e r = .release room) :
    SpeechAct.of e r = .release := by
  have hreleases := TurnAct.release_of h
  unfold Eff.releases at hreleases
  split at hreleases
  · rfl
  · cases hreleases

/-! ## Tasks and the room -/

/-- The tasks speak as they should: they have the lock of the room of their turn, and handlers that
run have been created. -/
structure SpeechInv (G : Tid → TurnStage × SpeechStage) (w : World) : Prop where
  fits : ∀ t, (G t).2.Fits t
  paired : ∀ t turn phase, (G t).2.turn? = some (turn, phase) → (G t).1.room? = some turn.roomId
  begun : ∀ n, (G (.handler n)).2 ≠ .absent → Begun (.ofWorld w) n

/-- One task goes on. -/
theorem SpeechInv.update {G : Tid → TurnStage × SpeechStage} {g' : TurnStage × SpeechStage}
    (h : SpeechInv G w) (hfits : g'.2.Fits t)
    (hpaired : ∀ turn phase, g'.2.turn? = some (turn, phase) → g'.1.room? = some turn.roomId)
    (hbegun : ∀ n, t = .handler n → g'.2 ≠ .absent → Begun (.ofWorld w') n)
    (hlasts : ∀ n, Begun (.ofWorld w) n → Begun (.ofWorld w') n) :
    SpeechInv (Function.update G t g') w' where
  fits := by
    rw [Function.forall_update_iff G fun u g => g.2.Fits u]
    exact ⟨hfits, fun u _ => h.fits u⟩
  paired := by
    rw [Function.forall_update_iff G fun _ g =>
      ∀ turn phase, g.2.turn? = some (turn, phase) → g.1.room? = some turn.roomId]
    exact ⟨hpaired, fun u _ => h.paired u⟩
  begun n hn := by
    by_cases hnt : Tid.handler n = t
    · subst hnt
      rw [Function.update_self] at hn
      exact hbegun n rfl hn
    · rw [Function.update_of_ne hnt] at hn
      exact hlasts n (h.begun n hn)

theorem SpeechStage.turn?_released (b : Bool) : (released b).turn? = none := by
  cases b <;> rfl

/-- The task of a turn may post as far as the turn has come. -/
theorem SpeechStage.speaks_of_turn? {g : SpeechStage} {turn : Turn} {phase : Phase}
    (h : g.turn? = some (turn, phase)) : g.speaks = phase.speaks := by
  cases g with
  | turn b turn' phase' =>
    obtain ⟨-, rfl⟩ := Prod.mk.inj (Option.some.inj h)
    rfl
  | _ => cases h

/-- The two disciplines together. -/
abbrev bothCoverages (config : MatrixDispatcher.Config) :
    Supervision (dispatcher config) ((turnMonitor config).prod speechMonitor) :=
  (turnCoverage config).supervision.prod (speechCoverage config).supervision

/-- In every run, the tasks speak as they should. -/
def speechExtension (config : MatrixDispatcher.Config)
    (c : Machine.Config Tid Eff Eff.Ret World) :
    ((lockInvariant config (onTheWay config c)).left (speechCoverage config).supervision).Extension
    where
  inv := SpeechInv
  effect := by
    intro G w w' t e a r g' _ _ _ hinv _ _ hexec hnext
    obtain ⟨hturn, hspeech⟩ := Monitor.prod_next.mp hnext
    have hstep := SpeechStage.step_cases hspeech
    refine hinv.update (hstep.fits (hinv.fits t)) (fun turn phase hturned => ?_)
      (fun n ht hne => begun_of_exec hexec (hinv.begun n fun habsent => hne ?_))
      fun n => begun_of_exec hexec
    · -- a turn begins under the lock of its room, which is not released while the turn lasts
      rcases hstep.turn_cases hturned with hcall | ⟨⟨phase', hold⟩, hact⟩
      · have hcalls := TurnStage.step_cases hturn
        rw [call_of_speech hcall] at hcalls
        generalize (G t).1 = g at hcalls
        generalize g'.1 = g₁ at hcalls
        cases hcalls
        rfl
      · exact ((TurnStage.step_cases hturn).room?_eq (hinv.paired t turn phase' hold)).resolve_right
          fun hrelease => hact (release_of_turn hrelease)
    · subst ht
      rw [habsent] at hstep
      exact hstep.of_absent
  finish := by
    intro G w t _ hinv _
    exact hinv.update trivial (fun _ _ hnone => by cases hnone) (fun _ _ hne => absurd rfl hne)
      fun _ => id
  env := by
    intro G w w' a _ _ hinv _ henv
    obtain ⟨m, -, hmoved⟩ := env_eq henv
    have hinbox : w'.inbox = w.inbox :=
      (moved_same hmoved).2 .inbox (by decide) (by decide) (by decide) (by decide)
    have hnext : w'.nextHandler = w.nextHandler :=
      (moved_same hmoved).2 .nextHandler (by decide) (by decide) (by decide) (by decide)
    exact ⟨hinv.fits, hinv.paired, fun n hn =>
      (hinv.begun n hn).of_subset hnext fun item hitem => hinbox ▸ hitem⟩
  start := by
    intro G w w' t fiber a hgood _ hinv hallow hstart hidle
    obtain ⟨i, request, rfl, hitem, -, rfl⟩ := start_eq hstart
    have hruns : request.runsAs t = true := (hgood.2 _ (List.mem_of_getElem? hitem)).2
    have henter : ((bothCoverages config).enter (.pick i) w).2 =
        (speechCoverage config).enter request := (speechCoverage config).entered_eq hitem
    -- no task starts within a turn
    refine hinv.update ?_ (fun turn phase hturn => ?_) (fun n ht _ => ?_) fun n hbegun =>
      hbegun.of_subset rfl fun item hmem => List.eraseIdx_subset hmem
    · rw [henter]
      cases request <;> cases t <;> trivial
    · rw [henter] at hturn
      cases request <;> cases hturn
    · subst ht
      obtain ⟨-, c₁, l, c₂, rfl, -, hreach, -, -⟩ := hallow
      exact begun_of_inbox (counted_of_reaches hreach) hitem
  crash := by
    intro G w w' a _ _ _ hcrash
    exact ⟨fun _ => trivial, fun _ _ _ hnone => (by cases hnone), fun n hn => absurd rfl hn⟩

/-- In every run, the locks and the speech of the tasks are as they should be. -/
abbrev speechInvariant (config : MatrixDispatcher.Config)
    (c : Machine.Config Tid Eff Eff.Ret World) :
    Invariant (bothCoverages config) (onTheWay config c) :=
  ((lockInvariant config (onTheWay config c)).left (speechCoverage config).supervision).extend
    (speechExtension config c)

/-! ## The simulation -/

/-- A handler that is not heard of any more. -/
def Rests (G : Tid → TurnStage × SpeechStage) (w : World) (t : Tid) : Prop :=
  ((G t).2 = .silent ∨ (G t).2 = .absent) ∧ ∃ n, t = .handler n ∧ Begun (.ofWorld w) n

/-- The abstract room has the turn of the task that has one in the room, and those are over who
rest. -/
structure TalkRel (room : RoomId) (G : Tid → TurnStage × SpeechStage) (w : World) (s : Talk) :
    Prop where
  turn : ∀ t turn phase, s.turn = some (t, turn, phase) ↔
    (G t).2.turn? = some (turn, phase) ∧ turn.roomId = room
  served : ∀ t ∈ s.served, Rests G w t

section

variable {G : Tid → TurnStage × SpeechStage} {g' : TurnStage × SpeechStage} {s s' : Talk}

/-- A task that may post does not rest. -/
theorem not_rests_of_speaks (h : (G t).2.speaks = true) : ¬ Rests G w t := by
  rintro ⟨hsilent | habsent, -⟩
  · rw [hsilent] at h
    cases h
  · rw [habsent] at h
    cases h

/-- Neither does a task that has a turn. -/
theorem not_rests_of_turn {b : Bool} {turn : Turn} {phase : Phase}
    (h : (G t).2 = .turn b turn phase) : ¬ Rests G w t := by
  rintro ⟨hsilent | habsent, -⟩
  · cases h.symm.trans hsilent
  · cases h.symm.trans habsent

/-- Task `t` goes on, and the room with it. -/
theorem TalkRel.update (h : TalkRel room G w s)
    (hturn : ∀ turn phase, s'.turn = some (t, turn, phase) ↔
      g'.2.turn? = some (turn, phase) ∧ turn.roomId = room)
    (hturns : ∀ u, u ≠ t → ∀ turn phase,
      s'.turn = some (u, turn, phase) ↔ s.turn = some (u, turn, phase))
    (hover : ∀ u ∈ s'.served, u ∈ s.served ∧ u ≠ t ∨
      u = t ∧ (g'.2 = .silent ∨ g'.2 = .absent) ∧ ∃ n, t = .handler n ∧ Begun (.ofWorld w') n)
    (hlasts : ∀ n, Begun (.ofWorld w) n → Begun (.ofWorld w') n) :
    TalkRel room (Function.update G t g') w' s' where
  turn := by
    rw [Function.forall_update_iff G fun u g => ∀ turn phase,
      s'.turn = some (u, turn, phase) ↔ g.2.turn? = some (turn, phase) ∧ turn.roomId = room]
    refine ⟨hturn, fun u hut turn phase => ?_⟩
    rw [hturns u hut turn phase]
    exact h.turn u turn phase
  served u hu := by
    -- Who was served stays so; the task itself is served when it rests.
    rcases hover u hu with ⟨hold, hut⟩ | ⟨rfl, hrests⟩
    · obtain ⟨hstage, n, hn, hbegun⟩ := h.served u hold
      refine ⟨?_, n, hn, hlasts n hbegun⟩
      rwa [Function.update_of_ne hut]
    · rw [Rests, Function.update_self]
      exact hrests

/-- Task `t` goes on, and the room does not see it. -/
theorem TalkRel.still (h : TalkRel room G w s)
    (hturn : ∀ turn phase, turn.roomId = room →
      (g'.2.turn? = some (turn, phase) ↔ (G t).2.turn? = some (turn, phase)))
    (hrests : (G t).2 = .silent ∨ (G t).2 = .absent → g'.2 = .silent ∨ g'.2 = .absent)
    (hlasts : ∀ n, Begun (.ofWorld w) n → Begun (.ofWorld w') n) :
    TalkRel room (Function.update G t g') w' s := by
  refine h.update (fun turn phase => ?_) (fun _ _ _ _ => Iff.rfl) (fun u hu => ?_) hlasts
  · rw [h.turn t turn phase]
    exact and_congr_left fun hroom => (hturn turn phase hroom).symm
  · by_cases hut : u = t
    · subst hut
      obtain ⟨hstage, n, hn, hbegun⟩ := h.served u hu
      exact .inr ⟨rfl, hrests hstage, n, hn, hlasts n hbegun⟩
    · exact .inl ⟨hu, hut⟩

/-- Task `t` goes on with a turn of another room. -/
theorem TalkRel.elsewhere (h : TalkRel room G w s) {turn : Turn} (hroom : turn.roomId ≠ room)
    (hold : ∀ turn' phase, (G t).2.turn? = some (turn', phase) → turn' = turn)
    (hnew : ∀ turn' phase, g'.2.turn? = some (turn', phase) → turn' = turn)
    (hrests : (G t).2 = .silent ∨ (G t).2 = .absent → g'.2 = .silent ∨ g'.2 = .absent)
    (hlasts : ∀ n, Begun (.ofWorld w) n → Begun (.ofWorld w') n) :
    TalkRel room (Function.update G t g') w' s := by
  refine h.still (fun turn' phase hroom' => iff_of_false (fun hturn => ?_) fun hturn => ?_) hrests
    hlasts
  · exact hroom (hnew turn' phase hturn ▸ hroom')
  · exact hroom (hold turn' phase hturn ▸ hroom')

/-- The room knows of the turn that a task has in it. -/
theorem TalkRel.turn_eq {b : Bool} {turn : Turn} {phase : Phase} (h : TalkRel room G w s)
    (hG : (G t).2 = .turn b turn phase) (hroom : turn.roomId = room) :
    s.turn = some (t, turn, phase) := by
  refine (h.turn t turn phase).mpr ⟨?_, hroom⟩
  rw [hG]
  rfl

/-- A task that may post answers in its turn, or makes a remark. -/
theorem TalkRel.says (h : TalkRel room G w s) (hspeaks : (G t).2.speaks = true) :
    s.Move (some (.said t)) s := by
  obtain ⟨turn?, served⟩ := s
  by_cases hturn : ∃ turn phase, turn? = some (t, turn, phase)
  · obtain ⟨turn, phase, rfl⟩ := hturn
    refine .answer t turn phase served ?_
    rwa [← SpeechStage.speaks_of_turn? ((h.turn t turn phase).mp rfl).1]
  · refine .remark _ t (fun turn phase heq => hturn ⟨turn, phase, heq⟩) fun hover => ?_
    exact not_rests_of_speaks hspeaks (h.served t hover)

/-- It is the turn of task `t`, which goes on. -/
theorem TalkRel.advance {served : List Tid} {old : Option (Tid × Turn × Phase)} {turn : Turn}
    {phase : Phase} (h : TalkRel room G w ⟨old, served⟩)
    (hold : ∀ u, u ≠ t → ∀ turn phase, old ≠ some (u, turn, phase)) (hrests : ¬ Rests G w t)
    (hg' : g'.2.turn? = some (turn, phase)) (hroom : turn.roomId = room)
    (hlasts : ∀ n, Begun (.ofWorld w) n → Begun (.ofWorld w') n) :
    TalkRel room (Function.update G t g') w' ⟨some (t, turn, phase), served⟩ := by
  refine h.update (fun turn' phase' => ?_) (fun u hut turn' phase' => ?_) (fun u hu => ?_) hlasts
  · rw [hg']
    simp only [Option.some.injEq, Prod.mk.injEq, true_and]
    exact ⟨fun heq => ⟨heq, heq.1 ▸ hroom⟩, And.left⟩
  · exact iff_of_false (by simp [Ne.symm hut]) (hold u hut turn' phase')
  · refine .inl ⟨hu, ?_⟩
    rintro rfl
    exact hrests (h.served u hu)

/-- A task that has a turn is the reconcile loop, or a handler that has begun. -/
theorem SpeechInv.handler (hinv : SpeechInv G w) {turn : Turn} {phase : Phase}
    (hturn : (G t).2.turn? = some (turn, phase)) (ht : t ≠ .reconcile) :
    ∃ n, t = .handler n ∧ Begun (.ofWorld w) n := by
  have hfits := hinv.fits t
  cases t with
  | handler n =>
    refine ⟨n, rfl, hinv.begun n fun habsent => ?_⟩
    rw [habsent] at hturn
    cases hturn
  | reconcile => exact absurd rfl ht
  | _ =>
    generalize (G _).2 = g at hfits hturn
    cases g with
    | turn b turn' phase' => exact hfits.elim
    | _ => cases hturn

/-- The turn of task `t` is over. -/
theorem TalkRel.finish {served : List Tid} {b : Bool} {turn : Turn} {phase : Phase}
    (h : TalkRel room G w ⟨some (t, turn, phase), served⟩) (hG : (G t).2 = .turn b turn phase)
    (hinv : SpeechInv G w) (hg' : g'.2 = SpeechStage.released b)
    (hlasts : ∀ n, Begun (.ofWorld w) n → Begun (.ofWorld w') n) :
    TalkRel room (Function.update G t g') w' (Talk.ended t served) := by
  -- Only the reconcile loop takes a turn again.
  have hfits : TakesTurns b t := by
    have hfits := hinv.fits t
    rwa [hG] at hfits
  refine h.update (fun turn' phase' => ?_) (fun u hut turn' phase' => ?_) (fun u hu => ?_) hlasts
  · refine iff_of_false (by simp [Talk.ended]) fun hboth => ?_
    have hturn := hboth.1
    rw [hg'] at hturn
    cases b <;> cases hturn
  · exact iff_of_false (by simp [Talk.ended]) (by simp [Ne.symm hut])
  -- Those served before have no turn, so `t` is not among them.
  · have hne : ∀ u ∈ served, u ≠ t := by
      rintro u hmem rfl
      exact not_rests_of_turn hG (h.served u hmem)
    rw [Talk.ended] at hu
    dsimp only at hu
    split at hu
    · exact .inl ⟨hu, hne u hu⟩
    · next hreconcile =>
      rcases List.mem_cons.mp hu with rfl | hold
      · obtain ⟨n, rfl, hbegun⟩ := hinv.handler (congrArg SpeechStage.turn? hG) hreconcile
        obtain rfl : b = false := hfits
        exact .inr ⟨rfl, .inl hg', n, rfl, hlasts n hbegun⟩
      · exact .inl ⟨hold, hne u hold⟩

/-- The turn of task `t` goes on; the room sees it if it is its own. -/
theorem TalkRel.goes {b : Bool} {turn : Turn} {phase phase' : Phase} {o : Option Sight}
    (h : TalkRel room G w s) (hG : (G t).2 = .turn b turn phase) (hg' : g'.2 = .turn b turn phase')
    (hmove : ∀ served, Talk.Move ⟨some (t, turn, phase), served⟩ o ⟨some (t, turn, phase'), served⟩)
    (hlasts : ∀ n, Begun (.ofWorld w) n → Begun (.ofWorld w') n) :
    turn.roomId ≠ room ∧ TalkRel room (Function.update G t g') w' s ∨
      turn.roomId = room ∧ ∃ s', s.Move o s' ∧ TalkRel room (Function.update G t g') w' s' := by
  -- In another room nothing is seen of the turn.
  by_cases hroom : turn.roomId = room
  · have hturn := h.turn_eq hG hroom
    obtain ⟨old, served⟩ := s
    dsimp only at hturn
    subst hturn
    refine .inr ⟨hroom, _, hmove served, h.advance (fun u hut => ?_) (not_rests_of_turn hG) ?_ hroom
      hlasts⟩
    · simp [Ne.symm hut]
    · rw [hg']
      rfl
  · refine .inl ⟨hroom, h.elsewhere hroom (fun turn' phase₁ hturn => ?_) (fun turn' phase₁ hturn =>
      ?_) (by simp [hG]) hlasts⟩
    · rw [hG] at hturn
      cases hturn
      rfl
    · rw [hg'] at hturn
      cases hturn
      rfl

/-- What an act of speech of a task does to the room. -/
theorem TalkRel.step {act : SpeechAct} (h : TalkRel room G w s) (hinv : SpeechInv G w)
    (hstep : SpeechStep (G t).2 act g'.2)
    (hfree : ∀ turn, act = .call turn → turn.roomId = room → s.turn = none)
    (hlasts : ∀ n, Begun (.ofWorld w) n → Begun (.ofWorld w') n) :
    (act.sight t room = none ∧ TalkRel room (Function.update G t g') w' s) ∨
      ∃ o s', s.Move o s' ∧ act.sight t room = o ∧
        TalkRel room (Function.update G t g') w' s' := by
  generalize hg : (G t).2 = g at hstep
  generalize hg₂ : g'.2 = g₂ at hstep
  cases hstep with
  | other | miss => exact .inl ⟨rfl, h.still (by simp [hg, hg₂]) (by simp [hg, hg₂]) hlasts⟩
  | unstarted b turn =>
    rcases h.goes hg hg₂ (.fail t turn) hlasts with ⟨-, hrel⟩ | ⟨-, s', hmove, hrel⟩
    · exact .inl ⟨rfl, hrel⟩
    · exact .inr ⟨none, s', hmove, rfl, hrel⟩
  | leave b turn outcome =>
    rcases h.goes hg hg₂ (.leave t turn outcome) hlasts with
      ⟨hroom, hrel⟩ | ⟨hroom, s', hmove, hrel⟩
    · exact .inl ⟨if_neg hroom, hrel⟩
    · exact .inr ⟨_, s', hmove, if_pos hroom, hrel⟩
  | note b turn row hrow =>
    have hrow' : row.roomId = turn.roomId := hrow.2.2
    rcases h.goes hg hg₂ (.note t turn row · hrow) hlasts with
      ⟨hroom, hrel⟩ | ⟨hroom, s', hmove, hrel⟩
    · exact .inl ⟨if_neg (hrow' ▸ hroom), hrel⟩
    · exact .inr ⟨_, s', hmove, if_pos (hrow' ▸ hroom), hrel⟩
  | say _ posted hspeaks =>
    -- a post of another room, or one that did not arrive, is not seen here
    have hsame : TalkRel room (Function.update G t g') w' s :=
      h.still (by simp [hg, hg₂]) (by simp [hg, hg₂]) hlasts
    by_cases hposted : posted = some room
    · subst hposted
      exact .inr ⟨some (.said t), s, h.says (hg ▸ hspeaks), if_pos rfl, hsame⟩
    · refine .inl ⟨?_, hsame⟩
      cases posted with
      | none => rfl
      | some r => exact if_neg fun heq => hposted (congrArg some heq)
  | call b turn =>
    by_cases hroom : turn.roomId = room
    · obtain ⟨turn?, served⟩ := s
      obtain rfl : turn? = none := hfree turn rfl hroom
      have hrests : ¬ Rests G w t := not_rests_of_speaks (by rw [hg]; rfl)
      have hnew : t ∉ served := fun hover => hrests (h.served t hover)
      refine .inr ⟨_, _, .call t turn served hnew, if_pos hroom, ?_⟩
      refine h.advance (by simp) hrests ?_ hroom hlasts
      rw [hg₂]
      rfl
    · refine .inl ⟨if_neg hroom, h.elsewhere hroom (fun turn' phase hturn => ?_) (fun turn' phase
        hturn => ?_) (by simp [hg]) hlasts⟩
      · rw [hg] at hturn
        cases hturn
      · rw [hg₂] at hturn
        cases hturn
        rfl
  | finish b turn phase hphase =>
    by_cases hroom : turn.roomId = room
    · have hturn := h.turn_eq hg hroom
      obtain ⟨old, served⟩ := s
      dsimp only at hturn
      subst hturn
      exact .inr ⟨none, _, .finish t turn phase served hphase, rfl, h.finish hg hinv hg₂ hlasts⟩
    · refine .inl ⟨rfl, h.elsewhere hroom (fun turn' phase' hturn => ?_) (fun turn' phase' hturn =>
        ?_) (by simp [hg]) hlasts⟩
      · rw [hg] at hturn
        cases hturn
        rfl
      · rw [hg₂, SpeechStage.turn?_released] at hturn
        cases hturn
  | release b =>
    refine .inl ⟨rfl, h.still (fun turn' phase' _ => ?_) (by simp [hg]) hlasts⟩
    rw [hg₂, SpeechStage.turn?_released, hg]
    simp [SpeechStage.turn?]

/-- The death of the process ends the turn of the room, and no task runs. -/
theorem TalkRel.died (h : TalkRel room G w s) (hinv : SpeechInv G w) :
    TalkRel room (fun _ => (.absent, .absent)) w.crashed s.died := by
  have hrests : ∀ u ∈ s.served, ∃ n, u = .handler n ∧ Begun (.ofWorld w.crashed) n := by
    intro u hu
    obtain ⟨-, n, hn, hbegun⟩ := h.served u hu
    exact ⟨n, hn, hbegun.crashed⟩
  obtain ⟨_ | ⟨v, turn, phase⟩, served⟩ := s
  · exact ⟨fun _ _ _ => by simp [Talk.died, SpeechStage.turn?], fun u hu =>
      ⟨.inr rfl, hrests u hu⟩⟩
  · refine ⟨fun _ _ _ => by simp [Talk.died, Talk.ended, SpeechStage.turn?], fun u hu =>
      ⟨.inr rfl, ?_⟩⟩
    rw [Talk.died, Talk.ended] at hu
    dsimp only at hu
    split at hu
    · exact hrests u hu
    · next hreconcile =>
      rcases List.mem_cons.mp hu with rfl | hold
      · have hturn := ((h.turn u turn phase).mp rfl).1
        obtain ⟨n, hn, hbegun⟩ := hinv.handler hturn hreconcile
        exact ⟨n, hn, hbegun.crashed⟩
      · exact hrests u hold

/-- A runner is called for a room that has no turn. -/
theorem turn_none_of_call (hlock : LockInv (fun u => (G u).1) w) (hinv : SpeechInv G w)
    (h : TalkRel room G w s) {turn : Turn} {g₁ : TurnStage} {g₂ : SpeechStage}
    (hturn : TurnStep config (G t).1 (.call turn) g₁) (hspeech : SpeechStep (G t).2 (.call turn) g₂)
    (hroom : turn.roomId = room) : s.turn = none := by
  rw [Option.eq_none_iff_forall_ne_some]
  rintro ⟨u, turn', phase⟩ hsome
  obtain ⟨hu, hroom'⟩ := (h.turn u turn' phase).mp hsome
  have hholds : (G t).1.room? = some turn.roomId := by
    generalize (G t).1 = g at hturn
    cases hturn
    rfl
  -- two tasks with a turn in one room have the same lock
  obtain rfl : t = u := by
    refine hlock.unique hholds ?_
    rw [hinv.paired u turn' phase hu, hroom, hroom']
  generalize (G t).2 = g at hspeech hu
  cases hspeech
  cases hu

end

/-- In every run, the dispatcher simulates the abstract room. -/
def talkSimulation (config : MatrixDispatcher.Config) (c : Machine.Config Tid Eff Eff.Ret World)
    (room : RoomId) : (speechInvariant config c).Simulation conversation where
  seen := sights room
  rel := TalkRel room
  effect := by
    intro G w w' t e a r g' s _ hI _ hrel _ hexec hnext
    obtain ⟨hturn, hspeech⟩ := Monitor.prod_next.mp hnext
    have hstep := SpeechStage.step_cases hspeech
    have hfree : ∀ turn, SpeechAct.of e r = .call turn → turn.roomId = room → s.turn = none := by
      intro turn hact hroom
      have hcall := TurnStage.step_cases hturn
      rw [call_of_speech hact] at hcall
      rw [hact] at hstep
      exact turn_none_of_call hI.1 hI.2 hrel hcall hstep hroom
    rcases hrel.step hI.2 hstep hfree fun n => begun_of_exec hexec with
      ⟨hnone, hrel'⟩ | ⟨o, s', hmove, ho, hrel'⟩
    · refine .inl ⟨?_, hrel'⟩
      rw [exec_sights hexec, hnone]
      rfl
    · refine .inr ⟨o, s', hmove, ?_, hrel'⟩
      rw [exec_sights hexec, ho]
  finish := by
    intro G w t s _ hrel hfinal
    refine hrel.still (fun turn phase _ => ?_) (fun _ => .inr rfl) fun _ => id
    have hnone : (G t).2.turn? = none := hfinal.2
    rw [hnone]
    rfl
  env := by
    intro G w w' a s _ hrel _ henv
    obtain ⟨m, -, hmoved⟩ := env_eq henv
    obtain ⟨htrace, hsame⟩ := moved_same hmoved
    have hinbox : w'.inbox = w.inbox :=
      hsame .inbox (by decide) (by decide) (by decide) (by decide)
    have hnext : w'.nextHandler = w.nextHandler :=
      hsame .nextHandler (by decide) (by decide) (by decide) (by decide)
    refine ⟨by rw [sights, sights, htrace], hrel.turn, fun u hu => ?_⟩
    obtain ⟨hstage, n, hn, hbegun⟩ := hrel.served u hu
    exact ⟨hstage, n, hn, hbegun.of_subset hnext fun item hitem => hinbox ▸ hitem⟩
  start := by
    intro G w w' t fiber a s hgood _ hrel _ hstart hidle
    obtain ⟨i, request, rfl, hitem, -, rfl⟩ := start_eq hstart
    have henter : ((bothCoverages config).enter (.pick i) w).2 =
        (speechCoverage config).enter request := (speechCoverage config).entered_eq hitem
    have hnone : ((speechCoverage config).enter request).turn? = none := by cases request <;> rfl
    have habsent : (G t).2.turn? = none := by
      rw [hidle]
      rfl
    refine ⟨rfl, hrel.update (fun turn phase => ?_) (fun _ _ _ _ => Iff.rfl) (fun u hu => .inl
      ⟨hu, ?_⟩) fun n hbegun => hbegun.of_subset rfl fun item hmem => List.eraseIdx_subset hmem⟩
    · rw [hrel.turn t turn phase, habsent, henter, hnone]
    · -- a handler that is over has begun, so it does not start again
      rintro rfl
      obtain ⟨-, n, rfl, hbegun⟩ := hrel.served u hu
      exact hbegun.2 request (List.mem_of_getElem? hitem)
  crash := by
    intro G w w' a s hI hrel _ hcrash
    obtain ⟨-, rfl⟩ := crash_eq hcrash
    exact ⟨some .died, s.died, .die s, rfl, hrel.died hI.2⟩

/-- Every run of the dispatcher shows, of each room, a path of the abstract room: one turn after the
other, with its answers and its approval. Once another task has called the runner, a handler that
had called it before is not seen again. The task whose turn it is has the lock of the room. -/
theorem room_serial {c : Machine.Config Tid Eff Eff.Ret World}
    (h : Reaches config (fun _ _ => True) c) (room : RoomId) :
    ∃ s, conversation.Path (sights room c.world) s ∧ Talk.Orderly (sights room c.world) s ∧
      ∀ t turn phase, s.turn = some (t, turn, phase) → (c.world.locks room).owner = some t := by
  have hinit : SpeechInv (fun _ => (.absent, .absent)) World.initial :=
    ⟨fun _ => trivial, fun _ _ _ hnone => (by cases hnone), fun n hn => absurd rfl hn⟩
  obtain ⟨G, s, ⟨hlock, hinv⟩, hpath, hrel⟩ := (talkSimulation config c room).refines h.past
    ⟨(turnCoverage config).good_initial, (speechCoverage config).good_initial⟩
    ⟨.idle fun _ => rfl, hinit⟩ rfl
    ⟨fun _ _ _ => by
        simp [conversation, Talk.empty, speechMonitor, Monitor.prod, SpeechStage.turn?],
      fun _ hover => (List.not_mem_nil hover).elim⟩
  refine ⟨s, hpath, Talk.orderly_of_path hpath, fun t turn phase hturn => ?_⟩
  obtain ⟨hstage, hroom⟩ := (hrel.turn t turn phase).mp hturn
  exact ((hlock room).owner t).mpr (hroom ▸ hinv.paired t turn phase hstage)

/-- The turn of the first session waits for an approval when the process dies, and the next process
resumes the session. -/
theorem room_serial_restarted : ∃ c, Reaches oneAgent (fun _ _ => True) c ∧
    (sights (lit "!room") c.world).filterMap Sight.task? =
      [.reconcile, .handler 0, .handler 0, .handler 0, .handler 0] ∧
    .died ∈ sights (lit "!room") c.world ∧
    ∃ s, conversation.Path (sights (lit "!room") c.world) s ∧
      Talk.Orderly (sights (lit "!room") c.world) s ∧
      ∀ t turn phase, s.turn = some (t, turn, phase) →
        (c.world.locks (lit "!room")).owner = some t := by
  obtain ⟨c, h, hgoal⟩ := reaches_of_play oneAgent
    (approving ++ [.step (.crash .done), .step (.start (.pick 0)), .go .main 7] ++ reconciling 15)
    (fun c => decide ((sights (lit "!room") c.world).filterMap Sight.task? =
        [.reconcile, .handler 0, .handler 0, .handler 0, .handler 0]) &&
      decide (.died ∈ sights (lit "!room") c.world))
    (fun _ _ (_ : true = true) => trivial) (by decide +kernel)
  obtain ⟨htasks, hdied⟩ := Bool.and_eq_true_iff.mp hgoal
  exact ⟨c, h, of_decide_eq_true htasks, of_decide_eq_true hdied, room_serial h (lit "!room")⟩

end MatrixDispatcher
