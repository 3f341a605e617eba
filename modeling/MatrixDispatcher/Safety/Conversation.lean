import MatrixDispatcher.Coro.Refinement
import MatrixDispatcher.Discipline.Speech

/-!
# The conversation of a room

A room as those in it see it: one turn after the other, each with its call of the runner, its
answers and its approval, and between them remarks of other tasks. This is a system without locks
and responses.

* `Sight` — what is seen of a room.
* `Talk`, `Talk.Move` — the abstract room, which has at most one turn at a time.
* `Talk.Orderly` — the answers of two turns are not mixed; `Talk.orderly_of_path` — on every path.
-/

namespace MatrixDispatcher

open Coro

variable {t : Tid}

/-- What is seen of a room. -/
inductive Sight where
  | called (t : Tid) (turn : Turn)
  | left (t : Tid) (outcome : Outcome)
  | said (t : Tid)
  /-- An approval is recorded. -/
  | noted (row : PendingRow)
  /-- The process died. -/
  | died
  deriving DecidableEq

/-- The task that is seen. -/
def Sight.task? : Sight → Option Tid
  | called t _ | left t _ | said t => some t
  | noted _ | died => none

/-- A room: its turn, with the task whose turn it is, and the tasks that have had theirs. -/
structure Talk where
  turn : Option (Tid × Turn × Phase)
  served : List Tid

namespace Talk

/-- Nobody has spoken yet. -/
def empty : Talk := ⟨none, []⟩

/-- The task `t` has had its turn. The reconcile loop may have another one. -/
def ended (t : Tid) (served : List Tid) : Talk :=
  ⟨none, if t = .reconcile then served else t :: served⟩

/-- The room after the death of the process, which ends the turn. -/
def died : Talk → Talk
  | ⟨some (t, _, _), served⟩ => ended t served
  | ⟨none, served⟩ => ⟨none, served⟩

/-- The moves of the room. -/
inductive Move : Talk → Option Sight → Talk → Prop
  | call (t turn served) (h : t ∉ served) :
    Move ⟨none, served⟩ (some (.called t turn)) ⟨some (t, turn, .running), served⟩
  /-- There is no child to attend to. -/
  | fail (t turn served) :
    Move ⟨some (t, turn, .running), served⟩ none ⟨some (t, turn, .unstarted), served⟩
  | leave (t turn outcome served) :
    Move ⟨some (t, turn, .running), served⟩ (some (.left t outcome))
      ⟨some (t, turn, .left outcome), served⟩
  /-- The task of the turn posts, after the runner has returned. -/
  | answer (t turn phase served) (h : phase.speaks = true) :
    Move ⟨some (t, turn, phase), served⟩ (some (.said t)) ⟨some (t, turn, phase), served⟩
  /-- Another task posts, which has not had its turn. -/
  | remark (s : Talk) (t) (h : ∀ turn phase, s.turn ≠ some (t, turn, phase))
    (hover : t ∉ s.served) : Move s (some (.said t)) s
  | note (t turn row served) (h : RowFits row turn) :
    Move ⟨some (t, turn, .left .result), served⟩ (some (.noted row))
      ⟨some (t, turn, .noted), served⟩
  | finish (t turn phase served) (h : phase ≠ .running) :
    Move ⟨some (t, turn, phase), served⟩ none (ended t served)
  | die (s) : Move s (some .died) s.died

end Talk

/-- The abstract room. -/
def conversation : Behaviour Talk Sight := ⟨.empty, Talk.Move⟩

namespace Talk

/-- Those who have had their turn stay so when another turn ends. -/
theorem mem_ended {served : List Tid} (h : t ∈ served) (u : Tid) : t ∈ (ended u served).served := by
  rw [ended]
  split
  · exact h
  · exact List.mem_cons_of_mem _ h

/-- It is the turn of the task, or the task has had its turn. -/
def Had (s : Talk) (t : Tid) : Prop := (∃ turn phase, s.turn = some (t, turn, phase)) ∨ t ∈ s.served

/-- A turn goes on, of this task or of another one. -/
theorem Had.goes {u : Tid} {turn : Turn} {phase : Phase} {served : List Tid}
    (h : Had ⟨some (u, turn, phase), served⟩ t) (phase' : Phase) :
    Had ⟨some (u, turn, phase'), served⟩ t := by
  rcases h with ⟨turn₀, phase₀, heq⟩ | hover
  · obtain ⟨rfl, -⟩ := Prod.mk.inj (Option.some.inj heq)
    exact .inl ⟨_, _, rfl⟩
  · exact .inr hover

/-- A turn ends, of this handler or of another task. -/
theorem Had.ended {u : Tid} {turn : Turn} {phase : Phase} {served : List Tid}
    (h : Had ⟨some (u, turn, phase), served⟩ t) (ht : t ≠ .reconcile) :
    (Talk.ended u served).Had t := by
  rcases h with ⟨turn₀, phase₀, heq⟩ | hover
  · -- only the reconcile loop may come again, so the handler is among those that are over
    obtain ⟨rfl, -⟩ := Prod.mk.inj (Option.some.inj heq)
    exact .inr (by simp [Talk.ended, ht])
  · exact .inr (mem_ended hover u)

/-- A handler that has had its turn does not get another one. -/
theorem Had.move {s s' : Talk} {o : Option Sight} (h : s.Had t) (ht : t ≠ .reconcile)
    (hmove : s.Move o s') : s'.Had t := by
  cases hmove with
  | call u turn served hu =>
    rcases h with ⟨turn₀, phase₀, heq⟩ | hover
    · cases heq
    · exact .inr hover
  | fail | leave | note => exact h.goes _
  | answer | remark => exact h
  | finish => exact h.ended ht
  | die s =>
    obtain ⟨_ | ⟨u, turn, phase⟩, served⟩ := s
    · exact h
    · exact h.ended ht

/-- A task that is over is not seen, and does not get a turn. -/
theorem Move.of_over {s s' : Talk} {o : Option Sight} (hover : t ∈ s.served)
    (hturn : ∀ turn phase, s.turn ≠ some (t, turn, phase)) (hmove : s.Move o s') :
    (∀ l, o = some l → l.task? ≠ some t) ∧ t ∈ s'.served ∧
      ∀ turn phase, s'.turn ≠ some (t, turn, phase) := by
  -- Who has the turn is not the task that is over.
  have hne : ∀ {u turn phase}, s.turn = some (u, turn, phase) → u ≠ t := by
    rintro u turn phase heq rfl
    exact hturn turn phase heq
  cases hmove with
  | call u turn served hu =>
    have hut : u ≠ t := by
      rintro rfl
      exact hu hover
    exact ⟨by simpa [Sight.task?] using hut, hover, by simpa using hut⟩
  | fail u turn served => exact ⟨by simp, hover, by simpa using hne rfl⟩
  | leave u turn outcome served =>
    exact ⟨by simpa [Sight.task?] using hne rfl, hover, by simpa using hne rfl⟩
  | answer u turn phase served hspeaks =>
    exact ⟨by simpa [Sight.task?] using hne rfl, hover, hturn⟩
  | remark s u hother hu =>
    have hut : u ≠ t := by
      rintro rfl
      exact hu hover
    exact ⟨by simpa [Sight.task?] using hut, hover, hturn⟩
  | note u turn row served hrow => exact ⟨by simp [Sight.task?], hover, by simpa using hne rfl⟩
  | finish u turn phase served hphase => exact ⟨by simp, mem_ended hover u, by simp [ended]⟩
  | die s =>
    obtain ⟨_ | ⟨u, turn, phase⟩, served⟩ := s
    · exact ⟨by simp [Sight.task?], hover, hturn⟩
    · exact ⟨by simp [Sight.task?], mem_ended hover u, by simp [died, ended]⟩

/-- What is seen has an order: once another task has called the runner, a handler that had called it
before is not seen again. -/
structure Orderly (ls : List Sight) (s : Talk) : Prop where
  apart : ∀ t ∈ s.served, ∀ turn phase, s.turn ≠ some (t, turn, phase)
  had : ∀ t turn, t ≠ .reconcile → .called t turn ∈ ls → s.Had t
  past : ∀ {after before t t' turn turn'}, ls = after ++ .called t' turn' :: before →
    .called t turn ∈ before → t ≠ .reconcile → t' ≠ t →
    t ∈ s.served ∧ ∀ l ∈ after, l.task? ≠ some t

/-- Where a task is over that was not, there is no turn. -/
theorem Move.over_cases {s s' : Talk} {o : Option Sight} (hmove : s.Move o s')
    (h : t ∈ s'.served) : t ∈ s.served ∨ s'.turn = none := by
  cases hmove with
  | finish => exact .inr rfl
  | die s =>
    obtain ⟨_ | ⟨u, turn, phase⟩, served⟩ := s
    · exact .inl h
    · exact .inr rfl
  | _ => exact .inl h

/-- Every move keeps the order. -/
theorem Orderly.move {ls : List Sight} {s s' : Talk} {o : Option Sight} (h : Orderly ls s)
    (hmove : s.Move o s') : Orderly (o.toList ++ ls) s' where
  apart := by
    intro t hover turn phase
    rcases hmove.over_cases hover with hold | hnone
    · exact (hmove.of_over hold (h.apart t hold)).2.2 turn phase
    · simp [hnone]
  had := by
    intro t turn ht hmem
    rcases List.mem_append.mp hmem with hnew | hold
    · obtain rfl : o = some (.called t turn) := Option.mem_toList.mp hnew
      cases hmove
      exact .inl ⟨_, _, rfl⟩
    · exact (h.had t turn ht hold).move ht hmove
  past := by
    intro after before t t' turn turn' hls hcalled ht hne
    -- For the sights before this move, the order is as it was.
    have hlater : ∀ {after'}, ls = after' ++ .called t' turn' :: before →
        (∀ l, o = some l → l.task? ≠ some t) ∧ t ∈ s'.served ∧ ∀ l ∈ after', l.task? ≠ some t := by
      intro after' hls'
      obtain ⟨hover, hquiet⟩ := h.past hls' hcalled ht hne
      obtain ⟨hnew, hover', -⟩ := hmove.of_over hover (h.apart t hover)
      exact ⟨hnew, hover', hquiet⟩
    cases o with
    | none => exact (hlater hls).2
    | some l =>
      rcases List.cons_eq_append_iff.mp hls with ⟨rfl, heq⟩ | ⟨after', rfl, hrest⟩
      · -- the other task is called in this move, so it is not the turn of the handler any more
        obtain ⟨rfl, rfl⟩ := List.cons.inj heq
        rcases (h.had t turn ht hcalled) with ⟨turn₀, phase, hturn⟩ | hover
        · cases hmove
          cases hturn
        · obtain ⟨-, hover', -⟩ := hmove.of_over hover (h.apart t hover)
          exact ⟨hover', fun _ hmem => by cases hmem⟩
      · obtain ⟨hnew, hover', hquiet⟩ := hlater hrest
        refine ⟨hover', fun l' hmem => ?_⟩
        rcases List.mem_cons.mp hmem with rfl | hmem
        · exact hnew _ rfl
        · exact hquiet l' hmem

/-- On every path there is order. -/
theorem orderly_of_path {ls : List Sight} {s : Talk} (h : conversation.Path ls s) :
    Orderly ls s := by
  have hnone : Orderly [] empty := by
    refine ⟨fun _ hover => (List.not_mem_nil hover).elim, fun _ _ _ hmem =>
      (List.not_mem_nil hmem).elim, fun hls => ?_⟩
    simp at hls
  exact h.keeps (I := Orderly) hnone fun _ horder hmove => horder.move hmove

end Talk

end MatrixDispatcher
