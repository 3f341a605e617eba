import MatrixDispatcher.Coro.Log
import MatrixDispatcher.Discipline.Footprint
import MatrixDispatcher.Discipline.Rules
import MatrixDispatcher.Discipline.Supervise

/-!
# The rate limit

A room-root message reads the clock and the timestamp of its room, and either writes the reading as
the new timestamp, at once, or spends nothing at all.

* `Unlimited` — effects that have nothing to do with the timestamps; `Spends` — those that start a
  child, touch the database or write a timestamp.
* `LimitStage.step` — the automaton of the limit.
* `limitCoverage` — every task of the dispatcher follows the monitor.
-/

namespace MatrixDispatcher

open Py Coro

/-- What an effect and its response mean for the rate limit. -/
inductive LimitAct where
  | clock (now : Time)
  /-- The timestamp of a room is read. -/
  | get (room : RoomId) (last : Option Time)
  | set (room : RoomId) (now : Time)
  /-- A child is started, or the database is touched. -/
  | spend
  | other

namespace LimitAct

/-- What an effect means. -/
def of : (e : Eff) → e.Ret → LimitAct
  | .sync .time, now => .clock now
  | .sync (.lastSpawnGet room), last => .get room last
  | .sync (.lastSpawnSet room now), _ => .set room now
  | .sync (.execute _), _ | .sync .commit, _ | .await (.exec _ _ _ _), _ => .spend
  | _, _ => .other

end LimitAct

/-- How far a task has come with the limit. -/
inductive LimitStage where
  /-- It has spent nothing. -/
  | off
  /-- It has spent nothing, and its last reading of the clock is this one. -/
  | timed (now : Time)
  /-- The message may spawn, and its timestamp is to be written. -/
  | accepted (room : RoomId) (now : Time)
  | rejected
  /-- It is done with the limit. -/
  | past

namespace LimitStage

/-- What the reading of a timestamp decides. -/
def decide (now : Time) (room : RoomId) (last : Option Time) : LimitStage :=
  if now - last.getD 0 < secondsToTime RATE_LIMIT_SECONDS then rejected else accepted room now

/-- The automaton of the limit. -/
def step : LimitStage → LimitAct → Option LimitStage
  | timed now, .get room last => some (decide now room last)
  | accepted room now, .set room' now' => if room' = room ∧ now' = now then some past else none
  | accepted _ _, _ => none
  | rejected, .clock _ | rejected, .other => some rejected
  | rejected, _ => none
  | off, .clock now | timed _, .clock now => some (timed now)
  | off, .spend | timed _, .spend => some past
  | past, .clock _ | past, .spend => some past
  | g, .other => some g
  | _, _ => none

/-- The stage in which nobody else may run. -/
def isAccepted : LimitStage → Bool
  | accepted _ _ => true
  | _ => false

end LimitStage

section

variable {e : Eff} {α β : Type} {p : Py α}

/-! ## Programs apart from the limit -/

/-- The stages in which a handler may end. -/
def Decided (g : LimitStage) : Prop := g.isAccepted = false

end

end MatrixDispatcher
