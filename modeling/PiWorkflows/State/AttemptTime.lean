import Mathlib.Algebra.Order.Ring.Rat
import PiWorkflows.Lib.Table
import PiWorkflows.Lib.Trace

/-!
# Active time of attempts (`state/attempt-time.ts`)

The time a model works on an attempt is kept in intervals, of which one may be
open. A process remembers for each interval it has opened what its monotonic clock
said then (`anchors`), and only that process can measure the interval. The wall
clock dates the rows and decides nothing.

The calls run in a transaction of their own or in one around several of them.
What is rolled back is the table, not the anchors, which are memory of the
process. A call that throws in a surrounding transaction takes that one down too.
A crash leaves the table as it was last committed, and the next process has no
anchors and another monotonic clock.

A reading is made once a call: an attempt has at most one open interval, so no
call measures it twice. Times are exact numbers.
-/

namespace PiWorkflows

open Fallible

/-- The key of a row (`intervalKey`). -/
structure IntervalKey where
  attemptId : String
  intervalNumber : Nat
  deriving DecidableEq

/-- A row of `attempt_active_intervals`. -/
structure ActiveInterval where
  startedAt : Int
  observedAt : Int
  endedAt : Option Int := none
  elapsedMs : ℚ := 0

abbrev ActiveIntervals := Table IntervalKey ActiveInterval

/-- What the two clocks of `AttemptClock` say at a call. -/
structure ClockReading where
  now : Int
  monotonic : ℚ

/-- The table, the anchors of the process and the table as it was when the
surrounding transaction began. -/
structure AttemptTime where
  intervals : ActiveIntervals
  anchors : List (IntervalKey × ℚ) := []
  saved : Option ActiveIntervals := none

/-- `openIntervals`. -/
def openIntervals (intervals : ActiveIntervals) : List (IntervalKey × ActiveInterval) :=
  intervals.rows.filter fun e => decide (e.2.endedAt = none)

/-- `openIntervals().find((interval) => interval.attemptId === attemptId)`. -/
def openInterval (intervals : ActiveIntervals) (attemptId : String) :
    Option (IntervalKey × ActiveInterval) :=
  (openIntervals intervals).find? fun e => decide (e.1.attemptId = attemptId)

/-- `COALESCE(MAX(interval_number), 0) + 1`. -/
def nextIntervalNumber (intervals : ActiveIntervals) (attemptId : String) : Nat :=
  ((intervals.rows.filter fun e => decide (e.1.attemptId = attemptId)).map fun e => e.1.intervalNumber).foldl max 0 + 1

/-- `COALESCE(SUM(elapsed_ms), 0)` of an attempt, which its deadline is decided by. -/
def totalElapsed (intervals : ActiveIntervals) (attemptId : String) : ℚ :=
  (intervals.rows.map fun e => if e.1.attemptId = attemptId then e.2.elapsedMs else 0).sum

/-- `UPDATE … SET ended_at = observed_at WHERE … AND ended_at IS NULL`. -/
def closeIntervals (p : String → Bool) (intervals : ActiveIntervals) : ActiveIntervals :=
  intervals.updateWhere (fun key row => decide (row.endedAt = none) && p key.attemptId) fun row =>
    { row with endedAt := some row.observedAt }

namespace AttemptTime

variable (runIdOf : String → Option String) (time : AttemptTime)

/-- `start`. The `INSERT` needs the attempt to exist and, by
`attempt_active_intervals_open_idx`, to have no open interval. -/
def start (attemptId : String) (clock : ClockReading) : Except String AttemptTime :=
  match openInterval time.intervals attemptId with
  | some interval =>
      if (time.anchors.lookup interval.1).isSome then .ok time
      else .error
        "Recover the previous workflow server's active intervals before starting model work"
  | none => do
      let next := nextIntervalNumber time.intervals attemptId
      require ((runIdOf attemptId).isSome = true) "FOREIGN KEY constraint failed"
      let intervals ← orThrow "UNIQUE constraint failed: attempt_active_intervals"
        (time.intervals.insert? ⟨attemptId, next⟩
          { startedAt := clock.now, observedAt := clock.now })
      pure { time with
        intervals, anchors := Assoc.setKey ⟨attemptId, next⟩ clock.monotonic time.anchors }

/-- `sampleInterval`. -/
def sampleInterval (intervals : ActiveIntervals) (interval : IntervalKey × ActiveInterval)
    (clock : ClockReading) : Except String ActiveIntervals := do
  let anchor ← orThrow
    "Active interval belongs to a previous workflow server; recover it before sampling"
    (time.anchors.lookup interval.1)
  let elapsedMs := max (max interval.2.elapsedMs (clock.monotonic - anchor)) 0
  pure (intervals.updateWhere (fun key row => decide (key = interval.1 ∧ row.endedAt = none))
    fun row => { row with elapsedMs, observedAt := clock.now })

/-- `sample`. -/
def sample (clock : ClockReading) : Except String AttemptTime := do
  let nested := time.saved.isSome
  let active := openIntervals time.intervals
  let intervals ← active.foldlM (fun intervals interval =>
    time.sampleInterval intervals interval clock) time.intervals
  let anchors := if nested then time.anchors
    else time.anchors.filter fun anchor => decide (anchor.1 ∈ active.map Prod.fst)
  pure { time with intervals, anchors }

/-- `closeAttemptTime`. -/
def closeAttemptTime (attemptId : String) : AttemptTime :=
  { time with intervals := closeIntervals (fun id => decide (id = attemptId)) time.intervals }

/-- `closeRunTime`. -/
def closeRunTime (runId : String) : AttemptTime :=
  { time with
    intervals := closeIntervals (fun id => decide (runIdOf id = some runId)) time.intervals }

/-- `stop`. -/
def stop (attemptId : String) (clock : ClockReading) : Except String AttemptTime :=
  match openInterval time.intervals attemptId with
  | none => .ok time
  | some interval => do
      let intervals ← time.sampleInterval time.intervals interval clock
      pure (closeAttemptTime { time with intervals } attemptId)

/-- `recover`. -/
def recover : AttemptTime :=
  { time with intervals := closeIntervals (fun _ => true) time.intervals, anchors := [] }

/-- A call into this file. -/
inductive Call where
  | start (attemptId : String)
  | sample
  | stop (attemptId : String)
  | closeAttemptTime (attemptId : String)
  | closeRunTime (runId : String)
  | recover
  deriving DecidableEq

def perform (clock : ClockReading) : Call → Except String AttemptTime
  | .start attemptId => time.start runIdOf attemptId clock
  | .sample => time.sample clock
  | .stop attemptId => time.stop attemptId clock
  | .closeAttemptTime attemptId => .ok (time.closeAttemptTime attemptId)
  | .closeRunTime runId => .ok (time.closeRunTime runIdOf runId)
  | .recover => .ok time.recover

/-- The table as it was last committed. -/
def durable : ActiveIntervals :=
  time.saved.getD time.intervals

/-- The end of a surrounding transaction that is given up (`ROLLBACK`). -/
def rollback : AttemptTime :=
  { time with intervals := time.durable, saved := none }

end AttemptTime

/-- What happens to the records: a call, the two ends of a transaction around
calls, or the end of the process. -/
inductive TimeAction where
  | call (call : AttemptTime.Call)
  | begin
  | commit
  | rollback
  | crash
  deriving DecidableEq

structure TimeEvent where
  action : TimeAction
  clock : ClockReading

/-- One event. In a surrounding transaction a call that throws rolls it back. -/
def AttemptTime.step (runIdOf : String → Option String) (time : AttemptTime) (event : TimeEvent) :
    Except String AttemptTime :=
  match event.action with
  | .call call =>
      match time.perform runIdOf event.clock call with
      | .ok time' => .ok time'
      | .error message => if time.saved.isSome then .ok time.rollback else .error message
  | .begin => do
      require (time.saved = none) "cannot start a transaction within a transaction"
      pure { time with saved := some time.intervals }
  | .commit => do
      require (time.saved.isSome = true) "cannot commit - no transaction is active"
      pure { time with saved := none }
  | .rollback => do
      require (time.saved.isSome = true) "cannot rollback - no transaction is active"
      pure time.rollback
  | .crash => .ok { time.rollback with anchors := [] }

/-- The records after some events, from an empty table on. -/
def AttemptTime.run (runIdOf : String → Option String) (events : List TimeEvent) : AttemptTime :=
  Trace.served (AttemptTime.step runIdOf) { intervals := .empty } events

end PiWorkflows
