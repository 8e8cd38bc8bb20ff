import RingRead.Engine.Reap
import RingRead.Engine.Submit
import RingRead.Failure
import RingRead.Summary

/-!
# A benchmark session

A session keeps the ring at its target occupancy. Each round looks whether it is time to
stop, then reaps what has completed, gives the blocks back, tops the submissions up again,
and reports on the throughput when an interval is over. When it is time to stop, the reads
in flight are waited for: there is no cancellation, and every block is back in the pool
before the summary.

**The surroundings are a parameter.** What a session cannot know about itself, the readings
of the clock and the stop flag, comes in as functions of how often the clock was read, so a
run is a pure function and holds for every clock and every moment of stopping.

**Three ways to end.** A run finishes, or a call of the engine fails and the run with it, or
a number overflows and the run breaks off. The last can happen to a run that is handed more
reads in flight than its depth: how many reads are missing is then a number below zero.
-/

namespace RingRead

/-! ## Configuration

What is checked about a configuration is checked before the run. The depth is not compared
with that of the ring, to which it is cut down. -/

/-- The configuration of a session. Limits that are not given do not stop it. -/
structure SessionConfig where
  /-- The number of reads to keep in flight; limited to the depth of the ring. -/
  queueDepth : UInt32 := 32
  /-- Stop after so many nanoseconds. -/
  duration : Option Nat := none
  /-- Stop after so many completed reads. -/
  maxReads : Option Nat := none
  /-- The length of a reporting interval in nanoseconds. -/
  interval : Nat := nanosPerSecond
deriving DecidableEq, Repr

namespace SessionConfig

/-- A rule that a configuration breaks. -/
inductive Fault where
  | noDepth
  | noInterval
  | noReads
deriving DecidableEq, Repr

/-- The text of a fault. -/
def Fault.message : Fault → String
  | noDepth => "queue depth must be at least 1"
  | noInterval => "report interval must be non-zero"
  | noReads => "read limit must be at least 1"

/-- The first rule that a configuration breaks, in the order in which they are looked at. -/
def fault? (c : SessionConfig) : Option Fault :=
  if c.queueDepth = 0 then some .noDepth
  else if c.interval = 0 then some .noInterval
  else if c.maxReads = some 0 then some .noReads
  else none

end SessionConfig

/-! ## Rounds

A round is a function of the session and of what the clock and the flag have shown when it
began. The loop around it only reads the clock and keeps the reports, so it can be one of a
pure run or one of a program. -/

/-- A session between two rounds: the engine, the policy that chooses blocks, and the meter
that counts. -/
structure Session (κ π : Type) where
  engine : Engine κ
  policy : π
  meter : Meter

namespace Session

variable {κ π : Type} [Kernel κ] [OffsetPolicy π]

/-- The number of reads that a session keeps in flight: what was asked for, limited to the
slots of the ring. -/
def depth (config : SessionConfig) (e : Engine κ) : UInt32 := min config.queueDepth e.capacity

/-- Why the session is to stop now, if it is. The stop flag comes before the time limit, and
that before the read limit. -/
def stopReason? (s : Session κ π) (config : SessionConfig) (now : Nat) (stop : Bool) :
    Option StopReason :=
  if stop then some .signal
  else if config.duration.any (· ≤ s.meter.elapsed now) then some .duration
  else if config.maxReads.any (· ≤ s.meter.totalReads) then some .readLimit
  else none

/-- Count completed reads and give their blocks back, one after the other. A read is counted
before its block is given back. -/
def releaseAll : List Completion → Session κ π → Except (Abort Failure) Unit × Session κ π
  | [], s => (.ok (), s)
  | done :: rest, s =>
    let s := { s with meter := s.meter.record }
    match s.engine.release done.token with
    | (.error err, engine) =>
      (.error (.failed ((Failure.ofError err).within "releasing buffer")), { s with engine })
    | (.ok (), engine) => releaseAll rest { s with engine }

/-- Reap what has completed, waiting for a first completion if reads are in flight. -/
def reapReady (s : Session κ π) : Except (Abort Failure) Unit × Session κ π :=
  match s.engine.drain .blocking with
  | (.error abort, engine) =>
    (.error (abort.map fun err => (Failure.ofError err).within "reaping completions"),
      { s with engine })
  | (.ok done, engine) => releaseAll done { s with engine }

/-- The number of reads to submit: up to the depth, but with a read limit no more than are
still missing beside those in flight. There is no such number if more reads are in flight
than the depth. -/
def want (s : Session κ π) (config : SessionConfig) (depth : UInt32) : Except Overflow UInt32 :=
  (checkedSub depth s.engine.inFlight).map fun missing =>
    match config.maxReads with
    | none => missing
    | some limit =>
      let remaining := limit - (s.meter.totalReads + s.engine.inFlight.toNat)
      min missing (UInt32.ofNat (min remaining (UInt32.size - 1)))

/-- Submit the reads that are wanted. For none the engine is not called, and where their
number is below zero nothing is done at all. -/
def topUp (s : Session κ π) (target : ReadTarget) (config : SessionConfig) (depth : UInt32) :
    Except (Abort Failure) Unit × Session κ π :=
  match s.want config depth with
  | .error operation => (.error (.overflow operation), s)
  | .ok want =>
    if want = 0 then (.ok (), s)
    else
      match s.engine.submitReads target want s.policy with
      | (.error err, engine, policy) =>
        (.error (.failed ((Failure.ofError err).within "submitting reads")),
          { s with engine, policy })
      | (.ok _, engine, policy) => (.ok (), { s with engine, policy })

/-- The work of one round: reap, then top up. What a reap brings back makes room for what is
submitted. -/
def exchange (s : Session κ π) (target : ReadTarget) (config : SessionConfig) (depth : UInt32) :
    Except (Abort Failure) Unit × Session κ π :=
  match s.reapReady with
  | (.error abort, s) => (.error abort, s)
  | (.ok (), s) => s.topUp target config depth

/-- Close the interval if it is over. The report says how many reads are in flight at this
moment. -/
def tick (s : Session κ π) (now : Nat) : Option IntervalReport × Session κ π :=
  let (report, meter) := s.meter.tick now s.engine.inFlight
  (report, { s with meter })

/-- Wait for the reads in flight, in at most so many rounds. Every round brings back at
least one, so as many rounds as reads in flight are enough. -/
def shutDownWithin : (rounds : Nat) → Session κ π → Except (Abort Failure) Unit × Session κ π
  | 0, s => (.ok (), s)
  | rounds + 1, s =>
    if s.engine.inFlight = 0 then (.ok (), s)
    else
      match s.reapReady with
      | (.error abort, s) => (.error abort, s)
      | (.ok (), s) => shutDownWithin rounds s

/-- Wait for all reads in flight, and count them. -/
def shutDown (s : Session κ π) : Except (Abort Failure) Unit × Session κ π :=
  s.shutDownWithin s.engine.inFlight.toNat

/-- What comes of a round once its calls are made. -/
inductive RoundEnd (κ π : Type) where
  /-- The session goes on, after a look at the clock for the end of an interval. -/
  | goesOn (s : Session κ π)
  /-- It was time to stop, and the reads in flight have been waited for. -/
  | stops (reason : StopReason) (s : Session κ π)
  /-- A call has come to no result. -/
  | aborts (abort : Abort Failure) (s : Session κ π)

/-- One round, begun when the clock shows `now`: stop if it is time to, and do the work
otherwise. All that a round leaves to its surroundings is to read the clock once more. -/
def round (s : Session κ π) (target : ReadTarget) (config : SessionConfig) (depth : UInt32)
    (now : Nat) (stop : Bool) : RoundEnd κ π :=
  match s.stopReason? config now stop with
  | some reason =>
    match s.shutDown with
    | (.error abort, s) => .aborts abort s
    | (.ok (), s) => .stops reason s
  | none =>
    match s.exchange target config depth with
    | (.error abort, s) => .aborts abort s
    | (.ok (), s) => .goesOn s

/-- The summary of a session that has ended. Whoever has chosen the seed adds it. -/
def summary (s : Session κ π) (depth : UInt32) (now : Nat) (stoppedBy : StopReason) :
    RunSummary where
  queueDepth := depth
  blockSize := s.engine.blockSize
  reads := s.meter.totalReads
  elapsed := s.meter.elapsed now
  poolBlocks := s.engine.pool.size
  stoppedBy

end Session

/-! ## Whole runs

A run has a bound on its rounds, so that it is a function also where it would go on for
ever. One that comes to the bound is unfinished, and has done what it has done. -/

/-- What surrounds a run: the clock, and the stop flag, which may also be raised by the
policy. Both are functions of how often the clock was read before. -/
structure Surroundings (π : Type) where
  clock : Nat → Nat
  stop : π → Nat → Bool := fun _ _ => false

/-- How a run ended. Only a run that has finished has a summary. -/
inductive RunOutcome where
  | finished (summary : RunSummary)
  | failed (failure : Failure)
  /-- A number has overflowed. -/
  | overflowed (operation : Overflow)
  /-- The rounds that it was given were used up. -/
  | unfinished
deriving DecidableEq, Repr

/-- The outcome of a run in which a call has come to no result. -/
def RunOutcome.ofAbort : Abort Failure → RunOutcome
  | .failed failure => .failed failure
  | .overflow operation => .overflowed operation

/-- A run and what it leaves behind. The engine can be used again, also after a run that
failed. -/
structure Run (κ π : Type) where
  outcome : RunOutcome
  engine : Engine κ
  policy : π
  /-- The reports on intervals, in order. -/
  reports : List IntervalReport
  /-- The rounds that were completed. -/
  rounds : Nat

namespace Run

variable {κ π : Type} [Kernel κ] [OffsetPolicy π]

/-- A run that ends with this outcome. -/
def ending (outcome : RunOutcome) (s : Session κ π) (reports : List IntervalReport)
    (rounds : Nat) : Run κ π :=
  { outcome, engine := s.engine, policy := s.policy, reports := reports.reverse, rounds }

/-- Rounds of a session, at most so many. The clock has been read `reading` times, `reports`
has the last report first, and `rounds` rounds are completed. -/
def loop (around : Surroundings π) (target : ReadTarget) (config : SessionConfig) (depth : UInt32) :
    (allowed : Nat) → (reading : Nat) → List IntervalReport → (rounds : Nat) → Session κ π → Run κ π
  | 0, _, reports, rounds, s => ending .unfinished s reports rounds
  | allowed + 1, reading, reports, rounds, s =>
    match s.round target config depth (around.clock reading) (around.stop s.policy reading) with
    | .aborts abort s => ending (.ofAbort abort) s reports rounds
    | .stops reason s =>
      let summary := s.summary depth (around.clock (reading + 1)) reason
      ending (.finished summary) s reports rounds
    | .goesOn s =>
      let (report, s) := s.tick (around.clock (reading + 1))
      loop around target config depth allowed (reading + 2) (report.toList ++ reports)
        (rounds + 1) s

end Run

/-- Run a benchmark on an engine until it is stopped, a limit is reached or a call fails, in
at most `allowed` rounds. -/
def Engine.run {κ π : Type} [Kernel κ] [OffsetPolicy π] (e : Engine κ) (target : ReadTarget)
    (config : SessionConfig) (policy : π) (around : Surroundings π) (allowed : Nat) : Run κ π :=
  let meter := Meter.startingAt e.blockSize config.interval (around.clock 0)
  let s : Session κ π := { engine := e, policy, meter }
  match config.fault? with
  | some fault => Run.ending (.failed (Failure.ofMessage fault.message)) s [] 0
  | none => Run.loop around target config (Session.depth config e) allowed 1 [] 0 s

end RingRead
