import RingRead.Decimal.Fixed

/-!
# Throughput

A meter counts completed reads and cuts them into reporting intervals. Times are readings of
a clock in nanoseconds; an earlier reading than the last one counts as no time passed.

Counts are numbers of any size here. `Meter.Fits` says that they are 64-bit numbers, as
those of a machine have to be: fewer than 2 ^ 64 reads get no further.
-/

namespace RingRead

/-- Nanoseconds in a second. -/
def nanosPerSecond : Nat := 1000000000

/-- A duration in seconds, as the sum of its whole seconds and the rest. -/
def seconds (nanos : Nat) : Float :=
  (UInt64.ofNat (nanos / nanosPerSecond)).toFloat
    + (UInt64.ofNat (nanos % nanosPerSecond)).toFloat / 1000000000.0

/-- An amount for each second of a duration; in no time at all, zero, since there is no rate
then. -/
def rate (amount : Float) (nanos : Nat) : Float :=
  let s := seconds nanos
  if s > 0.0 then amount / s else 0.0

/-- The bytes of a mebibyte. -/
def mebibyte : Float := 1048576.0

/-- Throughput over one reporting interval: what was counted, and in which time. -/
structure IntervalReport where
  /-- The reads in flight at its end. -/
  inFlight : UInt32
  /-- The reads completed in it. -/
  reads : Nat
  /-- Its length in nanoseconds. -/
  elapsed : Nat
  blockSize : Nat
deriving DecidableEq, Repr

namespace IntervalReport

/-- Completed reads for each second. -/
def readsPerSecond (r : IntervalReport) : Float :=
  rate (UInt64.ofNat r.reads).toFloat r.elapsed

/-- Mebibytes read for each second. -/
def mebibytesPerSecond (r : IntervalReport) : Float :=
  rate ((UInt64.ofNat r.reads).toFloat * (UInt64.ofNat r.blockSize).toFloat / mebibyte) r.elapsed

/-- A report in one line. -/
def text (r : IntervalReport) : String :=
  let reads := Decimal.fixed 2 (r.readsPerSecond / 1000.0)
  let bandwidth := Decimal.fixed 2 r.mebibytesPerSecond
  s!"in_flight: {r.inFlight}, read_blocks/s: {reads}K, read_bytes: {bandwidth} MiB/s"

end IntervalReport

/-- A count of completed reads, in total and since the last report, with the times that the
counts belong to. -/
structure Meter where
  blockSize : Nat
  /-- The length of an interval in nanoseconds. -/
  interval : Nat
  /-- When the meter was started. -/
  started : Nat
  /-- When the last interval ended. -/
  lastReport : Nat
  totalReads : Nat := 0
  intervalReads : Nat := 0
deriving DecidableEq, Repr

namespace Meter

/-- The counts of a meter are 64-bit numbers. -/
structure Fits (m : Meter) : Prop where
  totalReads_lt : m.totalReads < UInt64.size
  intervalReads_lt : m.intervalReads < UInt64.size

/-- A meter that starts at a given time. -/
def startingAt (blockSize interval now : Nat) : Meter :=
  { blockSize, interval, started := now, lastReport := now }

/-- Count one completed read, in total and in the interval. -/
def record (m : Meter) : Meter :=
  { m with totalReads := m.totalReads + 1, intervalReads := m.intervalReads + 1 }

/-- The time since the start. If the clock shows an earlier time, it is zero. -/
def elapsed (m : Meter) (now : Nat) : Nat := now - m.started

/-- Close the interval and report on it, if it has run its length. However late that is
noticed, there is one report, on all of the time. -/
def tick (m : Meter) (now : Nat) (inFlight : UInt32) : Option IntervalReport × Meter :=
  let elapsed := now - m.lastReport
  if elapsed < m.interval then (none, m)
  else
    (some { inFlight, reads := m.intervalReads, elapsed, blockSize := m.blockSize },
      { m with intervalReads := 0, lastReport := now })

end Meter

end RingRead
