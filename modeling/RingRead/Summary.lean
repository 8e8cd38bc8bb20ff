import RingRead.Decimal.Shortest
import RingRead.Meter

/-!
# The summary of a run

What is printed when a run has ended: as lines for a reader, or as a JSON object. The rates
are derived from the counts and the elapsed time when they are asked for.
-/

namespace RingRead

/-- The version that summaries carry. -/
def version : String := "0.1.0"

/-- Why a run ended, if it has finished. -/
inductive StopReason where
  /-- The stop flag was raised. -/
  | signal
  /-- The time was over. -/
  | duration
  /-- The asked number of reads was completed. -/
  | readLimit
deriving DecidableEq, Repr

namespace StopReason

/-- The reason in a text summary. -/
def label : StopReason → String
  | signal => "Signal"
  | duration => "Duration"
  | readLimit => "ReadLimit"

/-- The reason in a JSON summary. -/
def key : StopReason → String
  | signal => "signal"
  | duration => "duration"
  | readLimit => "read_limit"

end StopReason

/-- The results of a run, as counts and times. Everything else that is printed is derived
from these. -/
structure RunSummary where
  queueDepth : UInt32
  blockSize : Nat
  /-- The seed of the block selection, where it is known. -/
  seed : Option UInt64 := none
  reads : Nat
  /-- The length of the run in nanoseconds. -/
  elapsed : Nat
  /-- The blocks of the pool at the end. -/
  poolBlocks : Nat
  stoppedBy : StopReason
deriving DecidableEq, Repr

namespace RunSummary

/-- The bytes that were read, a 64-bit count. It wraps where the product does not fit. -/
def bytes (s : RunSummary) : UInt64 := UInt64.ofNat (s.reads * s.blockSize)

/-- The length of the run in seconds, as it is printed. -/
def elapsedSeconds (s : RunSummary) : Float := seconds s.elapsed

/-- Completed reads for each second. -/
def readsPerSecond (s : RunSummary) : Float := rate (UInt64.ofNat s.reads).toFloat s.elapsed

/-- Mebibytes read for each second. -/
def mebibytesPerSecond (s : RunSummary) : Float := rate (s.bytes.toFloat / mebibyte) s.elapsed

/-- The summary in lines for a reader. -/
def lines (s : RunSummary) : List String :=
  let elapsed := Decimal.fixed 2 s.elapsedSeconds
  let iops := Decimal.fixed 2 (s.readsPerSecond / 1000.0)
  let bandwidth := Decimal.fixed 2 s.mebibytesPerSecond
  ["=== uring-randread summary ===",
    s!"queue depth:  {s.queueDepth}",
    s!"block size:   {s.blockSize} bytes"]
  ++ (s.seed.toList.map fun seed => s!"seed:         {seed}")
  ++ [s!"elapsed:      {elapsed} s",
    s!"reads:        {s.reads}",
    s!"IOPS:         {iops}K",
    s!"bandwidth:    {bandwidth} MiB/s",
    s!"pool blocks:  {s.poolBlocks}",
    s!"stopped by:   {s.stoppedBy.label}"]

/-- The summary as text. -/
def text (s : RunSummary) : String := "\n".intercalate s.lines

/-- The members of the JSON object in their order, each with its value as JSON text. A seed
that is not known is left out. -/
def members (s : RunSummary) : List (String × String) :=
  let quoted (text : String) := "\"" ++ text ++ "\""
  let number := Decimal.jsonNumber.ofFloat
  [("version", quoted version), ("queue_depth", toString s.queueDepth),
    ("block_size", toString s.blockSize)]
  ++ (s.seed.toList.map fun seed => ("seed", toString seed))
  ++ [("elapsed_secs", number s.elapsedSeconds), ("reads", toString s.reads),
    ("bytes", toString s.bytes), ("iops", number s.readsPerSecond),
    ("mib_per_sec", number s.mebibytesPerSecond), ("pool_blocks", toString s.poolBlocks),
    ("stopped_by", quoted s.stoppedBy.key)]

/-- The summary as JSON without blanks. -/
def json (s : RunSummary) : String :=
  "\x7b" ++ ",".intercalate (s.members.map fun (key, value) => "\"" ++ key ++ "\":" ++ value)
    ++ "\x7d"

/-- The summary as JSON with one member in a line, indented by two blanks. -/
def prettyLines (s : RunSummary) : List String :=
  let members := s.members.map fun (key, value) => "  \"" ++ key ++ "\": " ++ value
  "\x7b" :: (members.dropLast.map (· ++ ",") ++ members.getLast?.toList) ++ ["\x7d"]

/-- The summary as JSON in several lines, as the program prints it. -/
def pretty (s : RunSummary) : String := "\n".intercalate s.prettyLines

end RunSummary

end RingRead
