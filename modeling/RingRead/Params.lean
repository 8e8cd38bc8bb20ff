import RingRead.Bytes.LittleEndian
import RingRead.Region

/-!
# Setup parameters

When a ring is created the kernel answers with 120 bytes of parameters: the depths of the
two queues, and where in its region each field of a queue lies. `Params.regionLength` says
how much of a region has to be mapped to reach all of it.
-/

namespace RingRead

/-- The largest submission depth that may be asked for. -/
def maxEntries : UInt32 := 32768

/-- The feature bit of kernels that serve both rings from one mapping. -/
def featureSingleMmap : UInt32 := 1

/-- Where the fields of the submission ring lie, in bytes from its start. -/
structure SubmissionOffsets where
  head : UInt32 := 0
  tail : UInt32 := 0
  ringMask : UInt32 := 0
  ringEntries : UInt32 := 0
  flags : UInt32 := 0
  dropped : UInt32 := 0
  array : UInt32 := 0
  reserved : UInt32 := 0
  userAddr : UInt64 := 0
deriving DecidableEq, Repr

/-- Where the fields of the completion ring lie, in bytes from its start. -/
structure CompletionOffsets where
  head : UInt32 := 0
  tail : UInt32 := 0
  ringMask : UInt32 := 0
  ringEntries : UInt32 := 0
  overflow : UInt32 := 0
  cqes : UInt32 := 0
  flags : UInt32 := 0
  reserved : UInt32 := 0
  userAddr : UInt64 := 0
deriving DecidableEq, Repr

/-- What the kernel reports about a ring that it created. The library uses the depths and
some of the offsets, and keeps the rest. -/
structure Params where
  sqEntries : UInt32 := 0
  cqEntries : UInt32 := 0
  flags : UInt32 := 0
  sqThreadCpu : UInt32 := 0
  sqThreadIdle : UInt32 := 0
  features : UInt32 := 0
  wqFd : UInt32 := 0
  reserved : UInt32 × UInt32 × UInt32 := (0, 0, 0)
  sqOff : SubmissionOffsets := {}
  cqOff : CompletionOffsets := {}
deriving DecidableEq, Repr

namespace Params

/-- The bytes of a region that have to be mapped: the submission ring ends with its index
array, the entry table has one entry for each slot, and the completion ring ends with its
entries. -/
def regionLength (p : Params) : Region → Nat
  | .submissionRing => p.sqOff.array.toNat + Layout.word.size * p.sqEntries.toNat
  | .submissionEntries => Layout.sqe.size * p.sqEntries.toNat
  | .completionRing => p.cqOff.cqes.toNat + Layout.cqe.size * p.cqEntries.toNat

/-- The 32-bit words in front of the two tables of offsets. -/
def leadingWords (p : Params) : List UInt32 :=
  [p.sqEntries, p.cqEntries, p.flags, p.sqThreadCpu, p.sqThreadIdle, p.features, p.wqFd,
    p.reserved.1, p.reserved.2.1, p.reserved.2.2]

end Params

namespace SubmissionOffsets

/-- The 32-bit words of the table. -/
def words (o : SubmissionOffsets) : List UInt32 :=
  [o.head, o.tail, o.ringMask, o.ringEntries, o.flags, o.dropped, o.array, o.reserved]

end SubmissionOffsets

namespace CompletionOffsets

/-- The 32-bit words of the table. -/
def words (o : CompletionOffsets) : List UInt32 :=
  [o.head, o.tail, o.ringMask, o.ringEntries, o.overflow, o.cqes, o.flags, o.reserved]

end CompletionOffsets

/-- The 120 bytes of the parameters, as the kernel writes them. -/
def Params.bytes (p : Params) : List UInt8 :=
  let words (ws : List UInt32) := ws.flatMap fun w => LittleEndian.encode 4 w.toNat
  words p.leadingWords
    ++ words p.sqOff.words ++ LittleEndian.encode 8 p.sqOff.userAddr.toNat
    ++ words p.cqOff.words ++ LittleEndian.encode 8 p.cqOff.userAddr.toNat

@[simp] theorem Params.length_bytes (p : Params) : p.bytes.length = 120 := by
  simp [bytes, leadingWords, SubmissionOffsets.words, CompletionOffsets.words]

end RingRead
