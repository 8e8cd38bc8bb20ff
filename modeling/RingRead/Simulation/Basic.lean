import RingRead.Kernel
import RingRead.Simulation.Rings
import RingRead.Target

/-!
# The simulated kernel

A kernel that serves reads from a file in memory. It consumes published entries when it is
entered, performs them at once, and posts their completions.

Its knobs are the ways in which a kernel may be slow, out of order or unhelpful: completions
can be deferred until a wait, reversed within a batch or withheld; the number of entries it
takes at a time can be limited; results can be given in advance; waits can be interrupted;
and setup or a mapping can be refused.
-/

namespace RingRead

/-- What a simulated kernel has done. The kernel itself never looks at these numbers. -/
structure SimulationCounters where
  /-- Times it was entered. -/
  enters : Nat := 0
  /-- Times it was entered to wait. -/
  waits : Nat := 0
  /-- Submission entries consumed. -/
  submitted : Nat := 0
  /-- Completions posted. -/
  completed : Nat := 0
  /-- Completions dropped because the ring was full. -/
  overflowed : Nat := 0
deriving DecidableEq, Repr

/-- A simulated kernel: the file that it serves, its rings, its knobs, and what is on its
way. -/
structure SimulatedKernel where
  file : Bytes
  rings : Option SimulatedRings := none
  /-- Refuse setup with this error number. -/
  failSetup : Option Int32 := none
  /-- Refuse to map the region of this selector. -/
  failMap : Option UInt64 := none
  /-- Post completions only during a wait. -/
  deferred : Bool := false
  /-- Complete each batch last entry first. -/
  reversed : Bool := false
  /-- Never post a completion. -/
  stalled : Bool := false
  /-- Consume no more entries than this at a time. -/
  acceptLimit : Option UInt32 := none
  /-- The results of the next reads, in place of what reading would give. -/
  injected : List Int32 := []
  /-- The number of waits that will be interrupted. -/
  interrupts : Nat := 0
  /-- Completions that were not posted yet, oldest first. -/
  pending : List Cqe := []
  counters : SimulationCounters := {}

namespace SimulatedKernel

/-! ## Outside control

What a test can tell the kernel, and files to serve. The results that are given in advance
are used up in order, by the reads that are performed next. -/

/-- Give the result of the next read. A positive number makes it a read of no more bytes
than that. -/
def inject (k : SimulatedKernel) (res : Int32) : SimulatedKernel :=
  { k with injected := k.injected ++ [res] }

/-- Interrupt one more wait. -/
def interrupt (k : SimulatedKernel) : SimulatedKernel :=
  { k with interrupts := k.interrupts + 1 }

/-- The file as a target to read from. -/
def target (k : SimulatedKernel) : ReadTarget := ⟨3, UInt64.ofNat k.file.size⟩

/-- A file of `blocks` blocks in which every byte of block `i` is the low byte of `i`. Short
blocks lie side by side in one segment, long ones are a segment each. -/
def patternedFile (blocks blockSize : Nat) : Bytes :=
  if blockSize < 4096 then
    .ofByteArray ((List.range blocks).foldl
      (fun file i => blockSize.repeat (·.push (UInt8.ofNat i)) file) .empty)
  else ⟨(List.range blocks).map fun i => .run blockSize (UInt8.ofNat i)⟩

theorem toList_data_repeat_push (file : ByteArray) (n : Nat) (byte : UInt8) :
    (n.repeat (·.push byte) file).data.toList = file.data.toList ++ List.replicate n byte := by
  induction n with
  | zero => simp [Nat.repeat]
  | succ n ih => simp [Nat.repeat, ih, List.replicate_succ']

/-- However its blocks are kept, a patterned file is its blocks in order. -/
theorem toList_patternedFile (blocks blockSize : Nat) :
    (patternedFile blocks blockSize).toList =
      (List.range blocks).flatMap fun i => List.replicate blockSize (UInt8.ofNat i) := by
  rw [patternedFile]
  split
  · rw [Bytes.toList_ofByteArray]
    induction blocks with
    | zero => rfl
    | succ blocks ih =>
      rw [List.range_succ, List.foldl_append, List.foldl_cons, List.foldl_nil,
        toList_data_repeat_push, ih, List.flatMap_append, List.flatMap_singleton]
  · simp [Bytes.toList, List.flatMap_map, Segment.toList]

/-! ## Performing operations

A read copies from the file at once, and its result is the number of bytes that were copied.
Where the file ends early, so does the copy. -/

/-- Perform one operation. A read takes the next result given in advance, if there is one: a
negative one or zero is its result as it stands, a positive one shortens it. -/
def perform (file : Bytes) (injected : List Int32) (e : Sqe) :
    Cqe × Option Transfer × List Int32 :=
  let copy (length : Nat) (injected : List Int32) :=
    let piece := file.slice e.off.toNat length
    let res := Int32.ofInt piece.size
    (({ userData := e.userData, res } : Cqe), some ⟨e.addr, piece⟩, injected)
  if e.opcode = opNop then ({ userData := e.userData }, none, injected)
  else if e.opcode = opRead then
    match injected with
    | [] => copy e.len.toNat []
    | res :: injected =>
      if res ≤ 0 then ({ userData := e.userData, res }, none, injected)
      else copy (min res.toInt.toNat e.len.toNat) injected
  else ({ userData := e.userData, res := -SystemError.einval }, none, injected)

/-- Perform operations in order. Each takes what the ones before have left of the results
that were given in advance. -/
def performAll (file : Bytes) :
    List Int32 → List Sqe → List Cqe × List Transfer × List Int32
  | injected, [] => ([], [], injected)
  | injected, e :: rest =>
    let (c, transfer, injected) := perform file injected e
    let (cs, transfers, injected) := performAll file injected rest
    (c :: cs, transfer.toList ++ transfers, injected)

/-! ## Consuming and posting

An operation is performed when its entry is consumed, and its completion is posted then or
later. In between it is pending. -/

/-- Consume and perform up to `limit` published entries; their completions are pending. -/
def consume (k : SimulatedKernel) (limit : UInt32) : UInt32 × List Transfer × SimulatedKernel :=
  match k.rings with
  | none => (0, [], k)
  | some rings =>
    let (count, entries, rings) := rings.consume limit
    let (completions, transfers, injected) := performAll k.file k.injected entries
    let completions := if k.reversed then completions.reverse else completions
    (count, transfers,
      { k with
        rings := some rings
        injected
        pending := k.pending ++ completions
        counters.submitted := k.counters.submitted + count.toNat })

/-- Post completions in order. Those that find the ring full are dropped. -/
def postAll : List Cqe → SimulatedRings → SimulationCounters → SimulatedRings × SimulationCounters
  | [], rings, counters => (rings, counters)
  | c :: rest, rings, counters =>
    if rings.isFull then
      postAll rest rings { counters with overflowed := counters.overflowed + 1 }
    else postAll rest (rings.post c) { counters with completed := counters.completed + 1 }

/-- Post everything that is pending, unless the kernel is stalled or has no rings. -/
def flush (k : SimulatedKernel) : SimulatedKernel :=
  if k.stalled then k
  else
    match k.rings with
    | none => k
    | some rings =>
      let (rings, counters) := postAll k.pending rings k.counters
      { k with rings := some rings, pending := [], counters }

/-- Post a completion that belongs to no submission. -/
def postRaw (k : SimulatedKernel) (c : Cqe) : SimulatedKernel :=
  flush { k with pending := k.pending ++ [c] }

/-! ## The calls of a kernel

The three calls, and the shared memory. The regions hold what the rings say, so a load is a
look at a field of theirs and a store sets one. -/

/-- The smallest power of two that is not below `n`, and for zero it is one. -/
def powerOfTwoFrom (n : UInt32) : UInt32 :=
  if n ≤ 1 then 1 else UInt32.ofNat (1 <<< ((n.toNat - 1).log2 + 1))

/-- Create rings of at least so many entries; the number is rounded up to a power of two. -/
def setup (k : SimulatedKernel) (entries : UInt32) : Except SystemError Params × SimulatedKernel :=
  match k.failSetup with
  | some errno => (.error (.os errno), k)
  | none =>
    if entries = 0 ∨ maxEntries < entries then (.error (.os SystemError.einval), k)
    else
      let rings : SimulatedRings := { entries := powerOfTwoFrom entries }
      (.ok rings.params, { k with rings := some rings })

/-- Map a region: no more of it than there is. -/
def map (k : SimulatedKernel) (length : Nat) (selector : UInt64) :
    Except SystemError Mapping × SimulatedKernel :=
  if k.failMap = some selector then (.error (.os SystemError.enomem), k)
  else
    match k.rings, Region.ofSelector? selector with
    | none, _ => (.error (.os SystemError.ebadf), k)
    | some _, none => (.error (.os SystemError.einval), k)
    | some rings, some region =>
      if rings.params.regionLength region < length then (.error (.os SystemError.einval), k)
      else (.ok ⟨length⟩, k)

/-- The word at an offset of a region, if there is one. -/
def word? (k : SimulatedKernel) (region : Region) (offset : Nat) : Option UInt32 :=
  k.rings.bind fun rings => rings.word? region offset

/-- Write the word at an offset of a region; where there is none, nothing changes. -/
def setWord (k : SimulatedKernel) (region : Region) (offset : Nat) (value : UInt32) :
    SimulatedKernel :=
  { k with rings := k.rings.map fun rings => rings.setWord region offset value }

/-- Write an entry of the submission table; a number that the table does not have changes
nothing. -/
def setEntry (k : SimulatedKernel) (number : Nat) (e : Sqe) : SimulatedKernel :=
  { k with rings := k.rings.map fun rings => rings.setEntry number e }

/-- The completion entry at an offset of the completion ring. Where there is none, it is an
empty one. -/
def completionAt (k : SimulatedKernel) (offset : Nat) : Cqe :=
  match k.rings with
  | none => {}
  | some rings => rings.completions[(offset - SimulatedRings.entriesOffset) / 16]?.getD {}

/-- Enter the kernel: it consumes entries and then, unless completions are deferred, posts
what is pending. A wait posts in any case, but an interrupted one ends before that. -/
def enter (k : SimulatedKernel) (toSubmit flags : UInt32) : Entered SimulatedKernel :=
  let k := { k with counters.enters := k.counters.enters + 1 }
  let limit := match k.acceptLimit with
    | none => toSubmit
    | some limit => min limit toSubmit
  let (taken, transfers, k) := k.consume limit
  if flags &&& enterGetEvents ≠ 0 then
    let k := { k with counters.waits := k.counters.waits + 1 }
    match k.interrupts with
    | 0 => ⟨.ok taken, transfers, k.flush⟩
    | interrupts + 1 => ⟨.error (.os SystemError.eintr), transfers, { k with interrupts }⟩
  else if k.deferred then ⟨.ok taken, transfers, k⟩
  else ⟨.ok taken, transfers, k.flush⟩

instance : Kernel SimulatedKernel where
  setup := setup
  map := map
  load k region offset := ((k.word? region offset).getD 0, k)
  store := setWord
  storeEntry k offset e := k.setEntry (offset / 64) e
  loadEntry k offset := (k.completionAt offset, k)
  enter k toSubmit _ flags := k.enter toSubmit flags
  patience k := k.interrupts

/-- A simulated kernel as text. -/
def inspect (k : SimulatedKernel) : String :=
  inspectRecord "SimKernel"
    [("file_len", toString k.file.size),
      ("stats",
        inspectRecord "SimStats"
          [("enters", toString k.counters.enters), ("waits", toString k.counters.waits),
            ("submitted", toString k.counters.submitted),
            ("completed", toString k.counters.completed),
            ("overflowed", toString k.counters.overflowed)])]

end SimulatedKernel

end RingRead
