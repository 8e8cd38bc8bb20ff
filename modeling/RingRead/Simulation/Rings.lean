import RingRead.Entry
import RingRead.Params

/-!
# The memory of a simulated ring

The three regions of a ring as the simulated kernel keeps them: the indices, the index array
and the two tables of entries. Field offsets are those that current kernels report.

Seen as memory, a region is a sequence of 32-bit words; `word?` reads one, and `setWord`
writes one of those that belong to the user side: an index or a slot of the index array. The
other words of a region are constants or entries, and a write to one of them is not kept.
-/

namespace RingRead

/-- The regions of a simulated ring with `entries` submission slots and twice as many
completion slots. -/
structure SimulatedRings where
  entries : UInt32
  sqHead : UInt32 := 0
  sqTail : UInt32 := 0
  /-- The index array. -/
  index : Array UInt32 := Array.replicate entries.toNat 0
  /-- The table of submission entries. -/
  table : Array Sqe := Array.replicate entries.toNat {}
  cqHead : UInt32 := 0
  cqTail : UInt32 := 0
  /-- The completion entries. -/
  completions : Array Cqe := Array.replicate (2 * entries).toNat {}
  /-- The position up to which the kernel has consumed submissions. This is the kernel's
  own; the head in the shared region is a copy. -/
  consumed : UInt32 := 0
deriving Repr

namespace SimulatedRings

/-- The number of completion slots. -/
def cqEntries (r : SimulatedRings) : UInt32 := 2 * r.entries

/-- The submission ring's index array starts here. -/
def arrayOffset : Nat := 24

/-- The completion entries start here. -/
def entriesOffset : Nat := 32

/-- The parameters that describe a ring of so many entries. -/
def paramsOf (entries : UInt32) : Params where
  sqEntries := entries
  cqEntries := 2 * entries
  features := featureSingleMmap
  sqOff :=
    { head := 0, tail := 4, ringMask := 8, ringEntries := 12, flags := 16, dropped := 20,
      array := 24 }
  cqOff :=
    { head := 0, tail := 4, ringMask := 8, ringEntries := 12, overflow := 16, flags := 20,
      cqes := 32 }

/-- The parameters of a ring. -/
def params (r : SimulatedRings) : Params := paramsOf r.entries

/-- The word in four bytes of an entry. -/
def wordIn (bytes : List UInt8) (offset : Nat) : UInt32 :=
  UInt32.ofNat (LittleEndian.decode ((bytes.drop offset).take 4))

/-- Does a region have an aligned word at this offset? It has to end inside the region. -/
def hasWord (r : SimulatedRings) (region : Region) (offset : Nat) : Prop :=
  offset % 4 = 0 ∧ offset + 4 ≤ r.params.regionLength region

instance (r : SimulatedRings) (region : Region) (offset : Nat) :
    Decidable (r.hasWord region offset) :=
  inferInstanceAs (Decidable (_ ∧ _))

/-- The word at an offset of the submission ring. -/
def submissionWord (r : SimulatedRings) (offset : Nat) : UInt32 :=
  match offset with
  | 0 => r.sqHead
  | 4 => r.sqTail
  | 8 => r.entries - 1
  | 12 => r.entries
  | offset => if offset < arrayOffset then 0 else r.index[(offset - arrayOffset) / 4]?.getD 0

/-- The word at an offset of the table of submission entries. -/
def tableWord (r : SimulatedRings) (offset : Nat) : UInt32 :=
  wordIn (r.table[offset / 64]?.getD {}).bytes (offset % 64)

/-- The word at an offset of the completion ring. -/
def completionWord (r : SimulatedRings) (offset : Nat) : UInt32 :=
  match offset with
  | 0 => r.cqHead
  | 4 => r.cqTail
  | 8 => r.cqEntries - 1
  | 12 => r.cqEntries
  | offset =>
    if offset < entriesOffset then 0
    else
      let place := offset - entriesOffset
      wordIn (r.completions[place / 16]?.getD {}).bytes (place % 16)

/-- The word at an offset of a region, if there is one. -/
def word? (r : SimulatedRings) (region : Region) (offset : Nat) : Option UInt32 :=
  if r.hasWord region offset then
    some <| match region with
      | .submissionRing => r.submissionWord offset
      | .submissionEntries => r.tableWord offset
      | .completionRing => r.completionWord offset
  else none

/-- Write a word of the submission ring. -/
def setSubmissionWord (r : SimulatedRings) (offset : Nat) (value : UInt32) : SimulatedRings :=
  match offset with
  | 0 => { r with sqHead := value }
  | 4 => { r with sqTail := value }
  | offset =>
    if offset < arrayOffset then r
    else { r with index := r.index.setIfInBounds ((offset - arrayOffset) / 4) value }

/-- Write a word of the completion ring. -/
def setCompletionWord (r : SimulatedRings) (offset : Nat) (value : UInt32) : SimulatedRings :=
  match offset with
  | 0 => { r with cqHead := value }
  | 4 => { r with cqTail := value }
  | _ => r

/-- Write the word at an offset of a region; where there is none, nothing changes. -/
def setWord (r : SimulatedRings) (region : Region) (offset : Nat) (value : UInt32) :
    SimulatedRings :=
  if r.hasWord region offset then
    match region with
    | .submissionRing => r.setSubmissionWord offset value
    | .submissionEntries => r
    | .completionRing => r.setCompletionWord offset value
  else r

/-- Write an entry of the submission table; a number that the table does not have changes
nothing. -/
def setEntry (r : SimulatedRings) (number : Nat) (e : Sqe) : SimulatedRings :=
  { r with table := r.table.setIfInBounds number e }

/-! ## The kernel's side

What the kernel reads and writes of its rings. It takes the user's tail and head as they
are, and the entries as it finds them. -/

/-- The entry that a submission position names: its slot in the index array gives the number
of the entry, which is masked once more. -/
def entryAt (r : SimulatedRings) (position : UInt32) : Sqe :=
  let number := r.index[(position &&& (r.entries - 1)).toNat]?.getD 0
  r.table[(number &&& (r.entries - 1)).toNat]?.getD {}

/-- The entries at `count` positions from `position` on, in order. -/
def entriesFrom (r : SimulatedRings) : (count : Nat) → (position : UInt32) → List Sqe
  | 0, _ => []
  | count + 1, position => r.entryAt position :: r.entriesFrom count (position + 1)

/-- The entries that were published and not consumed: the distance between the tail and the
position that the kernel has come to. -/
def published (r : SimulatedRings) : UInt32 := r.sqTail - r.consumed

/-- Consume up to `limit` published entries, and publish how far the kernel has come. -/
def consume (r : SimulatedRings) (limit : UInt32) : UInt32 × List Sqe × SimulatedRings :=
  let count := min r.published limit
  let head := r.consumed + count
  (count, r.entriesFrom count.toNat r.consumed, { r with consumed := head, sqHead := head })

/-- Is there no room for another completion? The kernel goes by the two indices, of which
the user moves one. -/
def isFull (r : SimulatedRings) : Prop := r.cqEntries ≤ r.cqTail - r.cqHead

instance (r : SimulatedRings) : Decidable r.isFull :=
  inferInstanceAs (Decidable (_ ≤ _))

/-- Post a completion. In a full ring it would take the place of the oldest one. -/
def post (r : SimulatedRings) (c : Cqe) : SimulatedRings :=
  let slot := (r.cqTail &&& (r.cqEntries - 1)).toNat
  { r with completions := r.completions.setIfInBounds slot c, cqTail := r.cqTail + 1 }

end SimulatedRings

end RingRead
