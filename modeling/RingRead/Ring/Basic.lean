import RingRead.Kernel

/-!
# The ring

A ring has two queues in memory that is shared with the kernel. We write submission entries
and move the submission tail, the kernel writes completion entries and moves the completion
tail, and we move the completion head past what we have taken. All indices are 32-bit
numbers that run on and wrap; a position is a slot after masking.

**Creation admits only layouts that can be used.** The kernel reports where every field
lies. `Ring.create` takes nothing on trust: the depths have to fit together, every field has
to lie inside its mapping, aligned for its type, and the masks have to match the depths. A
`Ring` keeps the located offsets and the mappings that they were checked against.
-/

namespace RingRead

/-- Where the parts of the submission queue lie, with its mask and depth. The offsets are
located ones. -/
structure SubmissionQueue where
  /-- The offset of the tail, which we move. -/
  tailAt : Nat
  mask : UInt32
  entries : UInt32
  /-- The offset of the index array: its slots name the entries to consume. -/
  arrayAt : Nat
  /-- The offset of the table of entries, in the region of the entries. -/
  tableAt : Nat
deriving DecidableEq, Repr

/-- Where the parts of the completion queue lie, with its mask and depth. -/
structure CompletionQueue where
  /-- The offset of the head, which we move. -/
  headAt : Nat
  /-- The offset of the tail, which the kernel moves. -/
  tailAt : Nat
  mask : UInt32
  entries : UInt32
  /-- The offset of the completion entries. -/
  entriesAt : Nat
deriving DecidableEq, Repr

/-- A ring that is set up and mapped on a kernel. It keeps the mappings that its offsets
were checked against, and counts the operations that are in flight. -/
structure Ring (κ : Type) where
  sq : SubmissionQueue
  cq : CompletionQueue
  /-- The operations that were submitted and have not come back. -/
  inFlight : UInt32
  params : Params
  submissionRing : Mapping
  submissionEntries : Mapping
  completionRing : Mapping
  kernel : κ

namespace Ring

variable {κ : Type} [Kernel κ]

/-! ## Creation

A ring is created in steps, and each step that asks the kernel for something can change it.
The numbers that the kernel reports are compared with each other and with the lengths of the
mappings before the first of them is used. -/

/-- Locate a field of a region, or say by how much it lies outside. An offset that is not
aligned is refused in the same words. -/
def locate (m : Mapping) (region : Region) (layout : Layout) (offset count : Nat) :
    Except Error Nat :=
  match m.locate layout offset count with
  | some found => .ok found
  | none => .error (.regionBounds region offset (layout.size * count) m.length)

/-- Ask the kernel for a ring. Its depths must reach what was asked for, and there must be
at least as many completion as submission entries. -/
def negotiate (kernel : κ) (capacity : UInt32) : Except Error (Params × κ) :=
  match Kernel.setup kernel capacity with
  | (.error e, _) => .error (.setup e)
  | (.ok params, kernel) =>
    if params.sqEntries < capacity ∨ params.cqEntries < params.sqEntries then
      let sqEntries := params.sqEntries
      let cqEntries := params.cqEntries
      .error (.setup (.other ("kernel negotiated "
        ++ s!"sq_entries={sqEntries} cq_entries={cqEntries} for requested {capacity}")))
    else .ok (params, kernel)

/-- Map a region at the length that the parameters call for. The mapping may come back with
another length, which is the one that is checked against. -/
def mapRegion (kernel : κ) (params : Params) (region : Region) : Except Error (Mapping × κ) :=
  match Kernel.map kernel (params.regionLength region) region.selector with
  | (.error e, _) => .error (.mmap region e)
  | (.ok mapping, kernel) => .ok (mapping, kernel)

/-- Locate the parts of the submission queue and read its mask. -/
def locateSubmission (kernel : κ) (params : Params) (ring entries : Mapping) :
    Except Error (SubmissionQueue × κ) := do
  let region := Region.submissionRing
  let tailAt ← locate ring region .word params.sqOff.tail.toNat 1
  let maskAt ← locate ring region .word params.sqOff.ringMask.toNat 1
  let (mask, kernel) := Kernel.load kernel region maskAt
  let arrayAt ← locate ring region .word params.sqOff.array.toNat params.sqEntries.toNat
  let tableAt ← locate entries .submissionEntries .sqe 0 params.sqEntries.toNat
  return ({ tailAt, mask, entries := params.sqEntries, arrayAt, tableAt }, kernel)

/-- Locate the parts of the completion queue and read its mask. -/
def locateCompletion (kernel : κ) (params : Params) (ring : Mapping) :
    Except Error (CompletionQueue × κ) := do
  let region := Region.completionRing
  let headAt ← locate ring region .word params.cqOff.head.toNat 1
  let tailAt ← locate ring region .word params.cqOff.tail.toNat 1
  let maskAt ← locate ring region .word params.cqOff.ringMask.toNat 1
  let (mask, kernel) := Kernel.load kernel region maskAt
  let entriesAt ← locate ring region .cqe params.cqOff.cqes.toNat params.cqEntries.toNat
  return ({ headAt, tailAt, mask, entries := params.cqEntries, entriesAt }, kernel)

/-- Set up a ring of at least `capacity` submission slots and map it. Whatever is refused on
the way, no ring is left behind. -/
def create (kernel : κ) (capacity : UInt32) : Except Error (Ring κ) := do
  if capacity = 0 ∨ maxEntries < capacity then throw (.invalidCapacity capacity)
  let (params, kernel) ← negotiate kernel capacity
  let (submissionRing, kernel) ← mapRegion kernel params .submissionRing
  let (submissionEntries, kernel) ← mapRegion kernel params .submissionEntries
  let (completionRing, kernel) ← mapRegion kernel params .completionRing
  let (sq, kernel) ← locateSubmission kernel params submissionRing submissionEntries
  let (cq, kernel) ← locateCompletion kernel params completionRing
  if sq.mask ≠ sq.entries - 1 ∨ cq.mask ≠ cq.entries - 1 then
    let sqMask := hexText sq.mask.toNat
    let cqMask := hexText cq.mask.toNat
    throw (.setup (.other
      s!"ring masks {sqMask}/{cqMask} do not match entries {sq.entries}/{cq.entries}"))
  return {
    sq, cq, inFlight := 0, params, submissionRing, submissionEntries, completionRing, kernel }

/-! ## Depths

The depth is the kernel's, and the number of slots that are left follows from the count of
reads in flight. The kernel's own head is never read. -/

/-- The negotiated submission depth, which is at least what was asked for. -/
def capacity (r : Ring κ) : UInt32 := r.sq.entries

/-- The submission slots that are not in flight. The subtraction is one of 32-bit numbers;
it does not wrap as long as the count of reads in flight is right. -/
def available (r : Ring κ) : UInt32 := r.capacity - r.inFlight

/-! ## Shared indices

Each index has one side that writes it. We read the submission tail because it is ours, and
the completion tail because the kernel moves it. -/

/-- Read the submission tail. -/
def submissionTail (r : Ring κ) : UInt32 × Ring κ :=
  let (tail, kernel) := Kernel.load r.kernel .submissionRing r.sq.tailAt
  (tail, { r with kernel })

/-- Publish the submission tail: the kernel may consume every entry before it. -/
def publishTail (r : Ring κ) (tail : UInt32) : Ring κ :=
  { r with kernel := Kernel.store r.kernel .submissionRing r.sq.tailAt tail }

/-- Read the completion head. -/
def completionHead (r : Ring κ) : UInt32 × Ring κ :=
  let (head, kernel) := Kernel.load r.kernel .completionRing r.cq.headAt
  (head, { r with kernel })

/-- Read the completion tail. -/
def completionTail (r : Ring κ) : UInt32 × Ring κ :=
  let (tail, kernel) := Kernel.load r.kernel .completionRing r.cq.tailAt
  (tail, { r with kernel })

/-- Publish the completion head: the kernel may reuse every entry before it. -/
def publishHead (r : Ring κ) (head : UInt32) : Ring κ :=
  { r with kernel := Kernel.store r.kernel .completionRing r.cq.headAt head }

/-- The completions that the kernel has posted and that were not taken yet, going by the two
indices. -/
def ready (r : Ring κ) : UInt32 :=
  let (tail, r) := r.completionTail
  tail - r.completionHead.1

/-! ## Entries

A position becomes a slot by masking and an offset by multiplying. What is read and written
is always one whole entry or word. -/

/-- The submission slot of a ring position: the position, masked. -/
def submissionSlot (r : Ring κ) (position : UInt32) : Nat := (position &&& r.sq.mask).toNat

/-- The completion slot of a ring position: the position, masked. -/
def completionSlot (r : Ring κ) (position : UInt32) : Nat := (position &&& r.cq.mask).toNat

/-- The offset of the table entry for a ring position. -/
def tableOffset (r : Ring κ) (position : UInt32) : Nat :=
  r.sq.tableAt + Layout.sqe.size * r.submissionSlot position

/-- The offset of the index array's word for a ring position. -/
def arrayOffset (r : Ring κ) (position : UInt32) : Nat :=
  r.sq.arrayAt + Layout.word.size * r.submissionSlot position

/-- The offset of the completion entry for a ring position. -/
def completionOffset (r : Ring κ) (position : UInt32) : Nat :=
  r.cq.entriesAt + Layout.cqe.size * r.completionSlot position

/-- Write the entry for ring position `tail`, and name it in the index array. The kernel
does not look at it before the tail is published. -/
def stage (r : Ring κ) (tail : UInt32) (entry : Sqe) : Ring κ :=
  let entryAt := r.tableOffset tail
  let indexAt := r.arrayOffset tail
  let index := tail &&& r.sq.mask
  let kernel := Kernel.storeEntry r.kernel entryAt entry
  { r with kernel := Kernel.store kernel .submissionRing indexAt index }

/-- The completion entry at ring position `head`, as it stands there now. -/
def entry (r : Ring κ) (head : UInt32) : Cqe × Ring κ :=
  let (e, kernel) := Kernel.loadEntry r.kernel (r.completionOffset head)
  (e, { r with kernel })

/-- Take the next completion entry, if the kernel has posted one. Indices that claim more
entries than the queue has mean that the two sides disagree; then nothing is taken. -/
def take (r : Ring κ) : Except Error (Option Cqe) × Ring κ :=
  let (head, r) := r.completionHead
  let (tail, r) := r.completionTail
  let ready := tail - head
  if ready = 0 then (.ok none, r)
  else if r.cq.entries < ready then (.error (.ringDesync head tail r.cq.entries), r)
  else
    let (e, r) := r.entry head
    (.ok (some e), r.publishHead (head + 1))

/-- A ring as text. -/
def inspect (r : Ring κ) : String :=
  inspectRecord "Ring"
    [("sq_entries", toString r.params.sqEntries), ("cq_entries", toString r.params.cqEntries),
      ("in_flight", toString r.inFlight)]

end Ring

end RingRead
