import RingRead.Bytes.Basic
import RingRead.Error
import RingRead.Pool.Address
import RingRead.Pool.Config
import RingRead.Pool.Stats

/-!
# The recycling pool of blocks

A pool owns a growing table of blocks, all of one size. A block is in one of three states:
free, on a stack of free blocks; held, by whoever has its token; or loaned to the kernel,
which may write into it until the read completes.

* `allocate` pops the free stack, or has a new block mapped when the stack is empty;
* `release` gives a held block back, on top of the stack;
* `loan` hands a held block to the kernel, and `reclaim` takes it back by its tag.

**The mark.** The first word of a free block is `canary`. A block that comes off the stack
with any other word was written to while it was free: the allocation fails, and the block
stays off the stack for good, still counted as free by its state.

**The system is a parameter.** Whether there is memory for one more block is for the
operating system to say. A pool carries the answers to come (`Pool.mappings`), so what is
said of a pool holds for a system that refuses whenever it likes.

**Failure keeps the state.** Every operation returns its result beside the pool it leaves
behind, so that what a failed call did can be spoken about. Apart from the pop of a damaged
block, and from an answer of the system that is used up, a failed operation leaves the pool
as it was.
-/

namespace RingRead

/-- Where a block is. Every block is in one of three states, and an operation moves it from
one to the next. -/
inductive BlockState where
  /-- On the free stack, or taken off it damaged. -/
  | free
  /-- In the hands of whoever has the token. -/
  | held
  /-- Known to the kernel, until its read completes. -/
  | loaned
deriving DecidableEq, Repr

/-- A block: its state and its bytes. The bytes are there in all states, and may be written
to in each of them from outside. -/
structure Block where
  state : BlockState
  bytes : Bytes

/-- The right to one block: its number, and the serial of the pool that issued it. Nothing
tells two tokens for the same block apart, so an old one is as good as a new one. -/
structure Token where
  id : UInt32
  pool : UInt32
deriving DecidableEq, Repr

/-- The tag under which a block is known to the kernel: its number, as a 64-bit one. -/
def Token.tag (t : Token) : UInt64 := t.id.toUInt64

/-- Bytes that arrive at an address. There need not be a block there, and they need not
fit. -/
structure Transfer where
  address : UInt64
  piece : Bytes

/-- The word at the start of every free block. It is there to be found when the block is
taken again. -/
def canary : UInt64 := 0xdeadbeef

/-- What the system answers to mappings of memory, one after the other: an error, or nothing
if it does as it is asked. When the answers are used up, it always does. -/
abbrev MappingAnswers := List (Option SystemError)

/-- A pool of blocks. -/
structure Pool where
  /-- The number that the tokens of this pool carry. -/
  serial : UInt32
  config : PoolConfig := {}
  blocks : Array Block := #[]
  /-- The numbers of the free blocks, last released first. -/
  free : List UInt32 := []
  stats : PoolStats := {}
  /-- What the system will answer when it is asked to map memory for a block. -/
  mappings : MappingAnswers := []

namespace Pool

/-- An empty pool, if the configuration is valid. No memory is mapped before a block is
asked for. -/
def create (serial : UInt32) (config : PoolConfig) (mappings : MappingAnswers := []) :
    Except Error Pool :=
  match config.fault? with
  | some fault => .error (.invalidConfig fault.message)
  | none => .ok { serial, config, mappings }

/-- An empty pool with the default configuration. -/
def withDefaults (serial : UInt32) : Pool := { serial }

/-! ## Looking at a pool

What can be asked of a pool without changing it. A block is spoken of by its number, and a
number that no block has gets no answer. -/

/-- The bytes of a block. -/
def blockSize (p : Pool) : Nat := p.config.blockSize

/-- The number of blocks ever made. None is ever taken apart. -/
def size (p : Pool) : Nat := p.blocks.size

/-- No block was ever made. -/
def isEmpty (p : Pool) : Bool := p.blocks.isEmpty

/-- The number of blocks on the free stack. -/
def freeCount (p : Pool) : Nat := p.free.length

/-- The number of blocks that are not on the free stack. It is derived from the lists, and
not read off the statistics. -/
def inUse (p : Pool) : Nat := p.size - p.freeCount

/-- The state of a block, if the pool has it. -/
def state? (p : Pool) (id : Nat) : Option BlockState := p.blocks[id]?.map Block.state

/-- The bytes of a block, whatever its state. -/
def bytes? (p : Pool) (id : Nat) : Option Bytes := p.blocks[id]?.map Block.bytes

/-- The number of blocks in a state. -/
def count (p : Pool) (s : BlockState) : Nat := p.blocks.countP (·.state = s)

/-! ## Changing one block

All operations change one block at a time, and all go through `modify`. So do bytes from
outside, which arrive at an address and not at a block. -/

/-- Change one block; a number that the pool does not have changes nothing. -/
def modify (p : Pool) (id : Nat) (change : Block → Block) : Pool :=
  { p with blocks := p.blocks.modify id change }

/-- Bytes that arrive from outside at an address: they overwrite the block that the address
lies in, whatever its state, and what does not fit is dropped. -/
def receive (p : Pool) (t : Transfer) : Pool :=
  p.modify (Address.index t.address) fun b =>
    { b with bytes := b.bytes.overwrite (Address.offset t.address) t.piece }

/-- Several transfers, in order. A later one overwrites what an earlier one has brought. -/
def receiveAll (p : Pool) (transfers : List Transfer) : Pool := transfers.foldl receive p

/-! ## Allocating

A block comes from the free stack, or is made. The first can find it damaged, and the second
needs a number for it and memory. -/

/-- The token for a block of this pool, whatever the state of the block is. -/
def issue (p : Pool) (id : UInt32) : Token := ⟨id, p.serial⟩

/-- The error with which the system will refuse to map memory for the next block, if it
does. -/
def refusal? (p : Pool) : Option SystemError := p.mappings.head?.join

/-- The pool after the system has refused to map memory: its answer is used up. -/
def refused (p : Pool) : Pool := { p with mappings := p.mappings.tail }

/-- The pool after the system has mapped memory: with one more block, whose bytes are zero,
and which is held. -/
def grown (p : Pool) : Pool :=
  { p.refused with
    blocks := p.blocks.push ⟨.held, Bytes.zeros p.blockSize⟩
    stats := p.stats.recordFresh }

/-- Make a new block. There are no more of them than 32-bit numbers, and for each of them
the system has to map the memory. -/
def allocateFresh (p : Pool) : Except Error Token × Pool :=
  if p.size < UInt32.size then
    match p.refusal? with
    | some err => (.error (.alloc err), p.refused)
    | none => (.ok (p.issue (UInt32.ofNat p.size)), p.grown)
  else (.error (.poolExhausted p.size), p)

/-- The first word of a block, or zero if the pool does not have it. -/
def firstWord (p : Pool) (id : Nat) : UInt64 :=
  (p.blocks[id]?.map fun b => b.bytes.firstWord).getD 0

/-- Take a block: the one released last, or else a new one. Its first word is cleared, so
that the mark does not stay in a block that is held. -/
def allocate (p : Pool) : Except Error Token × Pool :=
  match p.free with
  | [] => p.allocateFresh
  | id :: rest =>
    let p := { p with free := rest }
    let found := p.firstWord id.toNat
    if found = canary then
      let p := p.modify id.toNat fun b => { b with state := .held, bytes := b.bytes.setFirstWord 0 }
      (.ok (p.issue id), { p with stats := p.stats.recordRecycled })
    else (.error (.canaryMismatch id found canary), p)

/-! ## Using a token

Every use of a token is checked. A call with a token that gives no right is an error and
changes nothing. -/

/-- Does the token give a right to a held block of this pool? A number that the pool does
not have, and a serial of another pool, make it a foreign one. -/
def check (p : Pool) (t : Token) : Except Error Unit :=
  match p.state? t.id.toNat with
  | none => .error (.foreignBuffer t.id)
  | some state =>
    if t.pool ≠ p.serial then .error (.foreignBuffer t.id)
    else if state = .held then .ok ()
    else .error (.doubleRelease t.id)

/-- Give a block back: it is marked and goes on top of the free stack. -/
def release (p : Pool) (t : Token) : Except Error Unit × Pool :=
  match p.check t with
  | .error e => (.error e, p)
  | .ok () =>
    let p := p.modify t.id.toNat fun b =>
      { b with state := .free, bytes := b.bytes.setFirstWord canary }
    (.ok (), { p with free := t.id :: p.free, stats := p.stats.recordRelease })

/-- The bytes of a held block, for whoever has its token. -/
def data (p : Pool) (t : Token) : Except Error Bytes :=
  match p.check t with
  | .error e => .error e
  | .ok () => .ok ((p.bytes? t.id.toNat).getD (Bytes.zeros 0))

/-- Write into a held block, from the byte `start` on. -/
def write (p : Pool) (t : Token) (start : Nat) (piece : Bytes) : Except Error Unit × Pool :=
  match p.check t with
  | .error e => (.error e, p)
  | .ok () =>
    (.ok (), p.modify t.id.toNat fun b => { b with bytes := b.bytes.overwrite start piece })

/-! ## Loans to the kernel

A block on loan is named by a tag on its way out and on its way back. The tag that comes
back is the kernel's word, so it is looked up. -/

/-- Hand a held block to the kernel: its tag and its address. It is not checked that the
block is held: this is done with blocks that were just allocated. -/
def loan (p : Pool) (t : Token) : (UInt64 × UInt64) × Pool :=
  ((t.tag, Address.ofIndex t.id), p.modify t.id.toNat fun b => { b with state := .loaned })

/-- Take back the block that a completion names. Only a tag that is the number of a loaned
block is known; no tag is cut down to 32 bits first. -/
def reclaim (p : Pool) (tag : UInt64) : Except Error Token × Pool :=
  if p.state? tag.toNat = some .loaned then
    (.ok (p.issue tag.toUInt32), p.modify tag.toNat fun b => { b with state := .held })
  else (.error (.unknownTag tag), p)

/-- A pool as text. -/
def inspect (p : Pool) : String :=
  inspectRecord "BufferPool"
    [("serial", toString p.serial),
      ("config",
        inspectRecord "PoolConfig"
          [("block_size", toString p.config.blockSize),
            ("alignment", toString p.config.alignment)]),
      ("blocks", toString p.size), ("free", toString p.freeCount),
      ("stats", p.stats.inspect)]

end Pool

end RingRead
