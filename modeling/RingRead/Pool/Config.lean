/-!
# Pool configuration

All blocks of a pool have one size, the number of bytes of one read. A configuration is
checked before a pool is made from it; `PoolConfig.fault?` is the first rule that it breaks.
-/

namespace RingRead

/-- The bytes of a page: the unit in which memory is mapped. -/
def pageSize : Nat := 4096

/-- The block size and alignment of a pool. They are given by whoever makes the pool, and
need not fit together. -/
structure PoolConfig where
  /-- Bytes of a block. -/
  blockSize : Nat := 4096
  /-- The alignment that reads into a block need: a power of two, at most a page. -/
  alignment : Nat := 512
deriving DecidableEq, Repr

namespace PoolConfig

/-- The bytes that are mapped for one block: its size, rounded up to whole pages. What lies
behind the block on its last page belongs to nobody. -/
def mappedSize (c : PoolConfig) : Nat :=
  (c.blockSize + (pageSize - 1)) / pageSize * pageSize

/-- A rule that a configuration breaks. -/
inductive Fault where
  | alignmentNotPowerOfTwo
  | alignmentAbovePage (alignment : Nat)
  /-- A free block holds an eight-byte mark. -/
  | blockBelowMark (blockSize : Nat)
  | blockNotAligned (blockSize alignment : Nat)
  /-- The length of a read is a 32-bit number. -/
  | blockAboveWord
deriving DecidableEq, Repr

/-- The text of a fault, as it is shown to whoever has given the configuration. -/
def Fault.message : Fault → String
  | alignmentNotPowerOfTwo => "alignment must be power of 2"
  | alignmentAbovePage alignment => s!"alignment {alignment} exceeds page size {pageSize}"
  | blockBelowMark blockSize => s!"block_size {blockSize} cannot hold the free-block canary"
  | blockNotAligned blockSize alignment =>
    s!"block_size {blockSize} is not a multiple of alignment {alignment}"
  | blockAboveWord => "block_size must fit in 32 bits"

/-- The first rule that a configuration breaks, in the order in which they are looked at. -/
def fault? (c : PoolConfig) : Option Fault :=
  if 1 <<< c.alignment.log2 ≠ c.alignment then some .alignmentNotPowerOfTwo
  else if pageSize < c.alignment then some (.alignmentAbovePage c.alignment)
  else if c.blockSize < 8 then some (.blockBelowMark c.blockSize)
  else if c.blockSize % c.alignment ≠ 0 then some (.blockNotAligned c.blockSize c.alignment)
  else if UInt32.size ≤ c.blockSize then some .blockAboveWord
  else none

/-- The block sizes that a valid configuration admits. -/
theorem blockSize_bounds {c : PoolConfig} (hvalid : c.fault? = none) :
    8 ≤ c.blockSize ∧ c.blockSize < UInt32.size := by
  rw [fault?] at hvalid
  grind

/-- The default configuration breaks no rule. -/
theorem fault?_default : fault? {} = none := by decide

end PoolConfig

end RingRead
