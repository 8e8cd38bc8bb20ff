/-!
# Offset policies

A policy chooses which block each read targets. It is a state that is asked for one block
after the other; the engine reduces the answer modulo the number of blocks, so any 64-bit
answer will do.

`Walker` takes the blocks in order and starts over at the end.
-/

namespace RingRead

/-- A way to choose blocks, one after the other. It knows the number of blocks and nothing
else of the target. -/
class OffsetPolicy (π : Type) where
  /-- The next choice for a target of so many blocks, which are never zero. -/
  next : π → (blocks : UInt64) → UInt64 × π

/-- Walks over the blocks in order: the position that it continues from, which may be that
behind the last block. -/
structure Walker where
  position : UInt64 := 0
deriving DecidableEq, Repr

namespace Walker

/-- The block at the current position, which is reduced to the given number of blocks
first. -/
def next (w : Walker) (blocks : UInt64) : UInt64 × Walker :=
  let block := w.position % blocks
  (block, ⟨block + 1⟩)

/-- The next block, or nothing when there are no blocks to choose from. -/
def next? (w : Walker) (blocks : UInt64) : Option (UInt64 × Walker) :=
  if blocks = 0 then none else some (w.next blocks)

end Walker

instance : OffsetPolicy Walker := ⟨Walker.next⟩

end RingRead
