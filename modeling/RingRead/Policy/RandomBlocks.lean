import RingRead.Policy.Basic
import RingRead.Policy.Keystream

/-!
# Random blocks

Uniformly random block numbers from a generator that is determined by its seed. A 64-bit
draw times the number of blocks is a 128-bit product, whose high half is the block; its low
half says whether the choice may be biased, and then a second draw decides about a carry
into the high half.
-/

namespace RingRead

/-- A seeded source of random blocks: how far its stream has been used, and the seed that it
was made from. -/
structure RandomBlocks where
  stream : Keystream
  /-- The seed it was made from, for reports. -/
  seed : UInt64
deriving Repr

namespace RandomBlocks

/-- The sequence of a seed. -/
def seeded (seed : UInt64) : RandomBlocks := ⟨Keystream.ofSeed seed, seed⟩

/-- A number below `bound`, which is not zero. -/
def next (r : RandomBlocks) (bound : UInt64) : UInt64 × RandomBlocks :=
  let (draw, stream) := r.stream.nextDouble
  let product := draw.toNat * bound.toNat
  let high := product / UInt64.size
  let low := product % UInt64.size
  if (0 - bound).toNat < low then
    let (draw, stream) := stream.nextDouble
    let carry := if UInt64.size ≤ low + draw.toNat * bound.toNat / UInt64.size then 1 else 0
    (UInt64.ofNat (high + carry), { r with stream })
  else (UInt64.ofNat high, { r with stream })

/-- A number below `bound`, or nothing when there is no such number. -/
def next? (r : RandomBlocks) (bound : UInt64) : Option (UInt64 × RandomBlocks) :=
  if bound = 0 then none else some (r.next bound)

end RandomBlocks

instance : OffsetPolicy RandomBlocks := ⟨RandomBlocks.next⟩

end RingRead
