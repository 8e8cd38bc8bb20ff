import RingRead.Error

/-!
# The read target

The file or device that reads go to: a descriptor and a size, measured once when it is
opened. Reads only ever touch whole blocks, so a remainder shorter than a block is never
read.
-/

namespace RingRead

/-- An open file or device. The size is what it was when it was opened, and is not measured
again. -/
structure ReadTarget where
  descriptor : Int32
  /-- The size in bytes. -/
  size : UInt64
deriving DecidableEq, Repr

namespace ReadTarget

/-- The number of whole blocks; there is no answer for blocks of no bytes. -/
def blocks? (t : ReadTarget) (blockSize : Nat) : Option UInt64 :=
  if blockSize = 0 then none else some (UInt64.ofNat (t.size.toNat / blockSize))

/-- The number of whole blocks, none if blocks have no bytes. A target that is smaller than
a block has none either. -/
def blocks (t : ReadTarget) (blockSize : Nat) : UInt64 :=
  UInt64.ofNat (t.size.toNat / blockSize)

end ReadTarget

end RingRead
