/-!
# Addresses of blocks

A block is named to the kernel by the address of its memory. The address space is cut into
segments of `2 ^ 32` bytes, one for each block number, so blocks never overlap and an
address tells which block it lies in and how far from its start. Every segment starts on a
page.
-/

namespace RingRead.Address

/-- The address of the first byte of segment `index`. All block numbers have a segment. -/
def ofIndex (index : UInt32) : UInt64 := index.toUInt64 <<< 32

/-- The segment that an address lies in. -/
def index (address : UInt64) : Nat := address.toNat / UInt32.size

/-- The distance of an address from the start of its segment. -/
def offset (address : UInt64) : Nat := address.toNat % UInt32.size

theorem toNat_ofIndex (i : UInt32) : (ofIndex i).toNat = i.toNat * UInt32.size := by
  have h := i.toNat_lt
  simp only [ofIndex, UInt64.toNat_shiftLeft, UInt32.toNat_toUInt64]
  rw [Nat.shiftLeft_eq]
  apply Nat.mod_eq_of_lt
  show i.toNat * 4294967296 < 18446744073709551616
  omega

/-- The start of a segment lies in that segment, at distance zero. -/
@[simp] theorem index_ofIndex (i : UInt32) : index (ofIndex i) = i.toNat := by
  simp [index, toNat_ofIndex]

@[inherit_doc index_ofIndex, simp]
theorem offset_ofIndex (i : UInt32) : offset (ofIndex i) = 0 := by
  simp [offset, toNat_ofIndex]

end RingRead.Address
