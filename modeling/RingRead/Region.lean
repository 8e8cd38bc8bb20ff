/-!
# Regions shared with the kernel

A ring is shared with the kernel through three mapped regions. Each is asked for by a
selector, a fixed file offset, and is a run of bytes whose base address is aligned to eight.

**Locating a field.** `Mapping.locate` is the only way from an offset that the kernel
reported to an offset that may be used: the field must end inside the mapping and be aligned
for its type.
-/

namespace RingRead

/-- The three regions of a ring. Each has a mapping of its own, even if the kernel could
serve two of them from one. -/
inductive Region where
  /-- Indices of the submission ring and the array that names entries. -/
  | submissionRing
  /-- The table of submission entries. -/
  | submissionEntries
  /-- Indices of the completion ring and the completion entries themselves. -/
  | completionRing
deriving DecidableEq, Repr

namespace Region

/-- The name of a region in messages. -/
def description : Region → String
  | submissionRing => "submission ring"
  | submissionEntries => "submission entries"
  | completionRing => "completion ring"

/-- The file offset by which a region is asked for when it is mapped. -/
def selector : Region → UInt64
  | submissionRing => 0
  | submissionEntries => 0x10000000
  | completionRing => 0x08000000

/-- The region that a selector asks for, if it is one of the three. -/
def ofSelector? (selector : UInt64) : Option Region :=
  if selector = submissionRing.selector then some submissionRing
  else if selector = submissionEntries.selector then some submissionEntries
  else if selector = completionRing.selector then some completionRing
  else none

end Region

/-- The size of a value in memory and the alignment of its address, in bytes. -/
structure Layout where
  size : Nat
  align : Nat
deriving DecidableEq, Repr

/-- A 32-bit word: a ring index or an element of the index array. -/
def Layout.word : Layout := ⟨4, 4⟩

/-- A submission entry. -/
def Layout.sqe : Layout := ⟨64, 8⟩

/-- A completion entry. -/
def Layout.cqe : Layout := ⟨16, 8⟩

/-- A mapped region, known by its length in bytes. Its base address is a multiple of eight,
so an offset into it is aligned for a type exactly when the address is. -/
structure Mapping where
  length : Nat
deriving DecidableEq, Repr

/-- The offset of `count` values of a layout, if they end inside the mapping and are
aligned. -/
def Mapping.locate (m : Mapping) (layout : Layout) (offset count : Nat) : Option Nat :=
  if offset + layout.size * count ≤ m.length ∧ offset % layout.align = 0 then some offset else none

/-- Locating gives back the offset it was asked for, and only a usable one. -/
theorem Mapping.locate_eq_some_iff {m : Mapping} {layout : Layout} {offset count found : Nat} :
    m.locate layout offset count = some found ↔
      found = offset ∧ offset + layout.size * count ≤ m.length ∧ offset % layout.align = 0 := by
  simp only [locate]
  split <;> grind

end RingRead
