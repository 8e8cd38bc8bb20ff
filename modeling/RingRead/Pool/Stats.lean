import RingRead.Inspect

/-!
# Pool statistics

Counters of what a pool was asked for. A block that is popped from the free stack and found
damaged was never handed out and is counted nowhere.

Counters are numbers of any size here. `PoolStats.Fits` says that they are 64-bit numbers,
as those of a machine have to be: a run of fewer than 2 ^ 64 events gets no further.
-/

namespace RingRead

/-- Allocation counters of a pool. Three of them only ever grow, and two follow the blocks
that are handed out. -/
structure PoolStats where
  /-- Blocks that were newly made. -/
  fresh : Nat := 0
  /-- Allocations served from the free stack. -/
  recycled : Nat := 0
  /-- Blocks given back. -/
  releases : Nat := 0
  /-- Blocks handed out and not yet given back. -/
  inUse : Nat := 0
  /-- The largest number of blocks ever handed out at once. -/
  peakInUse : Nat := 0
deriving DecidableEq, Repr

namespace PoolStats

/-- Count one more block as handed out. -/
def handOut (s : PoolStats) : PoolStats :=
  { s with inUse := s.inUse + 1, peakInUse := max s.peakInUse (s.inUse + 1) }

/-- Count the allocation of a new block. -/
def recordFresh (s : PoolStats) : PoolStats :=
  { s.handOut with fresh := s.fresh + 1 }

/-- Count an allocation from the free stack. -/
def recordRecycled (s : PoolStats) : PoolStats :=
  { s.handOut with recycled := s.recycled + 1 }

/-- Count a block that was given back. The peak stays. -/
def recordRelease (s : PoolStats) : PoolStats :=
  { s with releases := s.releases + 1, inUse := s.inUse - 1 }

/-- All allocations, of new blocks and from the free stack. -/
def allocations (s : PoolStats) : Nat := s.fresh + s.recycled

/-- The counters are 64-bit numbers, and so is the number of allocations that is made of
them. -/
structure Fits (s : PoolStats) : Prop where
  allocations_lt : s.allocations < UInt64.size
  releases_lt : s.releases < UInt64.size
  inUse_lt : s.inUse < UInt64.size
  peakInUse_lt : s.peakInUse < UInt64.size

/-- The percentage of allocations that needed no new block; with no allocation at all,
100. -/
def reusePercentage (s : PoolStats) : Float :=
  let allocations := UInt64.ofNat s.allocations
  if allocations = 0 then 100.0
  else (UInt64.ofNat s.recycled).toFloat / allocations.toFloat * 100.0

/-- Statistics as text. -/
def inspect (s : PoolStats) : String :=
  inspectRecord "PoolStats"
    [("fresh", toString s.fresh), ("recycled", toString s.recycled),
      ("releases", toString s.releases), ("in_use", toString s.inUse),
      ("peak_in_use", toString s.peakInUse)]

end PoolStats

end RingRead
