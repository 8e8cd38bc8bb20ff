import RingRead.Proofs.Simulation.Attached

/-!
# Starting on a simulated kernel

What creation makes of a simulated kernel: rings with as many entries as the capacity
rounded up to a power of two, all of them where the ring expects them, and nothing in the
queues (`Ring.create_on_simulated`).

The indices of a new ring are zero, and all of the protocol has to work from any other
number as well. `SimulatedKernel.startAt` lets the completion indices start elsewhere.
-/

namespace RingRead

variable {k k' : SimulatedKernel} {capacity n : UInt32} {params : Params}

namespace SimulatedKernel

/-- The depths that a kernel makes are powers of two, and none is above the largest. -/
theorem isDepth_powerOfTwoFrom (h : capacity ≤ maxEntries) :
    Position.IsDepth (powerOfTwoFrom capacity) ∧ powerOfTwoFrom capacity ≤ maxEntries := by
  have hle : capacity.toNat ≤ 32768 := UInt32.le_iff_toNat_le.mp h
  rw [powerOfTwoFrom, Nat.one_shiftLeft]
  split
  · exact ⟨⟨0, rfl⟩, by decide⟩
  · next hone =>
    have hpos : 1 < capacity.toNat := UInt32.lt_iff_toNat_lt.mp (UInt32.not_le.mp hone)
    -- the largest depth is a power of two itself, so rounding up stays below it
    have hlog : (capacity.toNat - 1).log2 < 15 := (Nat.log2_lt (by omega)).mpr (by omega)
    have hpow : 2 ^ ((capacity.toNat - 1).log2 + 1) ≤ 2 ^ 15 :=
      Nat.pow_le_pow_right Nat.two_pos hlog
    have htoNat : (UInt32.ofNat (2 ^ ((capacity.toNat - 1).log2 + 1))).toNat =
        2 ^ ((capacity.toNat - 1).log2 + 1) :=
      UInt32.toNat_ofNat_of_lt' (show _ < 2 ^ 32 by omega)
    refine ⟨⟨_, htoNat⟩, UInt32.le_iff_toNat_le.mpr ?_⟩
    rw [htoNat]
    exact hpow

/-- A kernel on which a ring of `n` entries has just been set up. All its indices are zero
and its tables are empty. -/
def withRings (k : SimulatedKernel) (n : UInt32) : SimulatedKernel :=
  { k with rings := some { entries := n } }

/-- A kernel that accepts a capacity rounds it up to a depth, and reports where the parts of
such rings lie. -/
theorem setup_eq_ok (h : k.setup capacity = (.ok params, k')) :
    params = SimulatedRings.paramsOf (powerOfTwoFrom capacity) ∧
      k' = k.withRings (powerOfTwoFrom capacity) := by
  rw [setup] at h
  split at h
  · cases h
  · split at h
    · cases h
    · cases h
      exact ⟨rfl, rfl⟩

/-- Mapping a region does nothing to the kernel. -/
theorem map_snd (k : SimulatedKernel) (length : Nat) (selector : UInt64) :
    (k.map length selector).2 = k := by
  rw [map]
  split
  · rfl
  · split
    · rfl
    · rfl
    · split
      · rfl
      · rfl

/-- The kernel with both completion indices set to the same number. Nothing is unread then,
wherever that is. -/
def startAt (k : SimulatedKernel) (start : UInt32) : SimulatedKernel :=
  (k.setWord .completionRing 0 start).setWord .completionRing 4 start

theorem startAt_eq {rings : SimulatedRings} (h : k.rings = some rings) (start : UInt32) :
    k.startAt start =
      { k with rings := some { rings with cqHead := start, cqTail := start } } := by
  have hhead := setWord_of_some h .completionRing 0 start
  rw [rings.setWord_completionHead] at hhead
  rw [startAt, hhead, setWord_of_some rfl, SimulatedRings.setWord_completionTail]

/-- New rings are well-formed, and wherever their completion indices start nothing is
unread. -/
theorem wellFormed_startAt (hdepth : Position.IsDepth n) (hle : n ≤ maxEntries) (start : UInt32) :
    let rings : SimulatedRings := { entries := n, cqHead := start, cqTail := start }
    rings.WellFormed ∧ rings.unread = [] := by
  refine ⟨⟨hdepth, hle, ?_, ?_, ?_⟩, SimulatedRings.unread_eq_nil (UInt32.sub_self start)⟩
  · exact Array.size_replicate
  · exact Array.size_replicate
  · exact Array.size_replicate

/-- Wherever the indices of new rings start, the queue is empty. -/
theorem leadsTo_startAt (hdepth : Position.IsDepth n) (hle : n ≤ maxEntries)
    (hpending : k.pending = []) (start : UInt32) :
    k.LeadsTo n [] ((k.withRings n).startAt start) := by
  obtain ⟨hwf, hunread⟩ := wellFormed_startAt hdepth hle start
  rw [startAt_eq (k := k.withRings n) rfl start]
  refine ⟨⟨_, rfl, rfl, hwf, ⟨rfl, rfl⟩, ?_, Nat.zero_le _⟩, ⟨rfl, rfl, rfl, rfl, rfl⟩, rfl⟩
  rw [hunread]
  exact hpending

end SimulatedKernel

namespace Ring

/-- A located field lies where the kernel said. -/
theorem eq_of_locate {m : Mapping} {region : Region} {layout : Layout} {offset count found : Nat}
    (h : locate m region layout offset count = .ok found) : found = offset := by
  rw [locate] at h
  split at h
  · next hfound =>
    cases h
    exact (Mapping.locate_eq_some_iff.mp hfound).1
  · cases h

theorem negotiate_eq_ok (h : negotiate k capacity = .ok (params, k')) :
    params = SimulatedRings.paramsOf (SimulatedKernel.powerOfTwoFrom capacity) ∧
      k' = k.withRings (SimulatedKernel.powerOfTwoFrom capacity) := by
  rw [negotiate] at h
  split at h
  · cases h
  · next hsetup =>
    split at h
    · cases h
    · cases h
      exact SimulatedKernel.setup_eq_ok hsetup

theorem kernel_eq_of_mapRegion {region : Region} {m : Mapping}
    (h : mapRegion k params region = .ok (m, k')) : k' = k := by
  have hmap := k.map_snd (params.regionLength region) region.selector
  rw [mapRegion] at h
  split at h
  · cases h
  · next hok =>
    cases h
    exact (congrArg Prod.snd hok).symm.trans hmap

/-- The parts of the submission queue are located where the simulated kernel has put
them. -/
theorem submission_of_locate {rings : SimulatedRings} {m m' : Mapping} {sq : SubmissionQueue}
    (hrings : k.rings = some rings)
    (h : locateSubmission k (SimulatedRings.paramsOf rings.entries) m m' = .ok (sq, k')) :
    sq = ⟨4, rings.entries - 1, rings.entries, 24, 0⟩ ∧ k' = k := by
  have hload := SimulatedKernel.load_of_word hrings rings.word?_submissionMask
  obtain ⟨tailAt, htail, h⟩ := bind_eq_ok h
  obtain ⟨maskAt, hmask, h⟩ := bind_eq_ok h
  obtain rfl := eq_of_locate htail
  obtain rfl : maskAt = 8 := eq_of_locate hmask
  rw [hload] at h
  obtain ⟨arrayAt, harray, h⟩ := bind_eq_ok h
  obtain ⟨tableAt, htable, h⟩ := bind_eq_ok h
  obtain rfl := eq_of_locate harray
  obtain rfl := eq_of_locate htable
  cases h
  exact ⟨rfl, rfl⟩

/-- And so are those of the completion queue. -/
theorem completion_of_locate {rings : SimulatedRings} {m : Mapping} {cq : CompletionQueue}
    (hrings : k.rings = some rings)
    (h : locateCompletion k (SimulatedRings.paramsOf rings.entries) m = .ok (cq, k')) :
    cq = ⟨0, 4, 2 * rings.entries - 1, 2 * rings.entries, 32⟩ ∧ k' = k := by
  have hload := SimulatedKernel.load_of_word hrings rings.word?_completionMask
  obtain ⟨headAt, hhead, h⟩ := bind_eq_ok h
  obtain ⟨tailAt, htail, h⟩ := bind_eq_ok h
  obtain ⟨maskAt, hmask, h⟩ := bind_eq_ok h
  obtain rfl := eq_of_locate hhead
  obtain rfl := eq_of_locate htail
  obtain rfl : maskAt = 8 := eq_of_locate hmask
  rw [hload] at h
  obtain ⟨entriesAt, hentries, h⟩ := bind_eq_ok h
  obtain rfl := eq_of_locate hentries
  cases h
  exact ⟨rfl, rfl⟩

/-- A ring that was created on a simulated kernel has the kernel's layout, and all that has
happened to the kernel is that its rings were made. -/
theorem create_on_simulated {r : Ring SimulatedKernel} (h : create k capacity = .ok r) :
    let n := SimulatedKernel.powerOfTwoFrom capacity
    (Position.IsDepth n ∧ n ≤ maxEntries) ∧ r.HasLayout n ∧ r.kernel = k.withRings n ∧
      r.inFlight = 0 := by
  obtain ⟨k₁, k₂, k₃, k₄, k₅, ⟨-, hmax⟩, hnegotiate, hmap₁, hmap₂, hmap₃, hsq, hcq, -, hflight⟩ :=
    create_eq_ok h
  obtain ⟨hparams, rfl⟩ := negotiate_eq_ok hnegotiate
  obtain rfl := kernel_eq_of_mapRegion hmap₁
  obtain rfl := kernel_eq_of_mapRegion hmap₂
  obtain rfl := kernel_eq_of_mapRegion hmap₃
  let rings : SimulatedRings := { entries := SimulatedKernel.powerOfTwoFrom capacity }
  rw [hparams] at hsq hcq
  have hrings : (k.withRings (SimulatedKernel.powerOfTwoFrom capacity)).rings = some rings := rfl
  obtain ⟨hsubmission, rfl⟩ := submission_of_locate hrings hsq
  obtain ⟨hcompletion, hkernel⟩ := completion_of_locate hrings hcq
  exact ⟨SimulatedKernel.isDepth_powerOfTwoFrom hmax, ⟨hsubmission, hcompletion⟩, hkernel, hflight⟩

end Ring

end RingRead
