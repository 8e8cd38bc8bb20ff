import RingRead.Proofs.Engine.Steps
import RingRead.Proofs.Ring.Creation
import RingRead.Proofs.Simulation.Entering

/-!
# Rings on a simulated kernel

What the operations of a ring do when they find everything where the simulated kernel has
put it. The offsets are those that the kernel reports (`Ring.HasLayout`), so each access
hits the field that it is meant for, and the operations become operations on the queues:
staging writes entries (`Ring.stageAll_eq_kernel`), and taking gives the first entry of the
queue, if it is posted (`Ring.take_cases`).
-/

namespace RingRead

variable {k : SimulatedKernel} {rings : SimulatedRings} {n : UInt32} {queue : List Cqe}

/-! ## Words of the shared memory

The simulated kernel keeps its rings as a record, and answers a load at an offset with the
field that lies there. The lemmas say which field that is, and that a store sets it. -/

namespace SimulatedRings

/-- The words in front of the tables are there whatever the depth. -/
theorem hasWord_of_le (r : SimulatedRings) {region : Region} {offset : Nat}
    (hregion : region ≠ .submissionEntries) (halign : offset % 4 = 0) (hle : offset + 4 ≤ 24) :
    r.hasWord region offset := by
  refine ⟨halign, ?_⟩
  cases region with
  | submissionRing => exact Nat.le_trans hle (Nat.le_add_right 24 _)
  | submissionEntries => exact absurd rfl hregion
  | completionRing => exact Nat.le_trans hle (Nat.le_trans (by decide) (Nat.le_add_right 32 _))

theorem word?_submissionTail (r : SimulatedRings) : r.word? .submissionRing 4 = some r.sqTail :=
  if_pos (r.hasWord_of_le (by decide) (by decide) (by decide))

theorem word?_submissionMask (r : SimulatedRings) :
    r.word? .submissionRing 8 = some (r.entries - 1) :=
  if_pos (r.hasWord_of_le (by decide) (by decide) (by decide))

theorem word?_completionHead (r : SimulatedRings) : r.word? .completionRing 0 = some r.cqHead :=
  if_pos (r.hasWord_of_le (by decide) (by decide) (by decide))

theorem word?_completionTail (r : SimulatedRings) : r.word? .completionRing 4 = some r.cqTail :=
  if_pos (r.hasWord_of_le (by decide) (by decide) (by decide))

theorem word?_completionMask (r : SimulatedRings) :
    r.word? .completionRing 8 = some (r.cqEntries - 1) :=
  if_pos (r.hasWord_of_le (by decide) (by decide) (by decide))

theorem setWord_submissionTail (r : SimulatedRings) (tail : UInt32) :
    r.setWord .submissionRing 4 tail = { r with sqTail := tail } :=
  if_pos (r.hasWord_of_le (by decide) (by decide) (by decide))

theorem setWord_completionHead (r : SimulatedRings) (head : UInt32) :
    r.setWord .completionRing 0 head = { r with cqHead := head } :=
  if_pos (r.hasWord_of_le (by decide) (by decide) (by decide))

theorem setWord_completionTail (r : SimulatedRings) (tail : UInt32) :
    r.setWord .completionRing 4 tail = { r with cqTail := tail } :=
  if_pos (r.hasWord_of_le (by decide) (by decide) (by decide))

/-- Storing a word in the index array sets one index. Its offset is that of the array and
four bytes for each slot before. -/
theorem setWord_index (r : SimulatedRings) {slot : Nat} (h : slot < r.entries.toNat)
    (value : UInt32) :
    r.setWord .submissionRing (24 + 4 * slot) value =
      { r with index := r.index.setIfInBounds slot value } := by
  have hword : r.hasWord .submissionRing (24 + 4 * slot) := by
    refine ⟨by omega, ?_⟩
    change 24 + 4 * slot + 4 ≤ 24 + 4 * r.entries.toNat
    omega
  have hplace : (24 + 4 * slot - arrayOffset) / 4 = slot := by
    change (24 + 4 * slot - 24) / 4 = slot
    omega
  rw [setWord, if_pos hword, setSubmissionWord.eq_def]
  split
  · omega
  · omega
  · rw [if_neg (by change ¬24 + 4 * slot < 24; omega), hplace]

end SimulatedRings

namespace SimulatedKernel

variable {region : Region} {offset : Nat}

theorem load_of_word {value : UInt32} (h : k.rings = some rings)
    (hword : rings.word? region offset = some value) :
    Kernel.load k region offset = (value, k) := by
  change ((k.word? region offset).getD 0, k) = _
  rw [word?, h, Option.bind_some, hword, Option.getD_some]

theorem setWord_of_some (h : k.rings = some rings) (region : Region) (offset : Nat)
    (value : UInt32) :
    k.setWord region offset value =
      { k with rings := some (rings.setWord region offset value) } := by
  rw [setWord, h, Option.map_some]

theorem setEntry_of_some (h : k.rings = some rings) (number : Nat) (e : Sqe) :
    k.setEntry number e = { k with rings := some (rings.setEntry number e) } := by
  rw [setEntry, h, Option.map_some]

/-- An entry and its name in the index array are written in the slot of the position. These
are the two stores by which a ring stages an entry. -/
theorem store_staged (h : k.rings = some rings) (hdepth : Position.IsDepth rings.entries)
    (tail : UInt32) (e : Sqe) :
    Kernel.store (Kernel.storeEntry k (0 + 64 * (tail &&& (rings.entries - 1)).toNat) e)
        .submissionRing (24 + 4 * (tail &&& (rings.entries - 1)).toNat)
        (tail &&& (rings.entries - 1)) =
      { k with rings := some (rings.stage tail e) } := by
  have hlt := Position.slot_lt hdepth tail
  have hnumber : (0 + 64 * (tail &&& (rings.entries - 1)).toNat) / 64 =
      (tail &&& (rings.entries - 1)).toNat := by omega
  have hword := (rings.setEntry (tail &&& (rings.entries - 1)).toNat e).setWord_index hlt
    (tail &&& (rings.entries - 1))
  change (k.setEntry (_ / 64) e).setWord _ _ _ = _
  rw [hnumber, setEntry_of_some h, setWord_of_some rfl, hword]
  rfl

theorem loadEntry_eq (h : k.rings = some rings) (position : UInt32) :
    Kernel.loadEntry k (32 + 16 * (position &&& (rings.cqEntries - 1)).toNat) =
      (rings.completionAt position, k) := by
  have hplace : (32 + 16 * (position &&& (rings.cqEntries - 1)).toNat -
      SimulatedRings.entriesOffset) / 16 = (position &&& (rings.cqEntries - 1)).toNat := by
    change (32 + 16 * _ - 32) / 16 = _
    omega
  change (k.completionAt _, k) = _
  rw [completionAt, h, hplace]
  rfl

end SimulatedKernel

/-! ## Operations of a ring

With the offsets of `HasLayout`, each operation of a ring is one on the kernel's record.
What is left of the protocol is in the tables and indices. -/

namespace Ring

variable {r : Ring SimulatedKernel}

/-- The parts of a ring of `n` entries lie where the simulated kernel has them. The
completion queue has twice as many entries. With this, each load and store of a ring is a
look at one field of the kernel's rings, or sets one. -/
structure HasLayout (r : Ring SimulatedKernel) (n : UInt32) : Prop where
  sq_eq : r.sq = ⟨4, n - 1, n, 24, 0⟩
  cq_eq : r.cq = ⟨0, 4, 2 * n - 1, 2 * n, 32⟩

theorem submissionTail_eq (h : r.HasLayout n) (hrings : r.kernel.rings = some rings) :
    r.submissionTail = (rings.sqTail, r) := by
  have htail : r.sq.tailAt = 4 := congrArg SubmissionQueue.tailAt h.sq_eq
  rw [submissionTail, htail, SimulatedKernel.load_of_word hrings rings.word?_submissionTail]

theorem publishTail_eq (h : r.HasLayout n) (hrings : r.kernel.rings = some rings)
    (tail : UInt32) :
    r.publishTail tail =
      { r with kernel := { r.kernel with rings := some { rings with sqTail := tail } } } := by
  have htail : r.sq.tailAt = 4 := congrArg SubmissionQueue.tailAt h.sq_eq
  rw [publishTail, htail]
  change { r with kernel := r.kernel.setWord _ _ _ } = _
  rw [SimulatedKernel.setWord_of_some hrings, rings.setWord_submissionTail]

theorem stage_eq (h : r.HasLayout rings.entries) (hrings : r.kernel.rings = some rings)
    (hdepth : Position.IsDepth rings.entries) (tail : UInt32) (e : Sqe) :
    r.stage tail e =
      { r with kernel := { r.kernel with rings := some (rings.stage tail e) } } := by
  have hmask : r.sq.mask = rings.entries - 1 := congrArg SubmissionQueue.mask h.sq_eq
  have htable : r.sq.tableAt = 0 := congrArg SubmissionQueue.tableAt h.sq_eq
  have harray : r.sq.arrayAt = 24 := congrArg SubmissionQueue.arrayAt h.sq_eq
  simp only [stage, tableOffset, arrayOffset, submissionSlot, hmask, htable, harray]
  exact congrArg (fun kernel => { r with kernel })
    (SimulatedKernel.store_staged hrings hdepth tail e)

/-- Staging entries stages them in the kernel's rings, and does nothing else to the
kernel. -/
theorem stageAll_eq_kernel (h : r.HasLayout rings.entries) (hrings : r.kernel.rings = some rings)
    (hdepth : Position.IsDepth rings.entries) (tail : UInt32) (entries : List Sqe) :
    r.stageAll tail entries =
      { r with kernel := { r.kernel with rings := some (rings.stageAll tail entries) } } := by
  induction entries generalizing r rings tail with
  | nil =>
    rw [stageAll, SimulatedRings.stageAll, ← hrings]
  | cons e rest ih =>
    have hstage := stage_eq h hrings hdepth tail e
    have hlayout : (r.stage tail e).HasLayout (rings.stage tail e).entries :=
      hstage ▸ ⟨h.sq_eq, h.cq_eq⟩
    -- the rings change with each entry, but not their layout
    have hstaged : (r.stage tail e).kernel.rings = some (rings.stage tail e) := hstage ▸ rfl
    have hrest := ih hlayout hstaged hdepth (tail + 1)
    rw [stageAll, SimulatedRings.stageAll, hrest, hstage]

theorem completionHead_eq (h : r.HasLayout n) (hrings : r.kernel.rings = some rings) :
    r.completionHead = (rings.cqHead, r) := by
  have hhead : r.cq.headAt = 0 := congrArg CompletionQueue.headAt h.cq_eq
  rw [completionHead, hhead, SimulatedKernel.load_of_word hrings rings.word?_completionHead]

theorem completionTail_eq (h : r.HasLayout n) (hrings : r.kernel.rings = some rings) :
    r.completionTail = (rings.cqTail, r) := by
  have htail : r.cq.tailAt = 4 := congrArg CompletionQueue.tailAt h.cq_eq
  rw [completionTail, htail, SimulatedKernel.load_of_word hrings rings.word?_completionTail]

/-- As many completions are ready as were posted and not taken, since the distance of the
indices is their number. -/
theorem toNat_ready (h : r.HasLayout n) (hrings : r.kernel.rings = some rings) :
    r.ready.toNat = rings.unread.length := by
  simp only [ready, completionTail_eq h hrings, completionHead_eq h hrings,
    SimulatedRings.length_unread]

theorem entry_eq (h : r.HasLayout rings.entries) (hrings : r.kernel.rings = some rings)
    (position : UInt32) : r.entry position = (rings.completionAt position, r) := by
  have hmask : r.cq.mask = rings.cqEntries - 1 := congrArg CompletionQueue.mask h.cq_eq
  have hat : r.cq.entriesAt = 32 := congrArg CompletionQueue.entriesAt h.cq_eq
  have hload := SimulatedKernel.loadEntry_eq hrings position
  rw [entry, completionOffset, completionSlot, hmask, hat]
  change (let (e, kernel) := Kernel.loadEntry r.kernel (32 + 16 * _); (e, { r with kernel })) = _
  rw [hload]

theorem publishHead_eq (h : r.HasLayout n) (hrings : r.kernel.rings = some rings)
    (head : UInt32) :
    r.publishHead head =
      { r with kernel := { r.kernel with rings := some { rings with cqHead := head } } } := by
  have hhead : r.cq.headAt = 0 := congrArg CompletionQueue.headAt h.cq_eq
  rw [publishHead, hhead]
  change { r with kernel := r.kernel.setWord _ _ _ } = _
  rw [SimulatedKernel.setWord_of_some hrings, rings.setWord_completionHead]

/-- With nothing posted there is nothing to take. -/
theorem take_of_nil (h : r.HasLayout n) (hrings : r.kernel.rings = some rings)
    (hunread : rings.unread = []) : r.take = (.ok none, r) := by
  have hzero : rings.cqTail - rings.cqHead = 0 := by
    have hlength := rings.length_unread
    rw [hunread, List.length_nil] at hlength
    exact UInt32.toNat_inj.mp hlength.symm
  simp only [take, completionHead_eq h hrings, completionTail_eq h hrings, hzero, if_true]

/-- Of the completions that are posted, the oldest is taken. -/
theorem take_of_cons {c : Cqe} {rest : List Cqe} (h : r.HasLayout rings.entries)
    (hrings : r.kernel.rings = some rings)
    (hlength : rings.unread.length ≤ rings.cqEntries.toNat) (hunread : rings.unread = c :: rest) :
    { rings with cqHead := rings.cqHead + 1 }.unread = rest ∧
      r.take =
        (.ok (some c),
          { r with
            kernel := { r.kernel with
              rings := some { rings with cqHead := rings.cqHead + 1 } } }) := by
  have hentries : r.cq.entries = rings.cqEntries := congrArg CompletionQueue.entries h.cq_eq
  have hready : rings.cqTail - rings.cqHead ≠ 0 := by
    intro hzero
    rw [SimulatedRings.unread_eq_nil hzero] at hunread
    cases hunread
  -- the indices are not out of step, because the queue fits into the ring
  have hle : ¬rings.cqEntries < rings.cqTail - rings.cqHead := by
    rw [SimulatedRings.length_unread] at hlength
    exact UInt32.not_lt.mpr (UInt32.le_iff_toNat_le.mpr hlength)
  rw [SimulatedRings.unread_eq_cons hready] at hunread
  obtain ⟨hfirst, hrest⟩ := List.cons.inj hunread
  refine ⟨hrest, ?_⟩
  simp only [take, completionHead_eq h hrings, completionTail_eq h hrings, hready, hentries, hle,
    if_false, entry_eq h hrings, hfirst, publishHead_eq h hrings]

/-- What a ring finds when it looks for a completion: the first of the queue, or that none
of the queue is posted. -/
theorem take_cases (h : r.HasLayout n) (hqueues : r.kernel.Queues n queue) :
    (∃ c rest kernel, queue = c :: rest ∧ r.ready ≠ 0 ∧
      r.take = (.ok (some c), { r with kernel }) ∧ r.kernel.LeadsTo n rest kernel) ∨
    (r.ready = 0 ∧ r.take = (.ok none, r) ∧ r.kernel.pending = queue) := by
  obtain ⟨rings, hrings, rfl, hwf, hsettled, rfl, hlength⟩ := hqueues
  have hready := toNat_ready h hrings
  -- the queue is what is posted and then what is pending, so the first posted one is its head
  rw [List.length_append] at hlength
  cases hunread : rings.unread with
  | nil =>
    rw [hunread] at hready
    exact Or.inr ⟨UInt32.toNat_inj.mp hready, take_of_nil h hrings hunread, rfl⟩
  | cons c rest =>
    obtain ⟨hrest, htake⟩ := take_of_cons h hrings (by omega) hunread
    rw [hunread, List.length_cons] at hready hlength
    have hne : r.ready ≠ 0 := fun hzero => by
      rw [hzero] at hready
      cases hready
    refine Or.inl ⟨c, rest ++ r.kernel.pending, _, rfl, hne, htake, ⟨⟨_, rfl, rfl, ?_, ?_, ?_, ?_⟩,
      ⟨rfl, rfl, rfl, rfl, rfl⟩, rfl⟩⟩
    · exact hwf.of_positions ..
    · exact ⟨hsettled.consumed_eq, hsettled.sqHead_eq⟩
    · rw [hrest]
    · change (rest ++ r.kernel.pending).length ≤ rings.cqEntries.toNat
      rw [List.length_append]
      omega

end Ring

/-! ## Entering

An engine that enters its kernel keeps the new state of it and puts the bytes that came with
the answer into its pool. -/

namespace Engine

variable {e : Engine SimulatedKernel}

/-- The engine with its kernel in another state. Ring and pool keep what they know. -/
def onKernel (e : Engine SimulatedKernel) (kernel : SimulatedKernel) : Engine SimulatedKernel :=
  { e with ring.kernel := kernel }

/-- Entering the kernel, with what came back from it: the answer, and the bytes that have
arrived in the pool. -/
theorem enter_of_kernel {count least flags : UInt32} {answer : Except SystemError UInt32}
    {transfers : List Transfer} {kernel : SimulatedKernel}
    (h : e.ring.kernel.enter count flags = ⟨answer, transfers, kernel⟩) :
    e.enter count least flags =
      (answer, { e.onKernel kernel with pool := e.pool.receiveAll transfers }) := by
  have henter : Kernel.enter e.ring.kernel count least flags = ⟨answer, transfers, kernel⟩ := h
  simp only [Engine.enter, henter]
  rfl

end Engine

end RingRead
