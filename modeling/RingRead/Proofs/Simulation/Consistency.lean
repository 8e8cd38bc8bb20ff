import RingRead.Proofs.Engine.Steps
import RingRead.Proofs.Simulation.Attached

/-!
# Engines in step with a simulated kernel

`Engine.Consistent` ties everything together that an engine and a simulated kernel know
about the reads between them. It is stated for a list of outstanding reads, oldest first:

* the kernel's queue has a completion for each of them, in this order, and none besides;
* their blocks are all different, and on loan;
* there are as many as are counted in flight, and no more than submission slots.

`Engine.Keeps` says what a call leaves as it is, whatever it does to the outstanding reads:
blocks that somebody holds keep their contents.
-/

namespace RingRead

/-! ## Pools

To keep a pool is to leave everything alone that a holder of blocks could see. The free
stack and the blocks on loan are left out: they are what calls are there to change. -/

namespace Pool

variable {p p' p'' : Pool}

/-- Blocks that are held stay held, with the same bytes, and none is lost. What the system
has yet to answer is the rest of what it had to answer before. -/
structure Keeps (p p' : Pool) : Prop where
  state_eq : ∀ id, p.state? id = some .held → p'.state? id = some .held
  bytes_eq : ∀ id, p.state? id = some .held → p'.bytes? id = p.bytes? id
  serial_eq : p'.serial = p.serial
  config_eq : p'.config = p.config
  size_le : p.size ≤ p'.size
  mappings_suffix : p'.mappings <:+ p.mappings

theorem Keeps.refl (p : Pool) : p.Keeps p :=
  ⟨fun _ h => h, fun _ _ => rfl, rfl, rfl, Nat.le_refl _, List.suffix_refl _⟩

theorem Keeps.trans (h : p.Keeps p') (h' : p'.Keeps p'') : p.Keeps p'' := by
  refine ⟨?_, ?_, h'.serial_eq.trans h.serial_eq, h'.config_eq.trans h.config_eq,
    Nat.le_trans h.size_le h'.size_le, h'.mappings_suffix.trans h.mappings_suffix⟩
  · intro id hheld
    exact h'.state_eq id (h.state_eq id hheld)
  · intro id hheld
    exact (h'.bytes_eq id (h.state_eq id hheld)).trans (h.bytes_eq id hheld)

/-- A move of blocks that nobody holds leaves alone those that somebody does. -/
theorem Moves.keeps {ids : List Nat} {s : BlockState} (h : p.Moves ids s p')
    (hids : ∀ id ∈ ids, p.state? id ≠ some .held) (hsize : p.size ≤ p'.size)
    (hmappings : p'.mappings <:+ p.mappings) : p.Keeps p' := by
  refine ⟨?_, ?_, h.serial_eq, h.config_eq, hsize, hmappings⟩
  · intro id hheld
    rw [h.state_of_not_mem id fun hid => hids id hid hheld]
    exact hheld
  · intro id hheld
    exact h.bytes_of_not_mem id fun hid => hids id hid hheld

/-- Bytes that arrive in blocks on loan. -/
theorem keeps_receiveAll {transfers : List Transfer}
    (h : ∀ transfer ∈ transfers, p.state? (Address.index transfer.address) = some .loaned) :
    p.Keeps (p.receiveAll transfers) := by
  refine ⟨?_, ?_, serial_receiveAll p transfers, config_receiveAll p transfers,
    Nat.le_of_eq (size_receiveAll p transfers).symm, ?_⟩
  · intro id hheld
    rw [state?_receiveAll]
    exact hheld
  · intro id hheld
    refine bytes?_receiveAll_of_ne fun transfer htransfer heq => ?_
    have hloaned := h transfer htransfer
    rw [heq, hheld] at hloaned
    cases hloaned
  · exact (mappings_receiveAll p transfers).symm ▸ List.suffix_refl _

/-- What a block holds stays there while somebody holds the block. -/
theorem Holds.of_keeps {file : Bytes} {r : Read} (h : p.Holds file r) (hkeeps : p.Keeps p')
    (hheld : p.state? r.block.toNat = some .held) : p'.Holds file r :=
  h.of_bytes_eq (congrArg PoolConfig.blockSize hkeeps.config_eq) (hkeeps.bytes_eq _ hheld)

end Pool

/-! ## Engines

The relations between engine and kernel, and between an engine before a call and after it.
The results about submitting and reaping are stated in these terms, and compose without
their proofs being looked into. -/

namespace Engine

variable {e e' e'' : Engine SimulatedKernel} {n : UInt32} {reads reads' : List Read}

/-- An engine and its kernel agree on which reads are outstanding. Each has its place in the
kernel's queue and its block on loan, and all are counted as in flight. -/
structure Consistent (e : Engine SimulatedKernel) (n : UInt32) (reads : List Read) : Prop where
  layout : e.ring.HasLayout n
  queues : e.ring.kernel.Queues n e.ring.kernel.queued
  acceptLimit_eq : e.ring.kernel.acceptLimit = none
  intact : e.pool.Intact
  nodup : (reads.map Read.block).Nodup
  loaned : ∀ r ∈ reads, e.pool.state? r.block.toNat = some .loaned
  served : List.Forall₂ (Serves e.ring.kernel.file e.pool) reads e.ring.kernel.queued
  inFlight_eq : e.inFlight.toNat = reads.length
  length_le : reads.length ≤ n.toNat

/-- No block is on loan but those of the outstanding reads. This fails once a submission has
failed half way through its batch, and is therefore no part of what is kept by every
call. -/
def Named (e : Engine SimulatedKernel) (reads : List Read) : Prop :=
  ∀ id, e.pool.state? id = some .loaned → ∃ r ∈ reads, r.block.toNat = id

/-- Every outstanding read has brought a whole block, and so will those that come: the
kernel withholds nothing and was told no results. On a healthy engine no reap fails. -/
structure Healthy (e : Engine SimulatedKernel) : Prop where
  injected_eq : e.ring.kernel.injected = []
  stalled_eq : e.ring.kernel.stalled = false
  whole : ∀ c ∈ e.ring.kernel.queued, c.res.toInt = e.blockSize

/-- A kernel that performs nothing stays healthy. -/
theorem Healthy.of_leadsTo {queue : List Cqe} (h : e.Healthy)
    (hleads : e.ring.kernel.LeadsTo n queue e'.ring.kernel) (hqueue : queue ⊆ e.ring.kernel.queued)
    (hsize : e'.blockSize = e.blockSize) : e'.Healthy := by
  refine ⟨hleads.injected_eq.trans h.injected_eq, hleads.settings.stalled_eq.trans h.stalled_eq, ?_⟩
  intro c hc
  rw [hleads.queues.queued_eq] at hc
  rw [hsize]
  exact h.whole c (hqueue hc)

/-- What a call leaves as it is: the blocks that are held, and the settings of the
kernel. -/
structure Keeps (e e' : Engine SimulatedKernel) : Prop where
  pool : e.pool.Keeps e'.pool
  settings : e.ring.kernel.SameSettings e'.ring.kernel

theorem Keeps.refl (e : Engine SimulatedKernel) : e.Keeps e := ⟨.refl _, .refl _⟩

theorem Keeps.trans (h : e.Keeps e') (h' : e'.Keeps e'') : e.Keeps e'' :=
  ⟨h.pool.trans h'.pool, h.settings.trans h'.settings⟩

theorem Keeps.blockSize_eq (h : e.Keeps e') : e'.blockSize = e.blockSize :=
  congrArg PoolConfig.blockSize h.pool.config_eq

/-- A call that submits nothing carries the engine from some outstanding reads to others. If
no other blocks were on loan, or the engine was healthy, that is so afterwards as well. -/
structure Carries (e : Engine SimulatedKernel) (n : UInt32) (reads : List Read)
    (e' : Engine SimulatedKernel) (reads' : List Read) : Prop where
  consistent : e'.Consistent n reads'
  keeps : e.Keeps e'
  named : e.Named reads → e'.Named reads'
  healthy : e.Healthy → e'.Healthy

theorem Carries.refl (h : e.Consistent n reads) : e.Carries n reads e reads := ⟨h, .refl e, id, id⟩

theorem Carries.trans {reads'' : List Read} (h : e.Carries n reads e' reads')
    (h' : e'.Carries n reads' e'' reads'') : e.Carries n reads e'' reads'' :=
  ⟨h'.consistent, h.keeps.trans h'.keeps, h'.named ∘ h.named, h'.healthy ∘ h.healthy⟩

/-- A kernel in another state, but with the same queue, is as consistent. -/
theorem Consistent.onKernel {kernel : SimulatedKernel} (h : e.Consistent n reads)
    (hqueues : kernel.Queues n e.ring.kernel.queued)
    (hsettings : e.ring.kernel.SameSettings kernel) : (e.onKernel kernel).Consistent n reads := by
  refine ⟨⟨h.layout.sq_eq, h.layout.cq_eq⟩, hqueues.self,
    hsettings.acceptLimit_eq.trans h.acceptLimit_eq, h.intact, h.nodup, h.loaned, ?_, h.inFlight_eq,
    h.length_le⟩
  change List.Forall₂ (Serves kernel.file e.pool) reads kernel.queued
  rw [hqueues.queued_eq, hsettings.file_eq]
  exact h.served

/-- A kernel that goes on by itself, and performs nothing, carries the engine to where it
was. -/
theorem Consistent.carries_onKernel {kernel : SimulatedKernel} (h : e.Consistent n reads)
    (hleads : e.ring.kernel.LeadsTo n e.ring.kernel.queued kernel) :
    e.Carries n reads (e.onKernel kernel) reads :=
  ⟨h.onKernel hleads.queues hleads.settings, ⟨.refl _, hleads.settings⟩, id,
    fun hhealthy => hhealthy.of_leadsTo hleads (List.Subset.refl _) rfl⟩

/-- The blocks of the outstanding reads are none of those that are not on loan. -/
theorem Consistent.block_not_mem {ids : List Nat} (h : e.Consistent n reads)
    (hids : ∀ id ∈ ids, e.pool.state? id ≠ some .loaned) {r : Read} (hr : r ∈ reads) :
    r.block.toNat ∉ ids := fun hid => hids _ hid (h.loaned r hr)

/-- Giving a block back does not touch the outstanding reads. -/
theorem Consistent.release {token : Token} (h : e.Consistent n reads)
    (hcheck : e.pool.check token = .ok ()) : (e.release token).2.Consistent n reads := by
  have hmoves := Pool.moves_release hcheck
  have hheld := (Pool.check_eq_ok_iff.mp hcheck).1
  have hother (r : Read) (hr : r ∈ reads) : r.block.toNat ∉ [token.id.toNat] := by
    -- the block that is given back was held
    refine h.block_not_mem ?_ hr
    rintro id hid hloaned
    rw [List.mem_singleton.mp hid, hheld] at hloaned
    cases hloaned
  refine ⟨⟨h.layout.sq_eq, h.layout.cq_eq⟩, h.queues, h.acceptLimit_eq, h.intact.release hcheck,
    h.nodup, ?_, ?_, h.inFlight_eq, h.length_le⟩
  · intro r hr
    exact (hmoves.state_of_not_mem _ (hother r hr)).trans (h.loaned r hr)
  · refine forall₂_serves_of_bytes_eq h.served (congrArg PoolConfig.blockSize hmoves.config_eq) ?_
    exact fun r hr => hmoves.bytes_of_not_mem _ (hother r hr)

/-- The slots of a consistent engine are as many as its kernel has entries. -/
theorem Consistent.capacity_eq (h : e.Consistent n reads) : e.capacity = n :=
  congrArg SubmissionQueue.entries h.layout.sq_eq

/-- The submission slots that are left. -/
theorem Consistent.toNat_available (h : e.Consistent n reads) :
    e.ring.available.toNat = n.toNat - reads.length := by
  have hcapacity : e.ring.capacity = n := h.capacity_eq
  have hle : e.ring.inFlight ≤ e.ring.capacity := by
    rw [hcapacity, UInt32.le_iff_toNat_le]
    exact h.inFlight_eq.trans_le h.length_le
  rw [Ring.available, UInt32.toNat_sub_of_le _ _ hle, hcapacity]
  exact congrArg (n.toNat - ·) h.inFlight_eq

/-- The reads that are submitted next fit into the ring. -/
theorem Consistent.length_add_le (h : e.Consistent n reads) (requested : UInt32) :
    reads.length + (min requested e.ring.available).toNat ≤ n.toNat := by
  have havailable := h.toNat_available
  have hle := h.length_le
  rw [UInt32.toNat_min]
  omega

end Engine

end RingRead
