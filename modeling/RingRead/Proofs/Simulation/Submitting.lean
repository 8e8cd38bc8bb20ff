import RingRead.Proofs.Simulation.Consistency

/-!
# Submitting to a simulated kernel

A submission to a simulated kernel either does nothing, or stages a batch for which the pool
runs out of block numbers, or is accepted as a whole (`Engine.SubmitOutcome`). In the last
case the reads of the batch come last among the outstanding ones, in the order in which the
kernel reports them.
-/

namespace RingRead

/-! ## The kernel's side

For the kernel a submission is some stores into its tables, a new tail, and one call. The
stores are behind the tail, so until the call nothing happens. -/

namespace SimulatedKernel

variable {k : SimulatedKernel} {rings : SimulatedRings} {n count : UInt32} {queue : List Cqe}
variable {entries : List Sqe} {completions : List Cqe} {transfers : List Transfer}
variable {rest : List Int32}

theorem length_performAll (file : Bytes) (injected : List Int32) (entries : List Sqe) :
    (performAll file injected entries).1.length = entries.length := by
  induction entries generalizing injected with
  | nil => rfl
  | cons e entries ih => exact congrArg Nat.succ (ih _)

/-- Staging entries changes nothing about the queue. -/
theorem leadsTo_stageAll (h : k.Queues n queue) (hrings : k.rings = some rings) (tail : UInt32)
    (entries : List Sqe) :
    k.LeadsTo n queue { k with rings := some (rings.stageAll tail entries) } := by
  obtain ⟨rings', hrings', rfl, hwf, hsettled, hqueue, hlength⟩ := h
  obtain rfl : rings' = rings := Option.some.inj (hrings'.symm.trans hrings)
  have hwf' := hwf.stageAll tail entries
  obtain ⟨index, table, hstaged⟩ := rings'.stageAll_eq tail entries
  rw [hstaged] at hwf' ⊢
  exact ⟨⟨_, rfl, rfl, hwf', ⟨hsettled.consumed_eq, hsettled.sqHead_eq⟩, hqueue, hlength⟩,
    ⟨rfl, rfl, rfl, rfl, rfl⟩, rfl⟩

/-- A batch that is staged and published is consumed and performed when the kernel is
entered, and its completions come last in the queue. -/
theorem enter_published (h : k.Queues n queue) (hrings : k.rings = some rings)
    (hlimit : k.acceptLimit = none) (hcount : entries.length = count.toNat)
    (hroom : queue.length + count.toNat ≤ n.toNat)
    (hperform : performAll k.file k.injected entries = (completions, transfers, rest)) :
    let published := { rings.stageAll rings.sqTail entries with sqTail := rings.sqTail + count }
    ∃ k', enter { k with rings := some published } count 0 = ⟨.ok count, transfers, k'⟩ ∧
      k'.Queues n (queue ++ k.reported completions) ∧ k.SameSettings k' ∧ k'.injected = rest := by
  obtain ⟨rings', hrings', rfl, hwf, hsettled, rfl, hlength⟩ := h
  obtain rfl : rings' = rings := Option.some.inj (hrings'.symm.trans hrings)
  intro published
  obtain ⟨hwf', hconsumed, hentries⟩ := hsettled.entriesFrom_published hwf
    (show entries.length ≤ rings'.entries.toNat by omega) (rings'.sqTail + count)
  have htail : published.sqTail = published.consumed + count := by rw [hconsumed]
  have hcompletions : completions.length = count.toNat := by
    have hsame := length_performAll k.file k.injected entries
    rw [hperform] at hsame
    exact hsame.trans hcount
  rw [hcount] at hentries
  obtain ⟨index, table, hstaged⟩ := rings'.stageAll_eq rings'.sqTail entries
  simp only [published, hstaged] at hwf' htail hentries ⊢
  -- a completion ring is twice as deep, so the completions of the batch fit too
  have hroom' : rings'.unread.length + k.pending.length + completions.length ≤
      rings'.cqEntries.toNat := by
    have hdepth := hwf.toNat_cqEntries
    rw [List.length_append] at hroom
    omega
  obtain ⟨k', henter, hqueues, hsettings, hinjected⟩ :=
    enter_batch (k := { k with rings := some _ }) rfl hwf' htail hentries hlimit hperform hroom'
  exact ⟨k', henter, hqueues, (k.sameSettings_rings _).trans hsettings, hinjected⟩

end SimulatedKernel

/-! ## The engine's side

For the engine it is a batch of loans and one call. Each part has a lemma of its own, and
`handOver_staged` puts them together for a batch that is complete. -/

namespace Engine

variable {e : Engine SimulatedKernel} {n count : UInt32} {reads batch : List Read}
variable {completions : List Cqe} {transfers : List Transfer} {kernel : SimulatedKernel}

/-- Blocks that go on loan are none of those that are outstanding. -/
theorem Consistent.nodup_append {pool : Pool} (h : e.Consistent n reads)
    (hloans : e.pool.Loans (batch.map Read.block) pool) :
    ((reads ++ batch).map Read.block).Nodup := by
  rw [List.map_append]
  refine List.nodup_append.mpr ⟨h.nodup, hloans.nodup, ?_⟩
  rintro _ hblock block hidle rfl
  obtain ⟨r, hr, rfl⟩ := List.mem_map.mp hblock
  exact hloans.state?_ne (by decide) (List.mem_map_of_mem hidle) (h.loaned r hr)

/-- Where only the blocks of a batch went on loan, outstanding reads and batch name them
all. -/
theorem Named.append {e' : Engine SimulatedKernel} {batch' : List Read} {pool : Pool}
    (h : e.Named reads) (hloans : e.pool.Loans (batch.map Read.block) pool)
    (hperm : batch'.Perm batch) (hstate : ∀ id, e'.pool.state? id = pool.state? id) :
    e'.Named (reads ++ batch') := by
  intro id hid
  rw [hstate] at hid
  by_cases hbatch : id ∈ (batch.map Read.block).map UInt32.toNat
  · obtain ⟨block, hblock, rfl⟩ := List.mem_map.mp hbatch
    obtain ⟨r, hr, rfl⟩ := List.mem_map.mp hblock
    exact ⟨r, List.mem_append_right _ (hperm.mem_iff.mpr hr), rfl⟩
  · rw [hloans.moves.state_of_not_mem id hbatch] at hid
    obtain ⟨r, hr, hblock⟩ := h id hid
    exact ⟨r, List.mem_append_left _ hr, hblock⟩

/-- Loaning more blocks and staging entries leaves the outstanding reads as they are. -/
theorem Consistent.of_loans {ids : List UInt32} {pool : Pool} (h : e.Consistent n reads)
    (hloans : e.pool.Loans ids pool) (hintact : pool.Intact)
    (hleads : e.ring.kernel.LeadsTo n e.ring.kernel.queued kernel) :
    Consistent ⟨{ e.ring with kernel }, pool⟩ n reads ∧ e.Keeps ⟨{ e.ring with kernel }, pool⟩ := by
  have hother (r : Read) (hr : r ∈ reads) : r.block.toNat ∉ ids.map UInt32.toNat :=
    h.block_not_mem (fun _ hid => hloans.state?_ne (by decide) hid) hr
  constructor
  · refine ⟨⟨h.layout.sq_eq, h.layout.cq_eq⟩, hleads.queues.self,
      hleads.settings.acceptLimit_eq.trans h.acceptLimit_eq, hintact, h.nodup, ?_, ?_,
      h.inFlight_eq, h.length_le⟩
    · intro r hr
      exact (hloans.moves.state_of_not_mem _ (hother r hr)).trans (h.loaned r hr)
    · change List.Forall₂ (Serves kernel.file pool) reads kernel.queued
      rw [hleads.queues.queued_eq, hleads.settings.file_eq]
      refine forall₂_serves_of_bytes_eq h.served
        (congrArg PoolConfig.blockSize hloans.moves.config_eq) fun r hr => ?_
      exact hloans.moves.bytes_of_not_mem _ (hother r hr)
  · have hnotHeld := fun id (hid : id ∈ ids.map UInt32.toNat) =>
      hloans.state?_ne (s := .held) (by decide) hid
    exact ⟨hloans.moves.keeps hnotHeld hloans.size_le hloans.mappings_suffix, hleads.settings⟩

/-- A batch whose blocks are on loan joins the outstanding reads when it has been performed.
The data that have arrived are in its own blocks, so the reads before it are served as they
were. -/
theorem Consistent.append (h : e.Consistent n reads)
    (hloaned : ∀ r ∈ batch, e.pool.state? r.block.toNat = some .loaned)
    (hnodup : ((reads ++ batch).map Read.block).Nodup)
    (hserved : List.Forall₂ (Serves e.ring.kernel.file (e.pool.receiveAll transfers)) batch
      completions)
    (htransfers : ∀ t ∈ transfers, ∃ r ∈ batch, t.address = Address.ofIndex r.block)
    (hqueues : kernel.Queues n (e.ring.kernel.queued ++ e.ring.kernel.reported completions))
    (hsettings : e.ring.kernel.SameSettings kernel) (hcount : batch.length = count.toNat)
    (hroom : reads.length + count.toNat ≤ n.toNat) :
    let e' : Engine SimulatedKernel :=
      ⟨{ e.ring with kernel, inFlight := e.ring.inFlight + count }, e.pool.receiveAll transfers⟩
    e'.Consistent n (reads ++ e.ring.kernel.reported batch) ∧ e.Keeps e' := by
  intro e'
  -- the kernel may report a batch in reverse order, so the batch is appended in its order
  have hperm := e.ring.kernel.reported_perm batch
  have hpermBlocks : ((reads ++ e.ring.kernel.reported batch).map Read.block).Perm
      ((reads ++ batch).map Read.block) := (hperm.append_left reads).map Read.block
  have harrive : ∀ t ∈ transfers, e.pool.state? (Address.index t.address) = some .loaned := by
    intro t ht
    obtain ⟨r, hr, haddress⟩ := htransfers t ht
    rw [haddress, Address.index_ofIndex]
    exact hloaned r hr
  refine ⟨⟨⟨h.layout.sq_eq, h.layout.cq_eq⟩, hqueues.self,
    hsettings.acceptLimit_eq.trans h.acceptLimit_eq, h.intact.receiveAll harrive,
    hpermBlocks.nodup_iff.mpr hnodup, ?_, ?_, ?_, ?_⟩, Pool.keeps_receiveAll harrive, hsettings⟩
  · intro r hr
    rw [Pool.state?_receiveAll]
    rcases List.mem_append.mp hr with hr | hr
    · exact h.loaned r hr
    · exact hloaned r (hperm.mem_iff.mp hr)
  · change List.Forall₂ (Serves kernel.file (e.pool.receiveAll transfers)) _ kernel.queued
    rw [hqueues.queued_eq, hsettings.file_eq]
    refine List.rel_append (forall₂_serves_of_bytes_eq h.served ?_ ?_)
      (e.ring.kernel.forall₂_reported hserved)
    · exact congrArg PoolConfig.blockSize (Pool.config_receiveAll ..)
    · -- the blocks of the batch are others
      intro r hr
      refine Pool.bytes?_receiveAll_of_ne fun t ht heq => ?_
      obtain ⟨r', hr', haddress⟩ := htransfers t ht
      rw [haddress, Address.index_ofIndex, UInt32.toNat_inj] at heq
      rw [List.map_append] at hnodup
      exact (List.nodup_append.mp hnodup).2.2 _ (List.mem_map_of_mem hr) _
        (List.mem_map_of_mem hr') heq.symm
  · change (e.ring.inFlight + count).toNat = _
    have hflight : e.ring.inFlight.toNat = reads.length := h.inFlight_eq
    have hlt := n.toNat_lt
    rw [UInt32.toNat_add, hflight, List.length_append, SimulatedKernel.length_reported, hcount]
    exact Nat.mod_eq_of_lt (by omega)
  · rw [List.length_append, SimulatedKernel.length_reported, hcount]
    exact hroom

variable {π : Type} [OffsetPolicy π] {rings : SimulatedRings}

/-- A batch is staged in the kernel's rings. -/
theorem staged_on_simulated (hlayout : e.ring.HasLayout rings.entries)
    (hrings : e.ring.kernel.rings = some rings) (hwf : rings.WellFormed) (target : ReadTarget)
    (count : UInt32) (policy : π) :
    let loan := Pool.loanReads (target.blocks e.blockSize) count.toNat e.pool policy
    let entries := loan.2.1.map (·.entry target e.blockSize)
    let kernel := { e.ring.kernel with rings := some (rings.stageAll rings.sqTail entries) }
    e.staged target count policy = ⟨{ e.ring with kernel }, loan.2.2.1⟩ := by
  intro loan entries kernel
  have htail := Ring.submissionTail_eq hlayout hrings
  have hstage := Ring.stageAll_eq_kernel hlayout hrings hwf.depth rings.sqTail entries
  rw [staged, htail]
  exact congrArg (fun ring => (⟨ring, loan.2.2.1⟩ : Engine SimulatedKernel)) hstage

/-- A staged batch that the kernel accepts as a whole is in flight. -/
theorem handOver_on_simulated {tail : UInt32} (hlayout : e.ring.HasLayout n)
    (hrings : e.ring.kernel.rings = some rings)
    (henter : SimulatedKernel.enter
        { e.ring.kernel with rings := some { rings with sqTail := tail } } count 0 =
      ⟨.ok count, transfers, kernel⟩) :
    e.handOver count tail =
      (.ok count,
        ⟨{ e.ring with kernel, inFlight := e.ring.inFlight + count },
          e.pool.receiveAll transfers⟩) := by
  have hpublish := Ring.publishTail_eq hlayout hrings tail
  have hmin : min count count = count := ite_self count
  have hentered : ({ e with ring := e.ring.publishTail tail } : Engine SimulatedKernel).enter count
      0 0 = (.ok count, ⟨{ e.ring with kernel }, e.pool.receiveAll transfers⟩) := by
    rw [hpublish]
    exact enter_of_kernel henter
  rw [handOver_of_accepted hentered, if_pos rfl, hmin]

/-- An engine stays healthy when completions for whole blocks join the queue. -/
theorem Healthy.append {e' : Engine SimulatedKernel} (h : e.Healthy)
    (hqueues : e'.ring.kernel.Queues n
      (e.ring.kernel.queued ++ e.ring.kernel.reported completions))
    (hsettings : e.ring.kernel.SameSettings e'.ring.kernel)
    (hinjected : e'.ring.kernel.injected = []) (hblockSize : e'.blockSize = e.blockSize)
    (hwhole : ∀ c ∈ completions, c.res.toInt = e.blockSize) : e'.Healthy := by
  refine ⟨hinjected, hsettings.stalled_eq.trans h.stalled_eq, ?_⟩
  rw [hqueues.queued_eq, hblockSize]
  intro c hc
  rcases List.mem_append.mp hc with hold | hnew
  · exact h.whole c hold
  · exact hwhole c ((e.ring.kernel.reported_perm completions).mem_iff.mp hnew)

/-- A batch whose blocks have just gone on loan, staged and handed over, joins the
outstanding reads. -/
theorem handOver_staged (target : ReadTarget) {pool : Pool} (h : e.Consistent n reads)
    (hrings : e.ring.kernel.rings = some rings)
    (hloans : e.pool.Loans (batch.map Read.block) pool) (hintact : pool.Intact)
    (hcount : batch.length = count.toNat) (hroom : reads.length + count.toNat ≤ n.toNat)
    (hoffset : ∀ r ∈ batch, r.offset < UInt64.size) :
    let entries := batch.map (·.entry target e.blockSize)
    let kernel := { e.ring.kernel with rings := some (rings.stageAll rings.sqTail entries) }
    ∃ e', handOver ⟨{ e.ring with kernel }, pool⟩ count (rings.sqTail + count) = (.ok count, e') ∧
      e'.Consistent n (reads ++ e.ring.kernel.reported batch) ∧ e.Keeps e' ∧
      (e.Named reads → e'.Named (reads ++ e.ring.kernel.reported batch)) ∧
      (e.Healthy → e.blockSize < 2 ^ 31 →
        (∀ r ∈ batch, r.offset + e.blockSize ≤ e.ring.kernel.file.size) → e'.Healthy) := by
  intro entries kernel
  have hleads := SimulatedKernel.leadsTo_stageAll h.queues hrings rings.sqTail entries
  -- before the kernel is entered, the blocks are on loan and the queue is the old one
  obtain ⟨hstaged, hkeeps⟩ := h.of_loans hloans hintact hleads
  have hblockSize : pool.blockSize = e.blockSize :=
    congrArg PoolConfig.blockSize hloans.moves.config_eq
  obtain ⟨hpos, hlt⟩ := h.intact.blockSize_bounds
  have hloaned (r : Read) (hr : r ∈ batch) : pool.state? r.block.toNat = some .loaned :=
    hloans.moves.state_of_mem _ (List.mem_map_of_mem (List.mem_map_of_mem hr))
  have hserves := SimulatedKernel.serves_performAll hintact.uniform hblockSize
    (Nat.lt_of_lt_of_le (by decide) hpos) hlt hloans.nodup hoffset
    (fun r hr => by rw [hloaned r hr]; rfl) e.ring.kernel.file target e.ring.kernel.injected
  rcases hperform : SimulatedKernel.performAll e.ring.kernel.file e.ring.kernel.injected entries
    with ⟨completions, transfers, rest⟩
  rw [hperform] at hserves
  obtain ⟨hserved, htransfers⟩ := hserves
  have hqueued : e.ring.kernel.queued.length + count.toNat ≤ n.toNat := by
    rw [← h.served.length_eq]
    exact hroom
  -- on entering, the kernel performs the batch and puts its completions at the end of the queue
  obtain ⟨kernel', henter, hqueues, hsettings, hinjected⟩ := SimulatedKernel.enter_published
    h.queues hrings h.acceptLimit_eq ((List.length_map _).trans hcount) hqueued hperform
  have hnodup := h.nodup_append hloans
  have hsame : kernel.queued = e.ring.kernel.queued := hleads.queues.queued_eq
  have hback : kernel.SameSettings e.ring.kernel := ⟨rfl, rfl, rfl, rfl, rfl⟩
  obtain ⟨hconsistent, hkeeps'⟩ := hstaged.append hloaned hnodup hserved htransfers
    (hsame.symm ▸ hqueues) (hback.trans hsettings) hcount hroom
  refine ⟨_, handOver_on_simulated hstaged.layout rfl henter, hconsistent, hkeeps.trans hkeeps',
    ?_, ?_⟩
  · intro hnamed
    exact hnamed.append hloans (e.ring.kernel.reported_perm batch)
      (pool.state?_receiveAll transfers)
  · intro hhealthy hsize hinside
    -- no result was given in advance, so each read brings its block
    have hwhole := SimulatedKernel.performAll_whole target hsize hoffset hinside
    rw [← hhealthy.injected_eq, hperform] at hwhole
    obtain ⟨hwhole, hrest⟩ := hwhole
    exact hhealthy.append hqueues hsettings (hinjected.trans (hrest.trans hhealthy.injected_eq))
      (hkeeps.trans hkeeps').blockSize_eq hwhole

/-- How a submission of `count` reads to a simulated kernel can end, and which reads are
outstanding then. The answer alone tells which of these it was. -/
inductive SubmitOutcome (e : Engine SimulatedKernel) (target : ReadTarget) (policy : π)
    (count : UInt32) (reads : List Read) :
    Except Error UInt32 → List Read → Engine SimulatedKernel → Prop
  /-- There was nothing to submit. -/
  | idle (hcount : count = 0) : SubmitOutcome e target policy count reads (.ok 0) reads e
  /-- The target does not hold a whole block. -/
  | small (hblocks : target.blocks e.blockSize = 0) :
      SubmitOutcome e target policy count reads
        (.error (.fileTooSmall target.size.toNat e.blockSize)) reads e
  /-- There was no new block for a read of the batch. Nothing was published. -/
  | exhausted {err e'} (hshort : e.pool.Short e'.pool err) :
      SubmitOutcome e target policy count reads (.error err) reads e'
  /-- The batch was accepted. -/
  | submitted {e'} (hblocks : target.blocks e.blockSize ≠ 0)
      (hnamed : e.Named reads → e'.Named
        (reads ++ e.ring.kernel.reported (e.pool.batch target policy count.toNat))) :
      SubmitOutcome e target policy count reads (.ok count)
        (reads ++ e.ring.kernel.reported (e.pool.batch target policy count.toNat)) e'

/-- Whatever a submission does, the engine stays in step with the kernel, and keeps what
others hold. A healthy engine stays healthy if the target is no longer than the file. -/
theorem submitReads_outcome (h : e.Consistent n reads) (target : ReadTarget) (requested : UInt32)
    (policy : π) :
    ∃ reads',
      e.SubmitOutcome target policy (min requested e.ring.available) reads
          (e.submitReads target requested policy).1 reads'
          (e.submitReads target requested policy).2.1 ∧
        (e.submitReads target requested policy).2.1.Consistent n reads' ∧
        e.Keeps (e.submitReads target requested policy).2.1 ∧
        (e.Healthy → e.blockSize < 2 ^ 31 → target.size.toNat ≤ e.ring.kernel.file.size →
          (e.submitReads target requested policy).2.1.Healthy) := by
  by_cases hzero : min requested e.ring.available = 0
  · rw [submitReads_of_full hzero]
    exact ⟨reads, .idle hzero, h, .refl e, fun hhealthy _ _ => hhealthy⟩
  by_cases hblocks : target.blocks e.blockSize = 0
  · rw [submitReads_of_small hzero hblocks]
    exact ⟨reads, .small hblocks, h, .refl e, fun hhealthy _ _ => hhealthy⟩
  -- what is left is a submission that stages at least one entry
  generalize hcount : min requested e.ring.available = count at hzero
  have hroom : reads.length + count.toNat ≤ n.toNat := hcount ▸ h.length_add_le requested
  have hsubmit := submitReads_of_room h.intact.toSound hcount hzero hblocks policy
  obtain ⟨rings, hrings, hn, hwf, -, -, -⟩ := h.queues
  have hstaged := staged_on_simulated (hn ▸ h.layout) hrings hwf target count policy
  have hblockSize : e.pool.blockSize = e.blockSize := rfl
  obtain ⟨batch, pool, policy', hintact, hloans, hcases⟩ :=
    h.intact.loanReads_cases hblockSize hblocks count.toNat policy
  have hleads := SimulatedKernel.leadsTo_stageAll h.queues hrings rings.sqTail
    (batch.map (·.entry target e.blockSize))
  obtain ⟨hconsistent, hkeeps⟩ := h.of_loans hloans hintact hleads
  rcases hcases with ⟨hloan, rfl, hlength⟩ | ⟨err, hloan, hshort⟩
  · -- the batch is complete, so it is handed over
    have htail : e.ring.submissionTail.1 = rings.sqTail :=
      congrArg Prod.fst (Ring.submissionTail_eq h.layout hrings)
    have hinside (r : Read) (hr : r ∈ e.pool.batch target policy count.toNat) :
        r.offset + e.blockSize ≤ target.size.toNat :=
      Pool.offset_add_le_of_mem_batch hblocks hr
    have hoffset (r : Read) (hr : r ∈ e.pool.batch target policy count.toNat) :
        r.offset < UInt64.size :=
      Pool.offset_lt_of_mem_batch hblocks hr
    obtain ⟨e', hhand, hconsistent', hkeeps', hnamed, hhealthy'⟩ :=
      handOver_staged target h hrings hloans hintact hlength hroom hoffset
    simp only [hloan] at hstaged
    rw [hloan, htail, hstaged] at hsubmit
    obtain ⟨hanswer, hengine⟩ := Prod.mk.inj (hsubmit.trans hhand)
    rw [hanswer, hengine]
    exact ⟨_, .submitted hblocks hnamed, hconsistent', hkeeps', fun hhealthy hsize hfile =>
      hhealthy' hhealthy hsize fun r hr => Nat.le_trans (hinside r hr) hfile⟩
  · -- what was staged is not published, and only the loans stay
    simp only [hloan] at hstaged
    rw [hloan, hstaged] at hsubmit
    obtain ⟨hanswer, hengine⟩ := Prod.mk.inj hsubmit
    rw [hanswer, hengine]
    exact ⟨reads, .exhausted hshort, hconsistent, hkeeps, fun hhealthy _ _ =>
      hhealthy.of_leadsTo hleads (List.Subset.refl _) hkeeps.blockSize_eq⟩

end Engine

end RingRead
