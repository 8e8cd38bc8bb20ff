import RingRead.Proofs.Ledger.Basic

/-!
# Outstanding reads in order

An engine on a simulated kernel is a queue of outstanding reads, whatever the kernel defers,
reverses or withholds, whatever results it is told to give, and wherever the completion
indices started. The queue is not written down anywhere: its front is posted in the
completion ring, the rest is pending in the kernel, its members are the blocks on loan, and
its length is the count of reads in flight. All of these agree after every run, because
every event keeps them in step (`Ledger.tracks_run`).
-/

namespace RingRead.Ledger

open Engine

variable {e : Engine SimulatedKernel} {n : UInt32} {reads reads' : List Read} {mode : ReapMode}
variable {kernel : SimulatedKernel} {capacity serial : UInt32} {config : PoolConfig}
  {mappings : MappingAnswers}

/-- A reap that takes a read takes the oldest one, whether the read has succeeded or not. -/
theorem head_of_takenTag {tag : UInt64} (h : e.Consistent n reads) (mode : ReapMode)
    (htaken : takenTag? (e.reap mode).1 = some tag) : reads.head?.map Read.tag = some tag := by
  obtain ⟨reads', houtcome, -⟩ := reap_outcome h mode
  generalize (e.reap mode).1 = answer at houtcome htaken
  generalize (e.reap mode).2 = e' at houtcome
  cases houtcome with
  | succeeded => exact htaken
  | failed hfailed =>
    rcases hfailed with hfailed | rfl
    · exact hfailed.symm.trans htaken
    · cases htaken
  | nothing => cases htaken
  | withheld => cases htaken

/-- After every run, the completions that are posted or pending answer the outstanding reads
in their order. These are all different, their blocks are on loan, and no others are, unless
a submission has failed because no new block could be made: all block numbers are in use, or
the system has refused to map memory. As many reads are in flight as are outstanding, the
kernel has consumed all that was published, and the next reap takes the oldest read or
none. -/
theorem outstanding_of_run (hcreate : Engine.create kernel capacity serial config mappings = .ok e)
    (hlimit : kernel.acceptLimit = none) (hpending : kernel.pending = []) (start : UInt32)
    (events : List Event) :
    let l := (opening e start).run events
    ∃ rings, l.engine.ring.kernel.rings = some rings ∧
      (rings.unread ++ l.engine.ring.kernel.pending).map Cqe.userData =
        l.outstanding.map Read.tag ∧
      (l.outstanding.map Read.tag).Nodup ∧
      (∀ r ∈ l.outstanding, l.engine.pool.state? r.tag.toNat = some .loaned) ∧
      (∀ id, l.engine.pool.state? id = some .loaned →
        (∃ r ∈ l.outstanding, r.tag.toNat = id) ∨
          l.exhausted = true ∧
            (l.engine.pool.size = UInt32.size ∨ ∃ err, some err ∈ mappings)) ∧
      l.engine.inFlight.toNat = l.outstanding.length ∧
      l.engine.inFlight ≤ l.engine.capacity ∧
      rings.consumed = rings.sqTail ∧ rings.sqHead = rings.sqTail ∧
      ∀ mode tag, takenTag? (l.engine.reap mode).1 = some tag →
        l.outstanding.head?.map Read.tag = some tag := by
  intro l
  obtain ⟨hopening, -⟩ := tracks_opening hcreate hlimit hpending start
  have htracks : l.Tracks (opening e start).engine e.capacity := tracks_run hopening events
  have h := htracks.consistent
  obtain ⟨rings, hrings, -, -, hsettled, hqueue, -⟩ := h.queues
  refine ⟨rings, hrings, ?_, ?_, ?_, ?_, h.inFlight_eq, ?_, hsettled.consumed_eq,
    hsettled.sqHead_eq, fun mode tag => head_of_takenTag h mode⟩
  · rw [hqueue]
    exact map_userData_of_serves h.served
  · refine List.pairwise_map.mpr ((List.pairwise_map.mp h.nodup).imp fun hne htag => ?_)
    exact hne (Read.tag_inj.mp htag)
  · intro r hr
    rw [Read.toNat_tag]
    exact h.loaned r hr
  -- a block on loan that is not outstanding was lent to a batch that another block was missing for
  · intro id hid
    cases hexhausted : l.exhausted with
    | true =>
      have hshort := htracks.short hexhausted
      rw [mappings_opening hcreate start] at hshort
      exact Or.inr ⟨rfl, hshort⟩
    | false =>
      obtain ⟨r, hr, hblock⟩ := htracks.named hexhausted id hid
      exact Or.inl ⟨r, hr, (Read.toNat_tag r).trans hblock⟩
  · rw [h.capacity_eq, UInt32.le_iff_toNat_le, h.inFlight_eq]
    exact h.length_le

/-- Two reversed batches on a kernel that defers, with a short read, a failed one, an
interrupted wait, and completion indices that wrap on the way. One read has come back and
one has failed. -/
theorem outstanding_after_wrap :
    ∃ e : Engine SimulatedKernel,
      Engine.create
          { file := .zeros 16384, deferred := true, reversed := true, injected := [7, -5] }
          4 7 {} = .ok e ∧
        let l := (opening e 4294967295).run
          [.call (.submitReads ⟨3, 16384⟩ 3 ({} : Walker)), .call (.reap .blocking), .interrupt,
            .call (.submitReads ⟨3, 16384⟩ 2 ({} : Walker)), .call (.reap .blocking)]
        l.outstanding.map Read.tag = [0, 4, 3] ∧ l.engine.inFlight = 3 ∧
          ∃ rings, l.engine.ring.kernel.rings = some rings ∧ rings.unread.length = 1 ∧
            (rings.unread ++ l.engine.ring.kernel.pending).map Cqe.userData = [0, 4, 3] := by
  have h := @outstanding_of_run _
    { file := .zeros 16384, deferred := true, reversed := true, injected := [7, -5] } 4 7 {} [] rfl
    rfl rfl 4294967295
    [.call (.submitReads ⟨3, 16384⟩ 3 ({} : Walker)), .call (.reap .blocking), .interrupt,
      .call (.submitReads ⟨3, 16384⟩ 2 ({} : Walker)), .call (.reap .blocking)]
  obtain ⟨rings, hrings, htags, -⟩ := h
  refine ⟨_, rfl, rfl, rfl, rings, hrings, ?_, htags⟩
  obtain rfl := Option.some.inj hrings
  rfl

end RingRead.Ledger
