import RingRead.Proofs.Backlog.Handing
import RingRead.Proofs.Ring.Windows

/-!
# What a submission asks

Of all the operations that an engine could ask of its kernel, a submission asks for very
few, and always in the same order.

* **Staging.** A batch is staged by reading the tail and storing the entries and their names
  (`Ring.stagingOperations`).
* **Handing over.** It is handed over by storing the tail and entering
  (`Ring.handOverOperations`).
* **Submitting.** A submission with room for a batch asks for the first, and for the second
  only if the batch is complete (`Engine.operations_of_complete`,
  `Engine.operations_of_incomplete`).
-/

namespace RingRead

variable {κ π : Type} [Kernel κ] [OffsetPolicy π]

namespace Ring

/-- What is asked to stage entries: the tail, and then a place for each entry from there on.
The tail is looked at once, so all places are counted from the same position. -/
def stagingOperations (r : Ring κ) (entries : List Sqe) : List Operation :=
  .access (.load .submissionRing r.sq.tailAt) ::
    (r.stores r.submissionTail.1 entries).map .access

/-- What is asked to hand over a batch of `count` entries: a new tail, and one entry into
the kernel. Nothing comes between the two, and there is one of each for a batch of any
length. -/
def handOverOperations (r : Ring κ) (count : UInt32) : List Operation :=
  [.access (.store .submissionRing r.sq.tailAt (r.submissionTail.1 + count)), .enter count 0 0]

/-- Nothing is entered to stage entries. -/
theorem enter_not_mem_stagingOperations (r : Ring κ) (entries : List Sqe)
    (toSubmit minComplete flags : UInt32) :
    .enter toSubmit minComplete flags ∉ r.stagingOperations entries := by
  simp [stagingOperations]

end Ring

namespace Engine

variable {e : Engine κ} {target : ReadTarget} {requested count : UInt32} {policy : π}

/-- Staging a batch asks for what `Ring.stagingOperations` lists, for as many entries as
there were blocks. -/
theorem operations_staged (e : Engine κ) (target : ReadTarget) (count : UInt32) (policy : π) :
    (e.trace.staged target count policy).ring.kernel.operations =
      e.ring.stagingOperations (e.stagedEntries target count policy) := by
  have hsq : e.trace.ring.submissionTail.2.sq = e.ring.sq := rfl
  refine (Ring.operations_stageAll ..).trans ?_
  rw [Ring.stores_congr hsq]
  rfl

/-- Handing over asks for two operations more, whatever the kernel then answers. An answer
that is an error comes after both of them, so nothing is taken back. -/
theorem operations_handOver (e : Engine (Traced κ)) (count tail : UInt32) :
    (e.handOver count tail).2.ring.kernel.operations =
      e.ring.kernel.operations ++
        [.access (.store .submissionRing e.ring.sq.tailAt tail), .enter count 0 0] := by
  obtain ⟨answer, e', henter⟩ : ∃ answer e',
      ({ e with ring := e.ring.publishTail tail } : Engine (Traced κ)).enter count 0 0 =
        (answer, e') := ⟨_, _, rfl⟩
  have hkernel : e'.ring.kernel.operations = e.ring.kernel.operations ++
      [.access (.store .submissionRing e.ring.sq.tailAt tail), .enter count 0 0] := by
    obtain ⟨-, rfl⟩ := Prod.mk.inj henter
    exact List.append_assoc ..
  rcases answer with err | accepted
  · rw [handOver_of_refused henter]
    exact hkernel
  · rw [handOver_of_accepted henter]
    exact hkernel

/-- For nothing, and for a target without a block, nothing is asked. The kernel cannot tell
such a call from no call. -/
theorem operations_of_nothing
    (h : min requested e.ring.available = 0 ∨ target.blocks e.blockSize = 0) :
    (e.trace.submitReads target requested policy).2.1.ring.kernel.operations = [] := by
  by_cases hcount : min requested e.ring.available = 0
  · rw [submitReads_of_full (e := e.trace) hcount]
    rfl
  · rw [submitReads_of_small (e := e.trace) hcount (h.resolve_left hcount)]
    rfl

/-- A batch for which there are not enough blocks is staged as far as there are. The tail is
not stored and the kernel is not entered, so it does not come to know of these entries. -/
theorem operations_of_incomplete (hsound : e.pool.Sound)
    (hcount : min requested e.ring.available = count) (hne : count ≠ 0)
    (hblocks : target.blocks e.blockSize ≠ 0) {err : Error}
    (herror : (Pool.loanReads (target.blocks e.blockSize) count.toNat e.pool policy).1 =
      .error err) :
    (e.trace.submitReads target requested policy).2.1.ring.kernel.operations =
      e.ring.stagingOperations (e.stagedEntries target count policy) := by
  have hsubmit := submitReads_of_room (e := e.trace) hsound hcount hne hblocks policy
  rw [show e.trace.pool = e.pool from rfl, show e.trace.blockSize = e.blockSize from rfl,
    herror] at hsubmit
  have hengine : (e.trace.submitReads target requested policy).2.1 =
      e.trace.staged target count policy :=
    congrArg Prod.snd hsubmit
  rw [hengine]
  exact e.operations_staged target count policy

/-- A complete batch is staged and handed over, in one call of the kernel for all of it. -/
theorem operations_of_complete (hsound : e.pool.Sound)
    (hcount : min requested e.ring.available = count) (hne : count ≠ 0)
    (hblocks : target.blocks e.blockSize ≠ 0)
    (hok : (Pool.loanReads (target.blocks e.blockSize) count.toNat e.pool policy).1 = .ok ()) :
    (e.trace.submitReads target requested policy).2.1.ring.kernel.operations =
      e.ring.stagingOperations (e.stagedEntries target count policy) ++
        e.ring.handOverOperations count := by
  have hsubmit := submitReads_of_room (e := e.trace) hsound hcount hne hblocks policy
  rw [show e.trace.pool = e.pool from rfl, show e.trace.blockSize = e.blockSize from rfl,
    hok] at hsubmit
  have hengine : (e.trace.submitReads target requested policy).2.1 =
      ((e.trace.staged target count policy).handOver count (e.ring.submissionTail.1 + count)).2 :=
    congrArg Prod.snd hsubmit
  have hparts : (e.trace.staged target count policy).ring.sq = e.ring.sq :=
    congrArg Ring.sq (e.trace.ring_staged target count policy)
  rw [hengine, operations_handOver, operations_staged, hparts]
  rfl

end Engine

end RingRead
