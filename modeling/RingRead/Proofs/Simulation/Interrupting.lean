import RingRead.Proofs.Backlog.Outstanding
import RingRead.Proofs.Engine.Lockstep
import RingRead.Proofs.Simulation.Attached

/-!
# Interrupted waits of a simulated kernel

A simulated kernel that interrupts a wait has already consumed what was published, and has
not yet posted anything. So a wait that is repeated until it is not interrupted does what a
single wait does, and only its repetitions were counted (`Engine.wait_eq`).

**Counts are never looked at.** `k.recount interrupts enters waits` is `k` with other
interruptions to come and other counts. Every operation of the kernel commutes with
recounting, but for the answer to a wait. `Disturbed` relates two kernels that are the same
up to a recount, in which the counts of calls and of waits differ by the interruptions that
were used up; such kernels run in lockstep (`lockstep_disturbed`).
-/

namespace RingRead

namespace SimulatedKernel

variable {k k' : SimulatedKernel}

/-- The kernel with other interruptions to come, and other counts of calls and of waits. The
counters of reads stay. -/
def recount (k : SimulatedKernel) (interrupts enters waits : Nat) : SimulatedKernel :=
  { k with interrupts, counters := { k.counters with enters, waits } }

/-! ## Operations on a recounted kernel

Counters are written and never read. So an operation gives the same on a recounted kernel,
with the other counts carried along. -/

variable (k) (interrupts enters waits : Nat)

@[simp] theorem recount_recount (interrupts' enters' waits' : Nat) :
    (k.recount interrupts enters waits).recount interrupts' enters' waits' =
      k.recount interrupts' enters' waits' := rfl

theorem postAll_recount (cs : List Cqe) (rings : SimulatedRings) (counters : SimulationCounters) :
    postAll cs rings { counters with enters, waits } =
      ((postAll cs rings counters).1, { (postAll cs rings counters).2 with enters, waits }) := by
  induction cs generalizing rings counters with
  | nil => rfl
  | cons c rest ih =>
    rw [postAll, postAll]
    split
    · exact ih rings { counters with overflowed := counters.overflowed + 1 }
    · exact ih (rings.post c) { counters with completed := counters.completed + 1 }

theorem flush_recount :
    (k.recount interrupts enters waits).flush = k.flush.recount interrupts enters waits := by
  rcases k with ⟨_, _ | rings, _, _, _, _, _ | _, _⟩
  · rfl
  · rfl
  · simp [flush, recount, postAll_recount]
  · rfl

theorem consume_recount (limit : UInt32) :
    (k.recount interrupts enters waits).consume limit =
      ((k.consume limit).1, (k.consume limit).2.1,
        (k.consume limit).2.2.recount interrupts enters waits) := by
  rcases k with ⟨_, _ | rings, _⟩
  · rfl
  · rfl

/-- What is pending after a call that does not wait is posted, unless that is deferred. -/
def prompted (k : SimulatedKernel) : SimulatedKernel := if k.deferred then k else k.flush

theorem prompted_recount :
    (k.recount interrupts enters waits).prompted = k.prompted.recount interrupts enters waits := by
  rw [prompted, prompted, flush_recount]
  change (if k.deferred then _ else _) = _
  split
  · rfl
  · rfl

/-- Handing over a batch. -/
theorem enter_batch_eq (count : UInt32) :
    k.enter count 0 =
      ⟨.ok (k.entered.consume (k.limitTo count)).1, (k.entered.consume (k.limitTo count)).2.1,
        (k.entered.consume (k.limitTo count)).2.2.prompted⟩ := by
  rw [enter_eq_respond_limitTo, respond, if_neg (by decide), prompted]
  split
  · rfl
  · rfl

/-! ## Waits

A wait that is interrupted has looked for entries, found none, and is counted. To look a
second time changes nothing more. -/

/-- The kernel after it has looked for entries and taken none. It shows the head that it has
come to. -/
def synced (k : SimulatedKernel) : SimulatedKernel :=
  { k with rings := k.rings.map fun rings => { rings with sqHead := rings.consumed } }

theorem consume_zero : k.consume 0 = (0, [], k.synced) := by
  rcases k with ⟨_, _ | rings, _⟩
  · rfl
  · have hzero : rings.consume 0 = (0, [], { rings with sqHead := rings.consumed }) := by
      simp only [SimulatedRings.consume, Position.min_zero, UInt32.add_zero]
      rfl
    simp [consume, synced, hzero, performAll]

theorem synced_recount :
    (k.recount interrupts enters waits).synced = k.synced.recount interrupts enters waits := rfl

theorem synced_synced : k.synced.synced = k.synced := by
  rcases k with ⟨_, _ | rings, _⟩
  · rfl
  · rfl

/-- The kernel after a wait that is repeated until it is not interrupted. All interruptions
are used up, and each repetition is counted. -/
def afterWait (k : SimulatedKernel) : SimulatedKernel :=
  k.synced.flush.recount 0 (k.counters.enters + (k.interrupts + 1))
    (k.counters.waits + (k.interrupts + 1))

/-- A call that only waits takes nothing from the submission queue, interrupted or not. -/
theorem enter_wait_eq :
    k.enter 0 enterGetEvents = respond enterGetEvents (0, [], k.entered.synced) := by
  have hlimit : k.limitTo 0 = 0 := by
    rw [limitTo]
    split
    · rfl
    · exact Position.min_zero _
  rw [enter_eq_respond_limitTo, hlimit, consume_zero]

/-- A wait that is not interrupted posts what is pending. -/
theorem enter_wait_of_zero (hzero : k.interrupts = 0) :
    k.enter 0 enterGetEvents = ⟨.ok 0, [], k.afterWait⟩ := by
  have hcounts : k.entered.synced.waited =
      k.synced.recount 0 (k.counters.enters + 1) (k.counters.waits + 1) := by
    rw [← hzero]
    rfl
  rw [enter_wait_eq, respond, if_pos (by decide), show k.entered.synced.interrupts = 0 from hzero,
    hcounts, flush_recount, afterWait, hzero]

/-- One that is interrupted leaves nothing to see behind, but for the counts. Waiting again
from there comes to the same end. -/
theorem enter_wait_of_succ {left : Nat} (hsome : k.interrupts = left + 1) :
    ∃ k', k.enter 0 enterGetEvents = ⟨.error (.os SystemError.eintr), [], k'⟩ ∧
      k'.interrupts = left ∧ k'.afterWait = k.afterWait := by
  refine ⟨k.synced.recount left (k.counters.enters + 1) (k.counters.waits + 1), ?_, rfl, ?_⟩
  · rw [enter_wait_eq, respond, if_pos (by decide),
      show k.entered.synced.interrupts = left + 1 from hsome]
    rfl
  · rw [afterWait, synced_recount, synced_synced, flush_recount, recount_recount, afterWait, hsome]
    simp only [recount, Nat.add_assoc, Nat.add_comm 1]

end SimulatedKernel

namespace Engine

variable {e : Engine SimulatedKernel}

theorem waitWithin_eq {retries : Nat} (hretries : e.ring.kernel.interrupts = retries) :
    waitWithin retries e = (.ok (), e.onKernel e.ring.kernel.afterWait) := by
  induction retries generalizing e with
  | zero =>
    rw [waitWithin, enter_of_kernel (e.ring.kernel.enter_wait_of_zero hretries)]
    rfl
  | succ retries ih =>
    obtain ⟨kernel, henter, hleft, hafter⟩ := e.ring.kernel.enter_wait_of_succ hretries
    rw [waitWithin, enter_of_kernel henter]
    exact (ih (e := e.onKernel kernel) hleft).trans (by rw [← hafter]; rfl)

/-- A wait succeeds in every state of a simulated kernel, and however often it is
interrupted it does the same. -/
theorem wait_eq (e : Engine SimulatedKernel) :
    e.wait = (.ok (), e.onKernel e.ring.kernel.afterWait) := waitWithin_eq rfl

end Engine

/-! ## Disturbed kernels

Two kernels that differ in interruptions differ in what they count for them. The relation
says by how much, and so it can be carried through a run and read at the end. -/

namespace SimulatedKernel

variable {asked asked' : Nat} {k k' : SimulatedKernel}

/-- Two kernels that are the same but for the interruptions to come and the counts of calls
and of waits, after `asked` interruptions were asked for on one side and `asked'` on the
other. Those that were used up make the difference in the counts. -/
def Disturbed (asked asked' : Nat) (k k' : SimulatedKernel) : Prop :=
  ∃ interrupts enters waits, k' = k.recount interrupts enters waits ∧
    ∃ used used', used + k.interrupts = asked ∧ used' + interrupts = asked' ∧
      enters + used = k.counters.enters + used' ∧ waits + used = k.counters.waits + used'

/-- Kernels that differ in the interruptions to come alone. -/
theorem disturbed_of_interrupts (k : SimulatedKernel) (interrupts : Nat) :
    Disturbed k.interrupts interrupts k { k with interrupts } :=
  ⟨interrupts, k.counters.enters, k.counters.waits, rfl, 0, 0, Nat.zero_add _, Nat.zero_add _,
    rfl, rfl⟩

/-- What commutes with recounting keeps kernels the same but for their counts. -/
theorem Disturbed.map (h : Disturbed asked asked' k k') {f : SimulatedKernel → SimulatedKernel}
    (hf : ∀ k interrupts enters waits,
      f (recount k interrupts enters waits) = (f k).recount interrupts enters waits) :
    Disturbed asked asked' (f k) (f k') := by
  obtain ⟨interrupts, enters, waits, rfl, hcounts⟩ := h
  have hself : f k = (f k).recount k.interrupts k.counters.enters k.counters.waits :=
    hf k k.interrupts k.counters.enters k.counters.waits
  refine ⟨interrupts, enters, waits, hf k interrupts enters waits, ?_⟩
  rw [hself]
  exact hcounts

theorem Disturbed.entered (h : Disturbed asked asked' k k') :
    Disturbed asked asked' k.entered k'.entered := by
  obtain ⟨interrupts, enters, waits, rfl, used, used', hasked, hasked', henters, hwaits⟩ := h
  refine ⟨interrupts, enters + 1, waits, rfl, used, used', hasked, hasked', ?_, hwaits⟩
  change enters + 1 + used = k.counters.enters + 1 + used'
  omega

/-- Two kernels that differ in interruptions and counts alone differ in nothing else after a
wait that was repeated to its end. -/
theorem Disturbed.afterWait (h : Disturbed asked asked' k k') :
    Disturbed asked asked' k.afterWait k'.afterWait := by
  obtain ⟨interrupts, enters, waits, rfl, used, used', hasked, hasked', henters, hwaits⟩ := h
  refine ⟨0, enters + (interrupts + 1), waits + (interrupts + 1), ?_, used + k.interrupts,
    used' + interrupts, hasked, hasked', ?_, ?_⟩
  · rw [SimulatedKernel.afterWait, synced_recount, flush_recount]
    rfl
  · change enters + (interrupts + 1) + (used + k.interrupts) =
      k.counters.enters + (k.interrupts + 1) + (used' + interrupts)
    omega
  · change waits + (interrupts + 1) + (used + k.interrupts) =
      k.counters.waits + (k.interrupts + 1) + (used' + interrupts)
    omega

/-- One more interruption on one side. -/
theorem Disturbed.interrupt_left (h : Disturbed asked asked' k k') :
    Disturbed (asked + 1) asked' k.interrupt k' := by
  obtain ⟨interrupts, enters, waits, rfl, used, used', hasked, hcounts⟩ := h
  exact ⟨interrupts, enters, waits, rfl, used, used', congrArg (· + 1) hasked, hcounts⟩

/-- One more interruption on the other side. -/
theorem Disturbed.interrupt_right (h : Disturbed asked asked' k k') :
    Disturbed asked (asked' + 1) k k'.interrupt := by
  obtain ⟨interrupts, enters, waits, rfl, used, used', hasked, hasked', hcounts⟩ := h
  exact ⟨interrupts + 1, enters, waits, rfl, used, used', hasked, congrArg (· + 1) hasked', hcounts⟩

/-- Handing over a batch consumes and posts the same. -/
theorem Disturbed.enter (h : Disturbed asked asked' k k') (count : UInt32) :
    (k'.enter count 0).answer = (k.enter count 0).answer ∧
      (k'.enter count 0).transfers = (k.enter count 0).transfers ∧
      Disturbed asked asked' (k.enter count 0).kernel (k'.enter count 0).kernel := by
  have hlimit : k'.limitTo count = k.limitTo count := by
    obtain ⟨interrupts, enters, waits, rfl, -⟩ := h
    rfl
  have hposted := h.entered.map (f := fun k₁ => (k₁.consume (k.limitTo count)).2.2.prompted)
    fun k₁ _ _ _ => by rw [consume_recount, prompted_recount]
  obtain ⟨interrupts, enters, waits, hentered, -⟩ := h.entered
  rw [enter_batch_eq, enter_batch_eq, hlimit]
  refine ⟨?_, ?_, hposted⟩
  · rw [hentered, consume_recount]
  · rw [hentered, consume_recount]

/-- Interruptions cannot be told from what a kernel does. So an engine cannot tell a kernel
that interrupts its waits from one that does not. -/
theorem lockstep_disturbed (asked asked' : Nat) : Kernel.Lockstep (Disturbed asked asked') where
  load := by
    rintro k _ ⟨interrupts, enters, waits, rfl, hcounts⟩ region offset
    exact ⟨rfl, interrupts, enters, waits, rfl, hcounts⟩
  store h region offset value :=
    h.map (f := fun k => k.setWord region offset value) fun _ _ _ _ => rfl
  storeEntry h offset entry :=
    h.map (f := fun k => k.setEntry (offset / 64) entry) fun _ _ _ _ => rfl
  loadEntry := by
    rintro k _ ⟨interrupts, enters, waits, rfl, hcounts⟩ offset
    exact ⟨rfl, interrupts, enters, waits, rfl, hcounts⟩
  enter := by
    rintro e _ ⟨kernel, rfl, h⟩ count
    obtain ⟨hanswer, htransfers, hkernel⟩ := h.enter count
    refine ⟨hanswer.symm, _, ?_, hkernel⟩
    exact congrArg (fun transfers => (⟨_, e.pool.receiveAll transfers⟩ : Engine _)) htransfers
  wait := by
    rintro e _ ⟨kernel, rfl, h⟩
    rw [Engine.wait_eq, Engine.wait_eq]
    exact ⟨rfl, _, rfl, h.afterWait⟩

end SimulatedKernel

end RingRead
