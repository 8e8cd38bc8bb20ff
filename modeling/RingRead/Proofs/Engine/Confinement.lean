import RingRead.Proofs.Engine.Tracing
import RingRead.Proofs.Ring.Bounds
import RingRead.Simulation.Misreporting

/-!
# Engines within bounds

All that an engine ever accesses in shared memory lies in the mappings of its ring.

* **A step.** `r.Heeds r'` says that `r'` has the parts of `r`, and that all accesses listed
  so far lie in the mappings of `r`. Every use of a confined ring keeps that
  (`Ring.Heeds.stage`, `Ring.Heeds.take`), and so does every call of an engine
  (`Engine.heeds_perform`).
* **A run.** `accesses_within_mappings` carries it over all runs.
-/

namespace RingRead

variable {κ π : Type}

namespace Ring

/-- The mapping of a region. Each of the three regions has one of its own. -/
@[simp] def mapping (r : Ring κ) : Region → Mapping
  | .submissionRing => r.submissionRing
  | .submissionEntries => r.submissionEntries
  | .completionRing => r.completionRing

/-- An access lies inside the mapping of its region, from its first byte to its last, and is
aligned there. The mappings are those that the ring was made with, and their lengths are
what the kernel has mapped, which need not be what it was asked for. -/
def Admits (r : Ring κ) (a : Access) : Prop := (r.mapping a.region).Contains a.layout a.offset

/-- A traced ring has the same parts, and has accessed nothing outside the mappings. The
parts are fixed when a ring is made and no operation moves them, which is why it is enough
to look at each access by itself. -/
structure Heeds (r : Ring κ) (r' : Ring (Traced κ)) : Prop where
  sq_eq : r'.sq = r.sq
  cq_eq : r'.cq = r.cq
  admits : ∀ a ∈ r'.kernel.accesses, r.Admits a

variable {r : Ring κ} {r' : Ring (Traced κ)}

/-- A ring that has just begun to be traced has accessed nothing yet. -/
theorem heeds_trace (r : Ring κ) : r.Heeds r.trace :=
  ⟨rfl, rfl, by simp [trace, onto, Traced.accesses]⟩

/-- One more access that the ring admits. -/
theorem Heeds.access (h : r.Heeds r') {a : Access} (ha : r.Admits a) (kernel : κ) :
    r.Heeds { r' with kernel := r'.kernel.after kernel (.access a) } := by
  refine ⟨h.sq_eq, h.cq_eq, fun a' ha' => ?_⟩
  rw [Traced.accesses_after_access, List.mem_append, List.mem_singleton] at ha'
  rcases ha' with ha' | rfl
  · exact h.admits a' ha'
  · exact ha

end Ring

variable [Kernel κ] [OffsetPolicy π]

namespace Ring

variable {r : Ring κ} {r' : Ring (Traced κ)}

/-! ## Uses of a ring

A confined ring has good offsets for every position. So each use of it is shown by naming
the accesses that it is made of, and for none of them does it matter what the kernel has put
into the memory. -/

theorem Heeds.submissionTail (h : r.Heeds r') (hr : r.Confined) : r.Heeds r'.submissionTail.2 := by
  apply h.access
  simpa [Admits, h.sq_eq] using hr.submissionTail

theorem Heeds.publishTail (h : r.Heeds r') (hr : r.Confined) (tail : UInt32) :
    r.Heeds (r'.publishTail tail) := by
  apply h.access
  simpa [Admits, h.sq_eq] using hr.submissionTail

theorem Heeds.completionHead (h : r.Heeds r') (hr : r.Confined) : r.Heeds r'.completionHead.2 := by
  apply h.access
  simpa [Admits, h.cq_eq] using hr.completionHead

theorem Heeds.completionTail (h : r.Heeds r') (hr : r.Confined) : r.Heeds r'.completionTail.2 := by
  apply h.access
  simpa [Admits, h.cq_eq] using hr.completionTail

theorem Heeds.publishHead (h : r.Heeds r') (hr : r.Confined) (head : UInt32) :
    r.Heeds (r'.publishHead head) := by
  apply h.access
  simpa [Admits, h.cq_eq] using hr.completionHead

/-- A staged entry is two accesses: its place in the table and its number in the index
array. -/
theorem Heeds.stage (h : r.Heeds r') (hr : r.Confined) (tail : UInt32) (entry : Sqe) :
    r.Heeds (r'.stage tail entry) := by
  have hentry :
      r.Heeds { r' with kernel := Kernel.storeEntry r'.kernel (r'.tableOffset tail) entry } := by
    apply h.access
    simpa [Admits, tableOffset, submissionSlot, h.sq_eq] using hr.tableEntry tail
  apply hentry.access
  simpa [Admits, arrayOffset, submissionSlot, h.sq_eq] using hr.arrayWord tail

theorem Heeds.entry (h : r.Heeds r') (hr : r.Confined) (head : UInt32) :
    r.Heeds (r'.entry head).2 := by
  apply h.access
  simpa [Admits, completionOffset, completionSlot, h.cq_eq] using hr.completion head

theorem Heeds.take (h : r.Heeds r') (hr : r.Confined) : r.Heeds r'.take.2 := by
  have hlooked := (h.completionHead hr).completionTail hr
  rw [Ring.take]
  dsimp only
  split
  · exact hlooked
  · split
    · exact hlooked
    · exact (hlooked.entry hr _).publishHead hr _

/-- Entering the kernel goes through no mapping. What the kernel does with the shared memory
is its own affair. -/
theorem Heeds.enter (h : r.Heeds r') (toSubmit minComplete flags : UInt32) :
    r.Heeds { r' with kernel := (Kernel.enter r'.kernel toSubmit minComplete flags).kernel } := by
  refine ⟨h.sq_eq, h.cq_eq, fun a ha => h.admits a ?_⟩
  rwa [← Traced.accesses_after_enter]

end Ring

/-! ## Calls of an engine

An engine has no accesses of its own. It uses its ring, and all that is to be shown is that
it does so in the ways listed above. -/

namespace Engine

variable {r : Ring κ} {e : Engine (Traced κ)}

theorem heeds_stageReads (h : r.Heeds e.ring) (hr : r.Confined) (target : ReadTarget)
    (blocks : UInt64) (count : Nat) (tail : UInt32) (policy : π) :
    r.Heeds (stageReads target blocks count tail e policy).2.1.ring := by
  induction count generalizing e tail policy with
  | zero => exact h
  | succ count ih =>
    rw [stageReads]
    split
    · exact h
    · exact ih (h.stage hr _ _) _ _

/-- The tail is stored in its place, and the kernel is entered through no mapping. -/
theorem heeds_handOver (h : r.Heeds e.ring) (hr : r.Confined) (count tail : UInt32) :
    r.Heeds (e.handOver count tail).2.ring := by
  have hentered := (h.publishTail hr tail).enter count 0 0
  rw [handOver]
  dsimp only
  split
  · next henter =>
    obtain ⟨-, rfl⟩ := Prod.mk.inj henter
    exact hentered
  · next henter =>
    obtain ⟨-, rfl⟩ := Prod.mk.inj henter
    split
    all_goals exact ⟨hentered.sq_eq, hentered.cq_eq, hentered.admits⟩

/-- A submission accesses the table and the index array at the slots of its positions. These
are masked, so they lie inside for every position that there is. -/
theorem heeds_submitReads (h : r.Heeds e.ring) (hr : r.Confined) (target : ReadTarget)
    (requested : UInt32) (policy : π) :
    r.Heeds (e.submitReads target requested policy).2.1.ring := by
  have hlooked := h.submissionTail hr
  rw [submitReads]
  dsimp only
  split
  · exact h
  · split
    · exact h
    · have hstaged := heeds_stageReads (e := ⟨e.ring.submissionTail.2, e.pool⟩) hlooked hr target
        (target.blocks e.blockSize) (min requested e.ring.available).toNat e.ring.submissionTail.1
        policy
      split
      · next hstage =>
        rw [hstage] at hstaged
        exact hstaged
      · next hstage =>
        rw [hstage] at hstaged
        exact heeds_handOver hstaged hr _ _

theorem heeds_takeOrWait (h : r.Heeds e.ring) (hr : r.Confined) (mode : ReapMode) :
    r.Heeds (e.takeOrWait mode).2.ring := by
  let P (e : Engine (Traced κ)) : Prop := r.Heeds e.ring
  have htake (e : Engine (Traced κ)) (h : P e) : P e.take.2 := h.take hr
  have henter (e : Engine (Traced κ)) (h : P e) : P (e.enter 0 1 enterGetEvents).2 :=
    h.enter 0 1 enterGetEvents
  exact takeOrWait_invariant htake henter h mode

omit [Kernel κ] in
/-- Finishing an entry is done in the pool and in the count of what is in flight. -/
theorem heeds_finish (h : r.Heeds e.ring) (c : Cqe) : r.Heeds (e.finish c).2.ring := by
  have hgive (e' : Engine (Traced κ)) (token : Token) (failure : Abort Error) :
      (e'.giveUp token failure).2.ring = e'.ring := by
    rcases hrelease : e'.pool.release token with ⟨err | _, pool⟩
    all_goals simp only [giveUp, release, hrelease]
  rw [finish]
  rcases e.pool.reclaim c.userData with ⟨err | token, pool⟩
  · exact h
  · dsimp only
    generalize (if e.ring.inFlight = 0 then 0 else e.ring.inFlight - 1) = inFlight
    split
    · rw [hgive]
      exact ⟨h.sq_eq, h.cq_eq, h.admits⟩
    · split
      · rw [hgive]
        exact ⟨h.sq_eq, h.cq_eq, h.admits⟩
      · exact ⟨h.sq_eq, h.cq_eq, h.admits⟩

theorem heeds_reap (h : r.Heeds e.ring) (hr : r.Confined) (mode : ReapMode) :
    r.Heeds (e.reap mode).2.ring := by
  have hlooked := heeds_takeOrWait h hr mode
  rcases e.reap_looked mode with hsame | ⟨c, hfinished⟩
  · rw [hsame]
    exact hlooked
  · rw [hfinished]
    exact heeds_finish hlooked c

/-- Every call of an engine keeps to the mappings. -/
theorem heeds_perform (h : r.Heeds e.ring) (hr : r.Confined) (call : Call) :
    r.Heeds (e.perform call).ring := by
  cases call with
  | submitReads target requested policy => exact heeds_submitReads h hr target requested policy
  | reap mode => exact heeds_reap h hr mode
  | drain mode =>
    exact drain_invariant (P := fun e' => r.Heeds e'.ring) (fun _ h mode => heeds_reap h hr mode) h
      mode
  | release token => exact h

/-- So does every run. -/
theorem heeds_performAll (h : r.Heeds e.ring) (hr : r.Confined) (calls : List Call) :
    r.Heeds (e.performAll calls).ring := by
  induction calls generalizing e with
  | nil => exact h
  | cons call rest ih => exact ih (heeds_perform h hr call)

end Engine

/-! ## Rings that were created

Creation is where the offsets are checked. What it lets through stays good for as long as
the ring lives, because nothing moves the parts of a ring and every position is masked
before it is used. -/

/-- **Creation admits only layouts that are accessed in bounds.** Whatever a kernel reports,
maps and has in its memory: a ring that was created has depths in order, all its parts lie
in their mappings at every position, and nothing else is accessed in any run of an engine on
it.

The numbers that creation computes on the way do not wrap, also where it fails: lengths and
ends of fields fit into 64 bits, and the depths that the masks are compared with are not
zero. -/
theorem accesses_within_mappings (kernel : κ) (capacity : UInt32) :
    (∀ r, Ring.create kernel capacity = .ok r →
      (1 ≤ capacity ∧ capacity ≤ r.sq.entries ∧ r.sq.entries ≤ r.cq.entries) ∧
      (r.sq.entries = r.params.sqEntries ∧ r.cq.entries = r.params.cqEntries) ∧
      (r.submissionRing.Contains .word r.sq.tailAt ∧
        r.completionRing.Contains .word r.cq.headAt ∧
        r.completionRing.Contains .word r.cq.tailAt) ∧
      (∀ position, r.submissionEntries.Contains .sqe (r.tableOffset position) ∧
        r.submissionRing.Contains .word (r.arrayOffset position) ∧
        r.completionRing.Contains .cqe (r.completionOffset position)) ∧
      ∀ pool calls, let e := Engine.performAll ⟨r.trace, pool⟩ calls
        e.untrace = Engine.performAll ⟨r, pool⟩ calls ∧
          ∀ a ∈ e.ring.kernel.accesses, r.Admits a) ∧
    (∀ (params : Params) (region : Region), params.regionLength region < UInt64.size) ∧
    (∀ layout, Ring.Shares layout → ∀ offset count : UInt32,
      offset.toNat + layout.size * count.toNat < UInt64.size) ∧
    ∀ params kernel', 1 ≤ capacity → Ring.negotiate kernel capacity = .ok (params, kernel') →
      1 ≤ params.sqEntries ∧ 1 ≤ params.cqEntries := by
  refine ⟨?_, Ring.regionLength_lt, fun layout => Ring.located_end_lt, ?_⟩
  · intro r h
    have hr := Ring.confined_of_create h
    obtain ⟨hdepths, hentries⟩ := Ring.depths_of_create h
    refine ⟨hdepths, hentries, ⟨hr.submissionTail, hr.completionHead, hr.completionTail⟩, ?_, ?_⟩
    · intro position
      exact ⟨hr.tableEntry position, hr.arrayWord position, hr.completion position⟩
    · intro pool calls
      refine ⟨Engine.untrace_performAll ⟨r, pool⟩ calls, ?_⟩
      exact (Engine.heeds_performAll (e := ⟨r.trace, pool⟩) r.heeds_trace hr calls).admits
  · intro params kernel' hone h
    obtain ⟨hsq, hcq⟩ := Ring.le_of_negotiate h
    have hsq' := UInt32.le_trans hone hsq
    exact ⟨hsq', UInt32.le_trans hsq' hcq⟩

/-- A kernel that reports a submission queue of six entries, with the mask that goes with
them. -/
def MisreportingKernel.oddDepth : MisreportingKernel where
  inner := { file := SimulatedKernel.patternedFile 4 8 }
  report :=
    { amend := fun params => { params with sqEntries := 6 }, words := [(.submissionRing, 8, 5)] }

/-- A ring of six entries on a kernel that claims to have posted a completion. Five reads
are staged, and the completion is taken. -/
theorem accesses_of_odd_depth :
    ∃ r, Ring.create (MisreportingKernel.oddDepth.setWord .completionRing 4 1) 5 = .ok r ∧
      ∃ pool, Pool.create 7 { blockSize := 8, alignment := 8 } = .ok pool ∧
        let calls : List Call :=
          [.submitReads ⟨3, 32⟩ 5 ({} : Walker), .reap .blocking, .reap .nonBlocking]
        let accesses := (Engine.performAll ⟨r.trace, pool⟩ calls).ring.kernel.accesses
        r.sq.entries = 6 ∧ accesses.length = 18 ∧ .loadEntry 32 ∈ accesses ∧
          ∀ a ∈ accesses, r.Admits a := by
  refine ⟨_, rfl, _, rfl, ?_, ?_, ?_, ?_⟩
  · decide +kernel
  · decide +kernel
  · decide +kernel
  · obtain ⟨h, -⟩ :=
      accesses_within_mappings (MisreportingKernel.oddDepth.setWord .completionRing 4 1) 5
    obtain ⟨-, -, -, -, hrun⟩ := h _ rfl
    exact (hrun _ _).2

end RingRead
