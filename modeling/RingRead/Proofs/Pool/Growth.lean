import Mathlib.Order.Bounds.Basic
import RingRead.Proofs.Pool.Batch
import RingRead.Proofs.Pool.Quarantine

/-!
# How far a pool grows

A pool makes a new block only when its free stack is empty, and then every block is in use
or was reported as damaged. So the number of its blocks follows the largest number that were
ever in use at once, and gets ahead of it by the damaged ones alone (`Inventory.Frugal`).

* **Allocations.** No other event makes a block or puts one in use
  (`Pool.undergo_of_ne_allocate`). A batch puts as many blocks in use as it has reads
  (`Pool.stats_loanReads`).
* **The peak.** A run has gone through some states, and the counter of the peak is the
  largest number of blocks that were in use in one of them
  (`Inventory.isGreatest_peakInUse`).
* **The size.** `Inventory.size_of_run` compares the number of blocks with that maximum.
-/

namespace RingRead

namespace Pool

variable {p : Pool}

@[simp] theorem stats_receiveAll (p : Pool) (transfers : List Transfer) :
    (p.receiveAll transfers).stats = p.stats := by
  induction transfers generalizing p with
  | nil => rfl
  | cons transfer rest ih => exact (ih (p.receive transfer)).trans (stats_receive p transfer)

/-- An allocation puts one block more in use, whether the block is new or not. -/
theorem handOut_of_allocate {t : Token} {p' : Pool} (hok : p.allocate = (.ok t, p')) :
    p'.stats.inUse = p.stats.inUse + 1 ∧
      p'.stats.peakInUse = max p.stats.peakInUse (p.stats.inUse + 1) := by
  rcases stats_allocate hok with ⟨-, hstats⟩ | ⟨-, hstats⟩
  · rw [hstats]
    exact ⟨rfl, rfl⟩
  · rw [hstats]
    exact ⟨rfl, rfl⟩

/-- A complete batch puts as many blocks in use as it has reads, and the peak follows. -/
theorem stats_loanReads {π : Type} [OffsetPolicy π] {blocks : UInt64} {count : Nat} {policy : π}
    (hpeak : p.stats.inUse ≤ p.stats.peakInUse)
    (hok : (loanReads blocks count p policy).1 = .ok ()) :
    let stats := (loanReads blocks count p policy).2.2.1.stats
    stats.inUse = p.stats.inUse + count ∧
      stats.peakInUse = max p.stats.peakInUse (p.stats.inUse + count) := by
  induction count generalizing p policy with
  | zero => exact ⟨rfl, (Nat.max_eq_left hpeak).symm⟩
  | succ count ih =>
    obtain ⟨t, p', halloc⟩ := allocate_of_loanReads hok
    obtain ⟨hinUse, hmax⟩ := handOut_of_allocate halloc
    have hloan : (p'.loan t).2.stats = p'.stats := rfl
    rw [loanReads_of_ok halloc] at hok ⊢
    obtain ⟨hinUse', hmax'⟩ := ih (by rw [hloan]; omega) hok
    rw [hloan] at hinUse' hmax'
    dsimp only
    rw [hinUse', hmax', hinUse, hmax]
    omega

end Pool

namespace Inventory

variable {i : Inventory} {event : PoolEvent} {events : List PoolEvent}

/-- The number of blocks that are held or on loan. It is counted from the states, not read
off a counter, and the results below compare the two. -/
def used (i : Inventory) : Nat := i.pool.count .held + i.pool.count .loaned

/-! ## Blocks that are made

Only an allocation with an empty free stack makes a block. At that moment every block is in
use or damaged, so the peak moves along with the number of blocks, and the inequality
between them survives. When blocks are given back the peak stays and the inequality with
it. -/

/-- The books balance, and there are no more blocks than were in use at once and were
reported as damaged. The second half needs the first: that the peak bounds the blocks says
little unless the peak is right. -/
structure Frugal (i : Inventory) : Prop extends i.Balanced where
  size_le : i.pool.size ≤ i.pool.stats.peakInUse + i.damaged.length

/-- The books of a new pool say that it has no blocks. -/
theorem frugal_create {serial : UInt32} {config : PoolConfig} {mappings : MappingAnswers}
    {pool : Pool} (h : Pool.create serial config mappings = .ok pool) : Frugal { pool } := by
  obtain ⟨-, hsize, -⟩ := Pool.sound_create h
  exact ⟨balanced_create h, hsize ▸ Nat.zero_le _⟩

/-- An allocation makes a new block if no block is free. Then all but the damaged ones are
in use, and the peak grows with them. -/
theorem Frugal.allocate (h : i.Frugal) : (i.step (.call .allocate)).Frugal := by
  refine ⟨h.toBalanced.allocate, ?_⟩
  have hsize := h.size_le
  have hall := h.toBalanced.size_eq
  rcases halloc : i.pool.allocate with ⟨err | t, p'⟩
  · rcases Pool.allocate_error_cases halloc with
      ⟨-, -, rfl, rfl⟩ | ⟨refusal, -, -, -, rfl, rfl⟩ | ⟨n, rest, -, -, rfl, rfl⟩
    · simpa [step, Pool.undergo, Pool.reported?, halloc] using hsize
    · have hsame : i.pool.refused.size ≤ i.pool.refused.stats.peakInUse + i.damaged.length := hsize
      simpa [step, Pool.undergo, Pool.reported?, halloc] using hsame
    -- a damaged block is a block more that is out of use, so the bound grows with it
    · have hmore : ({ i.pool with free := rest } : Pool).size ≤
          i.pool.stats.peakInUse + (i.damaged.length + 1) :=
        Nat.le_succ_of_le hsize
      simpa [step, Pool.undergo, Pool.reported?, halloc] using hmore
  · obtain ⟨-, hpeak⟩ := Pool.handOut_of_allocate halloc
    have horigin := (Pool.allocates_of_ok h.sound halloc).origin
    simp only [step, Pool.undergo, Pool.reported?, halloc, Option.toList_none, List.nil_append,
      hpeak]
    -- the pool grows by one only if all blocks that are not damaged are in use
    rcases horigin with ⟨-, hsame⟩ | ⟨hnone, -, -, hnew⟩
    · omega
    · rw [hnone, List.length_nil] at hall
      omega

/-- However calls and bytes follow on each other, a pool makes no more blocks than it has
to. -/
theorem Frugal.step (h : i.Frugal) (hpermits : i.pool.Permits event) : (i.step event).Frugal := by
  by_cases hevent : event = .call .allocate
  · exact hevent ▸ h.allocate
  · obtain ⟨hsize, hstats⟩ := Pool.undergo_of_ne_allocate (p := i.pool) hevent
    have hpeak : (i.pool.undergo event).stats.peakInUse = i.pool.stats.peakInUse := by
      rcases hstats with hstats | hstats
      · rw [hstats]
      · rw [hstats, PoolStats.recordRelease]
    refine ⟨h.toBalanced.step hpermits, ?_⟩
    have hle := h.size_le
    simp only [Inventory.step, hsize, hpeak, List.length_append]
    omega

/-- From a frugal pool on, every run stays frugal. -/
theorem Frugal.run (h : i.Frugal) (hpermitted : i.Permitted events) : (i.run events).Frugal := by
  induction events generalizing i with
  | nil => exact h
  | cons event rest ih =>
    obtain ⟨hpermits, hrest⟩ := hpermitted
    exact ih (h.step hpermits) hrest

/-- A pool that has grown had an empty free stack, and all its blocks were in use or
damaged. -/
theorem Balanced.used_of_growth (h : i.Balanced) (hmore : i.pool.size < (i.step event).pool.size) :
    event = .call .allocate ∧ i.pool.free = [] ∧ i.used + i.damaged.length = i.pool.size := by
  have hevent : event = .call .allocate := by
    by_contra hother
    obtain ⟨hsize, -⟩ := Pool.undergo_of_ne_allocate (p := i.pool) hother
    exact absurd hsize (Nat.ne_of_gt hmore)
  subst hevent
  have hempty : i.pool.free = [] := by
    rcases halloc : i.pool.allocate with ⟨err | t, p'⟩
    · rcases Pool.allocate_error_cases halloc with
        ⟨hfree, -⟩ | ⟨refusal, hfree, -⟩ | ⟨n, rest, -, -, -, rfl⟩
      · exact hfree
      · exact hfree
      · simp [Inventory.step, Pool.undergo, halloc, Pool.size] at hmore
    · rcases (Pool.allocates_of_ok h.sound halloc).origin with ⟨-, hsame⟩ | ⟨hfree, -⟩
      · simp [Inventory.step, Pool.undergo, halloc, hsame] at hmore
      · exact hfree
  have hall := h.size_eq
  rw [hempty, h.inUse_eq] at hall
  exact ⟨rfl, hempty, hall⟩

/-! ## The peak

The peak is a counter that one operation writes. What it counts is a maximum over the
history of the pool, and a history is made of the points that a run goes through: one for
each part of the run that starts at its beginning. -/

/-- The peak follows the number of blocks in use: after an event it is the larger one of the
old peak and the number that are in use now. -/
theorem Balanced.peakInUse_step (h : i.Balanced) (event : PoolEvent) :
    (i.step event).pool.stats.peakInUse =
      max i.pool.stats.peakInUse (i.step event).pool.stats.inUse := by
  have hle := h.inUse_le
  by_cases hevent : event = .call .allocate
  · subst hevent
    change i.pool.allocate.2.stats.peakInUse = max _ i.pool.allocate.2.stats.inUse
    rcases halloc : i.pool.allocate with ⟨err | t, p'⟩
    · rw [Pool.stats_of_allocate_error halloc, Nat.max_eq_left hle]
    · obtain ⟨hinUse, hpeak⟩ := Pool.handOut_of_allocate halloc
      rw [hinUse, hpeak]
  · obtain ⟨-, hstats⟩ := Pool.undergo_of_ne_allocate (p := i.pool) hevent
    change (i.pool.undergo event).stats.peakInUse = max _ (i.pool.undergo event).stats.inUse
    rcases hstats with hstats | hstats
    · rw [hstats, Nat.max_eq_left hle]
    · rw [hstats]
      exact (Nat.max_eq_left (Nat.le_trans (Nat.sub_le ..) hle)).symm

/-- How many blocks were in use at the points of a run, its start and its end included. -/
def usage (i : Inventory) (events : List PoolEvent) : Set Nat :=
  {n | ∃ past, past <+: events ∧ (i.run past).used = n}

/-- A number of blocks was in use if it was in use after some part of the run. -/
theorem mem_usage_iff {n : Nat} :
    n ∈ i.usage events ↔ ∃ past, past <+: events ∧ (i.run past).used = n :=
  Iff.rfl

theorem usage_nil (i : Inventory) : i.usage [] = {i.used} := by
  ext n
  simp [mem_usage_iff, run, eq_comm]

/-- One more event adds the number in use after it. -/
theorem usage_concat (i : Inventory) (past : List PoolEvent) (event : PoolEvent) :
    i.usage (past ++ [event]) = i.usage past ∪ {(i.run (past ++ [event])).used} := by
  ext n
  simp only [mem_usage_iff, List.prefix_concat_iff, Set.mem_union, Set.mem_singleton_iff]
  constructor
  · rintro ⟨_, rfl | hprefix, hused⟩
    · exact Or.inr hused.symm
    · exact Or.inl ⟨_, hprefix, hused⟩
  · rintro (⟨point, hprefix, hused⟩ | rfl)
    · exact ⟨point, Or.inr hprefix, hused⟩
    · exact ⟨_, Or.inl rfl, rfl⟩

/-- The counter of the peak is the largest number of blocks that were in use at one point of
the run, if it starts out as the number of blocks that are in use. -/
theorem isGreatest_peakInUse (h : i.Balanced) (hstart : i.pool.stats.peakInUse = i.used)
    (hpermitted : i.Permitted events) :
    IsGreatest (i.usage events) (i.run events).pool.stats.peakInUse := by
  induction events using List.reverseRecOn with
  | nil =>
    rw [usage_nil]
    exact hstart ▸ isGreatest_singleton
  | append_singleton past event ih =>
    obtain ⟨hpast, hpermits⟩ := permitted_concat hpermitted
    have hbalanced : (i.run past).Balanced := h.run hpast
    rw [usage_concat, run_concat, hbalanced.peakInUse_step,
      (hbalanced.step hpermits).inUse_eq]
    exact (ih hpast).union isGreatest_singleton

/-! ## The size

Both bounds together: the invariant gives the upper one, the peak's being at most the number
of blocks gives the lower one, and a new pool satisfies what either of them asks of the
start. -/

/-- **A pool grows only when it must.** Take a new pool through any calls and any bytes that
arrive in its blocks, as in `balanced_of_run`. Then at every point

* the peak is the largest number of blocks that were held or on loan at the same time;
* there are at least as many blocks as that, and at most as many more as were reported as
  damaged;
* so as long as none was reported, the number of blocks is that maximum;
* there are no more blocks than 32-bit numbers, so neither number gets past its 64 bits;
* an event that makes a new block is an allocation, with nothing on the free stack and all
  blocks in use or damaged.
-/
theorem size_of_run {serial : UInt32} {config : PoolConfig} {mappings : MappingAnswers}
    {pool : Pool} (hcreate : Pool.create serial config mappings = .ok pool)
    (events : List PoolEvent) (hpermitted : Permitted { pool } events) :
    let i := run { pool } events
    let peak := i.pool.stats.peakInUse
    IsGreatest (usage { pool } events) peak ∧
      (peak ≤ i.pool.size ∧ i.pool.size ≤ peak + i.damaged.length) ∧
      (i.damaged = [] → IsGreatest (usage { pool } events) i.pool.size) ∧
      i.pool.size ≤ UInt32.size ∧
      ∀ event, i.pool.size < (i.step event).pool.size →
        event = .call .allocate ∧ i.pool.free = [] ∧ i.used + i.damaged.length = i.pool.size := by
  intro i peak
  have hnew : Frugal { pool } := frugal_create hcreate
  have h : i.Frugal := hnew.run hpermitted
  have hstart : pool.stats.peakInUse = used { pool } := by
    obtain ⟨-, hsize, -⟩ := Pool.sound_create hcreate
    have hpeak : pool.stats.peakInUse ≤ 0 := hsize ▸ hnew.peakInUse_le
    have hle : pool.stats.inUse ≤ pool.stats.peakInUse := hnew.inUse_le
    have hinUse : pool.stats.inUse = used { pool } := hnew.inUse_eq
    omega
  have hgreatest : IsGreatest (usage { pool } events) peak :=
    isGreatest_peakInUse hnew.toBalanced hstart hpermitted
  refine ⟨hgreatest, ⟨h.peakInUse_le, h.size_le⟩, fun hnone => ?_, h.sound.size_le,
    fun event => ?_⟩
  · have hle := h.size_le
    rw [hnone, List.length_nil, Nat.add_zero] at hle
    rwa [Nat.le_antisymm hle h.peakInUse_le]
  · exact h.toBalanced.used_of_growth

/-- Of two blocks that were given back one is written to, and reported. The other one is
recycled, and the next allocation makes a third block, although two were in use at most. -/
theorem size_after_damage :
    ∃ pool, Pool.create 7 { blockSize := 8, alignment := 8 } = .ok pool ∧
      let quiet : List PoolEvent :=
        [.call .allocate, .call .allocate, .call (.release ⟨0, 7⟩), .call (.release ⟨1, 7⟩)]
      let events := quiet ++
        [.receive ⟨Address.ofIndex 1, .zeros 8⟩, .call .allocate, .call .allocate, .call .allocate]
      Permitted { pool } quiet ∧ IsGreatest (usage { pool } quiet) 2 ∧
        (run { pool } quiet).pool.size = 2 ∧
        Permitted { pool } events ∧ IsGreatest (usage { pool } events) 2 ∧
        (run { pool } events).pool.size = 3 ∧ (run { pool } events).damaged = [1] := by
  let pool : Pool := { serial := 7, config := { blockSize := 8, alignment := 8 } }
  have hcreate : Pool.create 7 { blockSize := 8, alignment := 8 } = .ok pool := rfl
  refine ⟨pool, hcreate, ?_⟩
  intro quiet events
  have hquiet : Permitted { pool } quiet := by decide +kernel
  have hundamaged : (run { pool } quiet).damaged = [] := by decide +kernel
  have htwo : (run { pool } quiet).pool.size = 2 := by decide +kernel
  have hevents : Permitted { pool } events := by decide +kernel
  have hpeak : (run { pool } events).pool.stats.peakInUse = 2 := by decide +kernel
  have hthree : (run { pool } events).pool.size = 3 := by decide +kernel
  have hdamaged : (run { pool } events).damaged = [1] := by decide +kernel
  obtain ⟨-, -, hsize, -⟩ := size_of_run hcreate quiet hquiet
  obtain ⟨hgreatest, -⟩ := size_of_run hcreate events hevents
  exact ⟨hquiet, htwo ▸ hsize hundamaged, htwo, hevents, hpeak ▸ hgreatest, hthree, hdamaged⟩

end Inventory

end RingRead
