import RingRead.Policy.Choice
import RingRead.Proofs.Engine.Losses
import RingRead.Proofs.Engine.Asking

/-!
# What a submission stages

**A batch of correct reads.** In a pool without damage there is room for a batch as long as
there are block numbers for it and the system maps their memory (`Pool.room`). Then every
entry that is staged reads a whole block of the target, the one that was chosen, into a
block of the pool that was idle, and nothing that the entry says was cut down to fit
(`Engine.reads_staged`). This holds whatever the policy chooses.

**A batch that is not complete.** A submission that fails before it enters the kernel
publishes nothing and puts no read in flight. But the blocks of the entries that it has
staged are on loan, and stay there, with no entry that the kernel will ever see. This is so
unless already the first allocation failed (`Engine.loaned_of_unentered`,
`Engine.loaned_without_entry`).
-/

namespace RingRead

/-- A policy and the numbers of blocks that it was asked with, oldest first. What it chooses
is what the policy inside it chooses. -/
structure Questioned (π : Type) where
  policy : π
  questions : List UInt64 := []

/-- The entry reads the chosen block of a target into a block of the pool that is idle, and
gives the number of that block as its tag. Offset, length and address are said as numbers
without bounds, so that a number that was cut down would not pass. -/
structure Sqe.Fetches (s : Sqe) (p : Pool) (target : ReadTarget) (choice : UInt64) : Prop where
  read_eq : s = .read target.descriptor s.off s.addr s.len s.userData
  off_eq : s.off.toNat = (choice % target.blocks p.blockSize).toNat * p.blockSize
  off_add_le : s.off.toNat + p.blockSize ≤ target.size.toNat
  len_eq : s.len.toNat = p.blockSize
  names_idle : ∃ id : UInt32, s.Names id ∧
    (p.state? id.toNat = some .free ∨ p.state? id.toNat = none)

variable {κ π : Type} [OffsetPolicy π]

instance : OffsetPolicy (Questioned π) where
  next q blocks :=
    let (choice, policy) := OffsetPolicy.next q.policy blocks
    (choice, ⟨policy, q.questions ++ [blocks]⟩)

namespace Pool

variable {p : Pool}

/-- A policy that is questioned chooses as it would anyway, and is asked once for each
read. -/
theorem loanReads_questioned (blocks : UInt64) (count : Nat) (p : Pool) (q : Questioned π) :
    let loan := loanReads blocks count p q.policy
    loanReads blocks count p q =
      (loan.1, loan.2.1, loan.2.2.1,
        ⟨loan.2.2.2, q.questions ++ List.replicate loan.2.1.length blocks⟩) := by
  induction count generalizing p q with
  | zero => simp [loanReads]
  | succ count ih =>
    rcases halloc : p.allocate with ⟨e | t, p'⟩
    · simp [loanReads_of_error halloc]
    · have hrest := ih (p'.loan t).2 (OffsetPolicy.next q blocks).2
      simp only [loanReads_of_ok halloc]
      rw [hrest]
      simp only [List.length_cons, List.replicate_succ]
      exact congrArg _ (congrArg _ (congrArg _ (congrArg _ (List.append_assoc ..))))

@[simp] theorem length_choices (policy : π) (blocks : UInt64) (count : Nat) :
    (choices policy blocks count).length = count := by
  induction count generalizing policy with
  | zero => rfl
  | succ count ih => exact congrArg Nat.succ (ih _)

/-- The entries of a complete batch read what was chosen. Of a choice that is too large the
remainder is taken, so every choice is a block of the target. -/
theorem fetches_of_complete {target : ReadTarget} {count : Nat} {policy : π} (h : p.Sound)
    (hvalid : p.config.fault? = none) (hblocks : target.blocks p.blockSize ≠ 0)
    (hok : (loanReads (target.blocks p.blockSize) count p policy).1 = .ok ()) :
    List.Forall₂ (fun choice s => s.Fetches p target choice)
      (choices policy (target.blocks p.blockSize) count)
      ((loanReads (target.blocks p.blockSize) count p policy).2.1.map
        (·.entry target p.blockSize)) := by
  have hbatch := loanReads_eq_batch h hblocks hok
  have hlength := (length_loanReads p (target.blocks p.blockSize) count policy).2 hok
  have hloans := loans_loanReads h (target.blocks p.blockSize) count policy
  obtain ⟨-, hsize⟩ := blockSize_bounds hvalid
  refine List.forall₂_iff_get.mpr ⟨by simp [hlength], fun i hi hi' => ?_⟩
  rw [List.length_map] at hi'
  let r := (loanReads (target.blocks p.blockSize) count p policy).2.1[i]
  have hr : r ∈ (loanReads (target.blocks p.blockSize) count p policy).2.1 := List.getElem_mem hi'
  have hoffset : r.offset =
      ((choices policy (target.blocks p.blockSize) count)[i] %
        target.blocks p.blockSize).toNat * p.blockSize := by
    simp only [r, hbatch, batch, List.getElem_zipWith]
  have hend := offset_add_le (p := p) (choices policy (target.blocks p.blockSize) count)[i] hblocks
  -- the offset is that of a block of the target, so it fits in the 64 bits of the entry
  have hlt : r.offset < UInt64.size := by
    rw [hoffset]
    exact Nat.lt_of_le_of_lt (Nat.le_of_add_right_le hend) target.size.toNat_lt
  have hoff : (r.entry target p.blockSize).off.toNat = r.offset := UInt64.toNat_ofNat_of_lt' hlt
  have hlen : (r.entry target p.blockSize).len.toNat = p.blockSize :=
    UInt32.toNat_ofNat_of_lt' hsize
  simp only [List.get_eq_getElem, List.getElem_map]
  exact ⟨rfl, hoff.trans hoffset, by rw [hoff, hoffset]; exact hend, hlen, r.block, ⟨rfl, rfl⟩,
    hloans.idle _ (List.mem_map_of_mem hr)⟩

end Pool

namespace Engine

/-! ## What no call changes

The block size is part of the settings of the pool. That it stays what it was is used
wherever an offset is computed from it in one call and looked at after another. -/

variable {e e' : Engine κ}

theorem config_of_drifts (h : e.Drifts e') : e'.pool.config = e.pool.config := by
  obtain ⟨kernel, transfers, rfl⟩ := h
  exact Pool.config_receiveAll ..

theorem config_finish (h : e.pool.Sound) (c : Cqe) :
    (e.finish c).2.pool.config = e.pool.config := by
  by_cases hloaned : e.pool.state? c.userData.toNat = some .loaned
  · have hreturned : (e.returned c).pool.config = e.pool.config :=
      (Pool.moves_reclaim hloaned).config_eq
    rw [finish_of_loaned h hloaned]
    cases e.verdict c with
    | error err => exact (Pool.moves_release (check_returned h hloaned)).config_eq.trans hreturned
    | ok completion => exact hreturned
  · rw [finish_of_unknown hloaned]

variable [Kernel κ] {target : ReadTarget} {requested count : UInt32} {policy : π}

theorem config_reap (h : e.pool.Sound) (mode : ReapMode) :
    (e.reap mode).2.pool.config = e.pool.config := by
  have hdrifts : e.Drifts (e.takeOrWait mode).2 := drifts_of_takeOrWait rfl
  have hconfig := config_of_drifts hdrifts
  rcases e.reap_looked mode with hlooked | ⟨c, hfinished⟩
  · rw [hlooked]
    exact hconfig
  · rw [hfinished]
    exact (config_finish (sound_of_drifts h hdrifts) c).trans hconfig

/-- The configuration of a pool stays, so block sizes can be compared from one submission to
the next. -/
theorem config_submitReads (h : e.pool.Sound) (target : ReadTarget) (requested : UInt32)
    (policy : π) : (e.submitReads target requested policy).2.1.pool.config = e.pool.config := by
  have hstaged (count : UInt32) : (e.staged target count policy).pool.config = e.pool.config :=
    (Pool.loans_loanReads h (target.blocks e.blockSize) count.toNat policy).moves.config_eq
  rcases submitReads_cases h target requested policy with hsame | ⟨-, -, hsame | ⟨-, hhanded⟩⟩
  · rw [hsame]
  · rw [hsame]
    exact hstaged _
  · obtain ⟨-, inFlight, hengine⟩ := e.handOver_eq target (min requested e.ring.available) policy
    rw [← congrArg Prod.snd hhanded] at hengine
    change (e.submitReads target requested policy).2.1 = _ at hengine
    rw [hengine]
    exact (Pool.config_receiveAll ..).trans (hstaged _)

theorem blockSize_submitReads (h : e.pool.Sound) (target : ReadTarget) (requested : UInt32)
    (policy : π) : (e.submitReads target requested policy).2.1.blockSize = e.blockSize :=
  congrArg PoolConfig.blockSize (config_submitReads h target requested policy)

theorem config_drain (h : e.Balanced) (mode : ReapMode) :
    (e.drain mode).2.pool.config = e.pool.config := by
  have hboth := drain_invariant (P := fun e' => e'.Balanced ∧ e'.pool.config = e.pool.config)
    (fun _ h mode => ⟨h.1.reap mode, (config_reap h.1.sound mode).trans h.2⟩) ⟨h, rfl⟩ mode
  exact hboth.2

/-- No call changes the configuration of the pool. -/
theorem config_perform (h : e.Balanced) (call : Call) :
    (e.perform call).pool.config = e.pool.config := by
  cases call with
  | submitReads target requested policy => exact config_submitReads h.sound target requested policy
  | reap mode => exact config_reap h.sound mode
  | drain mode => exact config_drain h mode
  | release token =>
    rcases hcheck : e.pool.check token with err | _
    · rw [perform, release, Pool.release_error hcheck]
    · exact (Pool.moves_release hcheck).config_eq

/-- Bytes may arrive in any block at any time, without a call and before the read is over
that they are for. -/
theorem Reachable.receiveAll (h : e.Reachable) (transfers : List Transfer) :
    Reachable ⟨e.ring, e.pool.receiveAll transfers⟩ :=
  h.drifted ⟨e.ring.kernel, transfers, rfl⟩

/-- The pool of an engine has the valid configuration that it was created with. -/
theorem Reachable.valid (h : e.Reachable) : e.pool.config.fault? = none := by
  induction h with
  | created h =>
    obtain ⟨hpool, -⟩ := create_eq_ok h
    exact (Pool.intact_create hpool).valid
  | performed h call ih => rw [config_perform h.balanced, ih]
  | drifted _ hdrifts ih => rw [config_of_drifts hdrifts, ih]

/-! ## Complete batches

The reads of a batch are chosen by a policy, which may be any function of a state. What
makes them correct is that the engine reduces each choice to a block of the target, and that
the pool loans a block once. -/

/-- A submission by a policy that is questioned goes as it would anyway, and asks the policy
inside the same questions. -/
theorem submitReads_questioned (h : e.pool.Sound) (target : ReadTarget) (requested : UInt32)
    (q : Questioned π) :
    let submitted := e.submitReads target requested q.policy
    let questioned := e.submitReads target requested q
    submitted = (questioned.1, questioned.2.1, questioned.2.2.policy) := by
  intro submitted questioned
  by_cases hcount : min requested e.ring.available = 0
  · simp only [submitted, questioned, submitReads_of_full hcount]
  by_cases hblocks : target.blocks e.blockSize = 0
  · simp only [submitted, questioned, submitReads_of_small hcount hblocks]
  have hloan := Pool.loanReads_questioned (target.blocks e.blockSize)
    (min requested e.ring.available).toNat e.pool q
  have hplain := submitReads_of_room h rfl hcount hblocks q.policy
  have hasked := submitReads_of_room h rfl hcount hblocks q
  simp only [staged, hloan] at hasked
  have hboth := hplain.trans hasked.symm
  have hpolicy := policy_submitReads h rfl hcount hblocks q.policy
  have hpolicy' := policy_submitReads h rfl hcount hblocks q
  rw [hloan] at hpolicy'
  refine Prod.ext (Prod.mk.inj hboth).1 (Prod.ext (Prod.mk.inj hboth).2 ?_)
  rw [hpolicy]
  exact (congrArg Questioned.policy hpolicy').symm

/-- A policy that is questioned is asked once for each read that is staged. -/
theorem questions_submitReads (h : e.pool.Sound) (hne : min requested e.ring.available ≠ 0)
    (hblocks : target.blocks e.blockSize ≠ 0) (policy : π) :
    let entries := e.stagedEntries target (min requested e.ring.available) policy
    (e.submitReads target requested (Questioned.mk policy [])).2.2.questions =
      List.replicate entries.length (target.blocks e.blockSize) := by
  intro entries
  have hpolicy := policy_submitReads h rfl hne hblocks (Questioned.mk policy [])
  rw [Pool.loanReads_questioned] at hpolicy
  rw [hpolicy, List.nil_append, ← List.length_map (·.entry target e.blockSize)]
  rfl

/-- However a submission with room for a batch ends, the states of the blocks are those that
staging the batch has led to. -/
theorem state?_submitReads (h : e.pool.Sound)
    (hcount : min requested e.ring.available = count) (hne : count ≠ 0)
    (hblocks : target.blocks e.blockSize ≠ 0) (policy : π) (id : Nat) :
    (e.submitReads target requested policy).2.1.pool.state? id =
      (e.staged target count policy).pool.state? id := by
  have hsubmit := submitReads_of_room h hcount hne hblocks policy
  rcases hloan : (Pool.loanReads (target.blocks e.blockSize) count.toNat e.pool policy).1
    with err | _
  all_goals rw [hloan] at hsubmit
  · have hengine : (e.submitReads target requested policy).2.1 = e.staged target count policy :=
      congrArg Prod.snd hsubmit
    rw [hengine]
  · have hengine : (e.submitReads target requested policy).2.1 =
        ((e.staged target count policy).handOver count (e.ring.submissionTail.1 + count)).2 :=
      congrArg Prod.snd hsubmit
    obtain ⟨-, inFlight, hhanded⟩ := e.handOver_eq target count policy
    rw [hengine, hhanded]
    exact Pool.state?_receiveAll ..

/-- **Every entry that is staged is a correct read.** The engine is in any state that calls
have led to, on any kernel, and no free block has lost its mark. The target has a block, and
the policy chooses what it likes.

What a submission asks of policy and kernel does not depend on whether they are watched. If
there is no room for the batch in the pool, because block numbers run out or because the
system refuses to map memory for another block, it says so and does not enter the kernel.
Otherwise:

* The policy is asked once for each read, every time with the same number of blocks, which
  is not zero.
* The entries are stored at the positions from the tail on, the tail is moved past them, and
  the kernel is entered once. For no reads nothing is asked.
* Each entry fetches what was chosen for it, into a block that was not on loan
  (`Sqe.Fetches`). All tags differ, and the blocks that they name are on loan now. -/
theorem reads_staged (h : e.Reachable) (hmarked : e.pool.Marked)
    (htarget : e.blockSize ≤ target.size.toNat) (requested : UInt32) (policy : π) :
    let count := min requested e.ring.available
    let blocks := target.blocks e.blockSize
    let submitted := e.submitReads target requested policy
    let traced := e.trace.submitReads target requested (Questioned.mk policy [])
    let operations := traced.2.1.ring.kernel.operations
    submitted = (traced.1, traced.2.1.untrace, traced.2.2.policy) ∧
      count.toNat = min requested.toNat (e.capacity.toNat - e.inFlight.toNat) ∧
      blocks ≠ 0 ∧
      (e.pool.room < count.toNat ∧ submitted.1 = .error e.pool.shortage ∧
          (e.pool.shortage = .poolExhausted UInt32.size ∨
            ∃ err, some err ∈ e.pool.mappings ∧ e.pool.shortage = .alloc err) ∧
          (∀ toSubmit minComplete flags, .enter toSubmit minComplete flags ∉ operations) ∨
        count.toNat ≤ e.pool.room ∧
          traced.2.2.questions = List.replicate count.toNat blocks ∧
          ∃ entries, operations =
              (if count = 0 then []
                else e.ring.stagingOperations entries ++ e.ring.handOverOperations count) ∧
            List.Forall₂ (fun choice s => s.Fetches e.pool target choice)
              (Pool.choices policy blocks count.toNat) entries ∧
            (entries.map Sqe.userData).Nodup ∧
            ∀ s ∈ entries, submitted.2.1.pool.state? s.userData.toNat = some .loaned) := by
  intro count blocks submitted traced operations
  have hsound := h.balanced.sound
  obtain ⟨hpos, -⟩ := Pool.blockSize_bounds h.valid
  have hblocks : blocks ≠ 0 :=
    ReadTarget.blocks_ne_zero (Nat.lt_of_lt_of_le (by decide) hpos) htarget
  -- neither the questions nor the trace make a difference
  have huntraced := e.untrace_submitReads target requested (Questioned.mk policy [])
  have hplain : submitted = (traced.1, traced.2.1.untrace, traced.2.2.policy) := by
    have hquestioned := e.submitReads_questioned hsound target requested (Questioned.mk policy [])
    rw [huntraced] at hquestioned
    exact hquestioned
  have htraced : traced.2.1 = (e.trace.submitReads target requested policy).2.1 := by
    have hquestioned := e.trace.submitReads_questioned hsound target requested
      (Questioned.mk policy [])
    rw [hquestioned]
  refine ⟨hplain, ?_, hblocks, ?_⟩
  · rw [UInt32.toNat_min, h.balanced.toNat_available]
  by_cases hcount : count = 0
  · have hnothing : operations = [] := operations_of_nothing (Or.inl hcount)
    have hasked : traced.2.2.questions = [] := by
      rw [show traced = _ from submitReads_of_full hcount]
    have hzero : count.toNat = 0 := by rw [hcount, UInt32.toNat_zero]
    rw [hzero]
    exact Or.inr ⟨Nat.zero_le _, hasked, [], by rw [hnothing, if_pos hcount], .nil, List.nodup_nil,
      by simp⟩
  rcases hmarked.loanReads_cases hsound blocks count.toNat policy with
    ⟨hok, hroom⟩ | ⟨herror, hroom⟩
  · have hlength : (e.stagedEntries target count policy).length = count.toNat := by
      rw [stagedEntries, List.length_map]
      exact (Pool.length_loanReads e.pool blocks count.toNat policy).2 hok
    have hasked : traced.2.2.questions = List.replicate count.toNat blocks := by
      rw [← hlength, ← questions_submitReads hsound hcount hblocks policy, huntraced]
    have hnodup : ((e.stagedEntries target count policy).map Sqe.userData ++ []).Nodup :=
      nodup_tags_stagedEntries hsound List.nodup_nil (by simp)
    refine Or.inr ⟨hroom, hasked, e.stagedEntries target count policy, ?_,
      Pool.fetches_of_complete hsound h.valid hblocks hok, by simpa using hnodup, ?_⟩
    · rw [if_neg hcount, ← operations_of_complete hsound rfl hcount hblocks hok, ← htraced]
    · intro s hs
      obtain ⟨id, ⟨htag, -⟩, hloaned⟩ := names_of_mem_stagedEntries hsound hs
      rw [htag, UInt32.toNat_toUInt64]
      exact (state?_submitReads hsound rfl hcount hblocks policy id.toNat).trans hloaned
  · have hincomplete := operations_of_incomplete hsound rfl hcount hblocks herror
    rw [← htraced] at hincomplete
    have hsubmit := submitReads_of_room hsound rfl hcount hblocks policy
    rw [herror] at hsubmit
    refine Or.inl ⟨hroom, (Prod.mk.inj hsubmit).1, e.pool.shortage_cases,
      fun toSubmit minComplete flags => ?_⟩
    rw [show operations = _ from hincomplete]
    exact e.ring.enter_not_mem_stagingOperations _ toSubmit minComplete flags

/-- Three more reads are submitted where one is in flight and one was given back, by a
policy whose choices are far beyond the blocks of a target that is almost as large as can
be. -/
theorem reads_staged_of_large_target :
    ∃ e₀ : Engine SimulatedKernel,
      create { file := SimulatedKernel.patternedFile 4 8 } 4 7
        { blockSize := 8, alignment := 8 } = .ok e₀ ∧
        let e := e₀.performAll [.submitReads ⟨3, 32⟩ 2 ({} : Walker), .reap .nonBlocking,
          .release ⟨0, 7⟩]
        let target : ReadTarget := ⟨3, 18446744073709551615⟩
        let policy := PolicyChoice.cycle #[18446744073709551615, 18446744073709551614] 0
        let submitted := e.submitReads target 5 policy
        let traced := e.trace.submitReads target 5 (Questioned.mk policy [])
        e.pool.Marked ∧ e.inFlight = 1 ∧ submitted.1 = .ok 3 ∧
          traced.2.2.questions = List.replicate 3 2305843009213693951 ∧
          ∃ entries, traced.2.1.ring.kernel.operations =
              e.ring.stagingOperations entries ++ e.ring.handOverOperations 3 ∧
            List.Forall₂ (fun choice s => s.Fetches e.pool target choice)
              [18446744073709551615, 18446744073709551614, 18446744073709551615] entries := by
  obtain ⟨e₀, hcreate⟩ : ∃ e₀ : Engine SimulatedKernel,
      create { file := SimulatedKernel.patternedFile 4 8 } 4 7
        { blockSize := 8, alignment := 8 } = .ok e₀ := ⟨_, rfl⟩
  refine ⟨e₀, hcreate, ?_⟩
  intro e target policy submitted traced
  have hreachable : e.Reachable := (Reachable.created hcreate).performAll _
  have hmarked : e.pool.Marked := by
    cases hcreate
    decide +kernel
  have htarget : e.blockSize ≤ target.size.toNat := by
    cases hcreate
    decide +kernel
  have hflight : e.inFlight = 1 := by
    cases hcreate
    decide +kernel
  have hanswer : submitted.1 = .ok 3 := by
    cases hcreate
    decide +kernel
  have hcount : min 5 e.ring.available = 3 := by
    cases hcreate
    decide +kernel
  have hblocks : target.blocks e.blockSize = 2305843009213693951 := by
    cases hcreate
    decide +kernel
  -- the facts above are all that is evaluated
  clear_value e
  obtain ⟨-, -, -, ⟨-, herror, -⟩ | ⟨-, hquestions, entries, hoperations, hfetches, -, -⟩⟩ :=
    reads_staged hreachable hmarked htarget 5 policy
  · rw [hanswer] at herror
    cases herror
  · rw [hcount, hblocks] at hquestions hfetches
    rw [hcount] at hoperations
    exact ⟨hmarked, hflight, hanswer, hquestions, entries, hoperations, hfetches⟩

/-! ## Incomplete batches

A batch can fail half way through, at an allocation. The entries before it are in the
kernel's memory by then, where they do no harm, and their blocks are on loan, where they
stay. -/

/-- **A submission that fails before the kernel is entered** loses the blocks of what it has
staged. The engine is in any state that calls have led to, on any kernel.

The number of reads in flight stays the same, and the tail is not moved: all that the kernel
was asked for is to store the entries of the first so many reads, behind the tail. The
blocks of these entries are those that were upcoming, and none of them was in use. They are
on loan now, and all other blocks are on loan if and only if they were before.

So the same blocks are on loan as before if and only if nothing was staged: the target has
no block, or already the first allocation failed. An allocation fails because the system
refuses to map memory for a new block, because there is no number for one, or because a free
block has lost its mark. -/
theorem loaned_of_unentered {err : Error} (h : e.Reachable)
    (herror : (e.submitReads target requested policy).1 = .error err)
    (hunentered : ∀ toSubmit minComplete flags, .enter toSubmit minComplete flags ∉
      (e.trace.submitReads target requested policy).2.1.ring.kernel.operations) :
    let submitted := e.submitReads target requested policy
    let traced := e.trace.submitReads target requested policy
    let operations := traced.2.1.ring.kernel.operations
    let upcoming := e.pool.upcoming (min requested e.ring.available).toNat
    submitted = (traced.1, traced.2.1.untrace, traced.2.2) ∧
      submitted.2.1.inFlight = e.inFlight ∧
      (∃ entries ids, entries.map Sqe.userData = ids.map UInt32.toUInt64 ∧
        (operations = [] ∧ entries = [] ∨ operations = e.ring.stagingOperations entries) ∧
        entries.length < (min requested e.ring.available).toNat ∧
        ids = upcoming.take entries.length ∧ ids.Nodup ∧
        (∀ id ∈ ids, e.pool.state? id.toNat = some .free ∨ e.pool.state? id.toNat = none) ∧
        ∀ id, submitted.2.1.pool.state? id = some .loaned ↔
          e.pool.state? id = some .loaned ∨ id ∈ ids.map UInt32.toNat) ∧
      ((∀ id, submitted.2.1.pool.state? id = some .loaned ↔ e.pool.state? id = some .loaned) ↔
        target.blocks e.blockSize = 0 ∨ e.pool.allocate.1 = .error err) ∧
      (err = .fileTooSmall target.size.toNat e.blockSize ∨
        (∃ source, some source ∈ e.pool.mappings ∧ err = .alloc source) ∨
        (∃ blocks, err = .poolExhausted blocks) ∨
        ∃ id found, err = .canaryMismatch id found canary) := by
  intro submitted traced operations upcoming
  have hsound := h.balanced.sound
  refine ⟨e.untrace_submitReads target requested policy, ?_⟩
  -- a submission that has failed had slots left
  have hcount : min requested e.ring.available ≠ 0 := by
    intro hzero
    rw [submitReads_of_full hzero] at herror
    cases herror
  have hpos : 0 < (min requested e.ring.available).toNat :=
    Nat.pos_of_ne_zero fun hzero => hcount (UInt32.toNat_inj.mp hzero)
  by_cases hblocks : target.blocks e.blockSize = 0
  · have hsame : submitted.2.1 = e := by
      rw [show submitted = _ from submitReads_of_small hcount hblocks]
    rw [hsame]
    refine ⟨rfl, ⟨[], [], rfl, Or.inl ⟨operations_of_nothing (Or.inr hblocks), rfl⟩, hpos, rfl,
      List.nodup_nil, by simp, by simp⟩, iff_of_true (fun _ => Iff.rfl) (Or.inl hblocks),
      Or.inl ?_⟩
    rw [submitReads_of_small hcount hblocks] at herror
    exact (Except.error.inj herror).symm
  rcases hloan : (Pool.loanReads (target.blocks e.blockSize)
      (min requested e.ring.available).toNat e.pool policy).1 with err' | _
  -- the loans were made one by one until an allocation has failed: nothing takes them back
  · have hsubmit := submitReads_of_room hsound rfl hcount hblocks policy
    rw [hloan] at hsubmit
    obtain rfl : err = err' := Except.error.inj (herror.symm.trans (Prod.mk.inj hsubmit).1)
    have hengine : submitted.2.1 = e.staged target (min requested e.ring.available) policy :=
      congrArg Prod.snd hsubmit
    have hloans := Pool.loans_loanReads hsound (target.blocks e.blockSize)
      (min requested e.ring.available).toNat policy
    have hlength : (e.stagedEntries target (min requested e.ring.available) policy).length =
        (Pool.loanReads (target.blocks e.blockSize) (min requested e.ring.available).toNat e.pool
          policy).2.1.length := List.length_map ..
    have hflight : submitted.2.1.inFlight = e.inFlight := by
      rw [hengine, inFlight, ring_staged]
      rfl
    refine ⟨hflight, ⟨e.stagedEntries target (min requested e.ring.available) policy, _, ?tags,
      Or.inr (operations_of_incomplete hsound rfl hcount hblocks hloan), ?short, ?upcoming,
      hloans.nodup, hloans.idle, ?loaned⟩, ?unchanged, Or.inr ?error⟩
    case tags =>
      rw [stagedEntries, List.map_map, List.map_map]
      rfl
    case short =>
      rw [hlength]
      exact Pool.length_loanReads_lt hloan
    case upcoming =>
      rw [hlength]
      exact Pool.blocks_loanReads hsound _ _ policy
    case loaned =>
      rw [hengine]
      exact hloans.state?_eq_loaned_iff
    case unchanged =>
      rw [hengine, or_iff_right hblocks, ← Pool.loanReads_eq_nil_iff hpos.ne' hloan,
        ← List.map_eq_nil_iff]
      exact hloans.unchanged_iff
    case error =>
      rcases Pool.loanReads_error_cases hsound hloan with hnumbers | hrefused | hdamaged
      · exact Or.inr (Or.inl hnumbers)
      · exact Or.inl hrefused
      · exact Or.inr (Or.inr hdamaged)
  · -- a complete batch is handed over
    have hcomplete := operations_of_complete hsound rfl hcount hblocks hloan
    refine absurd ?_ (hunentered (min requested e.ring.available) 0 0)
    rw [hcomplete]
    simp [Ring.handOverOperations]

/-- Two reads were submitted, taken and given back. Then bytes arrived in block 0, which
lies below block 1 on the free stack. So the next allocation is a good one, and the one
after it finds the damage. -/
def damagedBelow (e : Engine SimulatedKernel) : Engine SimulatedKernel :=
  let e := e.performAll [.submitReads ⟨3, 32⟩ 2 ({} : Walker), .drain .nonBlocking,
    .release ⟨0, 7⟩, .release ⟨1, 7⟩]
  ⟨e.ring, e.pool.receiveAll [⟨Address.ofIndex 0, .zeros 8⟩]⟩

theorem Reachable.damagedBelow {e : Engine SimulatedKernel} (h : e.Reachable) :
    e.damagedBelow.Reachable := by
  rw [Engine.damagedBelow]
  exact (h.performAll _).receiveAll _

/-- The second allocation fails, so not the same blocks are on loan as before. -/
theorem loaned_after_damage :
    ∃ e₀ : Engine SimulatedKernel,
      create { file := SimulatedKernel.patternedFile 4 8 } 4 7
        { blockSize := 8, alignment := 8 } = .ok e₀ ∧
        let e := e₀.damagedBelow
        let submitted := e.submitReads ⟨3, 32⟩ 3 ({} : Walker)
        let traced := e.trace.submitReads ⟨3, 32⟩ 3 ({} : Walker)
        submitted.1 = .error (.canaryMismatch 0 0 canary) ∧
          (∀ toSubmit minComplete flags, .enter toSubmit minComplete flags ∉
            traced.2.1.ring.kernel.operations) ∧
          submitted.2.1.inFlight = e.inFlight ∧
          ¬∀ id, submitted.2.1.pool.state? id = some .loaned ↔ e.pool.state? id = some .loaned := by
  obtain ⟨e₀, hcreate⟩ : ∃ e₀ : Engine SimulatedKernel,
      create { file := SimulatedKernel.patternedFile 4 8 } 4 7
        { blockSize := 8, alignment := 8 } = .ok e₀ := ⟨_, rfl⟩
  refine ⟨e₀, hcreate, ?_⟩
  intro e submitted traced
  have hreachable : e.Reachable := (Reachable.created hcreate).damagedBelow
  have herror : submitted.1 = .error (.canaryMismatch 0 0 canary) := by
    cases hcreate
    decide +kernel
  have hoperations : traced.2.1.ring.kernel.operations =
      e.ring.stagingOperations [.read 3 0 (Address.ofIndex 1) 8 1] := by
    cases hcreate
    decide +kernel
  have hunentered (toSubmit minComplete flags : UInt32) : .enter toSubmit minComplete flags ∉
      traced.2.1.ring.kernel.operations := by
    rw [hoperations]
    exact e.ring.enter_not_mem_stagingOperations _ toSubmit minComplete flags
  have hlater : ¬((⟨3, 32⟩ : ReadTarget).blocks e.blockSize = 0 ∨
      e.pool.allocate.1 = .error (.canaryMismatch 0 0 canary)) := by
    cases hcreate
    decide +kernel
  clear_value e
  obtain ⟨-, hflight, -, hiff, -⟩ := loaned_of_unentered hreachable herror hunentered
  exact ⟨herror, hunentered, hflight, fun hsame => hlater (hiff.mp hsame)⟩

/-- Where the system maps one block and refuses the next, it is the first one that stays on
loan. -/
example :
    (create ({ file := SimulatedKernel.patternedFile 4 8 } : SimulatedKernel) 4 7
        { blockSize := 8, alignment := 8 } [none, some (.os 12)]).toOption.map (fun e =>
      let submitted := e.submitReads ⟨3, 32⟩ 2 ({} : Walker)
      (submitted.1, submitted.2.1.inFlight, submitted.2.1.pool.state? 0)) =
      some (.error (.alloc (.os 12)), 0, some .loaned) := by
  decide +kernel

/-- A submission of two reads fails at the second one, which needs the damaged block. The
kernel was not entered, and its tail is where it was. But block 1 is on loan, which was
free. -/
theorem loaned_without_entry :
    ∃ e₀ : Engine SimulatedKernel,
      create { file := SimulatedKernel.patternedFile 4 8 } 4 7
        { blockSize := 8, alignment := 8 } = .ok e₀ ∧
        let e := e₀.damagedBelow
        let submitted := e.submitReads ⟨3, 32⟩ 2 ({} : Walker)
        let traced := e.trace.submitReads ⟨3, 32⟩ 2 ({} : Walker)
        submitted.1 = .error (.canaryMismatch 0 0 canary) ∧
          traced.2.1.ring.kernel.operations =
            e.ring.stagingOperations [.read 3 0 (Address.ofIndex 1) 8 1] ∧
          submitted.2.1.ring.kernel.rings.map SimulatedRings.sqTail =
            e.ring.kernel.rings.map SimulatedRings.sqTail ∧
          submitted.2.1.inFlight = 0 ∧
          e.pool.state? 1 = some .free ∧ submitted.2.1.pool.state? 1 = some .loaned := by
  refine ⟨_, rfl, ?_, ?_, ?_, ?_, ?_, ?_⟩
  all_goals decide +kernel

end Engine

end RingRead
