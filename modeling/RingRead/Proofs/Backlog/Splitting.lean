import RingRead.Proofs.Backlog.Orderly
import RingRead.Proofs.Engine.Staging
import RingRead.Proofs.Pool.Interleaving

/-!
# Batches that are split

On an engine in good order it makes no difference whether reads are submitted in one batch
or in two (`Engine.submitReads_add`). When they are submitted in two, the kernel copies the
data of the first ones and posts their completions before the others are allocated, checked
and staged. Otherwise it does so after that. Both come to the same, because

* the data arrive in blocks on loan, and the other batch takes none of those
  (`Pool.loanReads_receiveAll`);
* completions are posted in the completion queue, where staging and consuming have no
  business (`SimulatedKernel.prompted_serve_append`).
-/

namespace RingRead.Engine

variable {π : Type} [OffsetPolicy π] {e : Engine SimulatedKernel} {n a b requested : UInt32}
variable {target : ReadTarget} {policy : π}

/-- A submission for which there are slots succeeds if there is room for it in the pool. -/
theorem Orderly.submitReads_answer (h : e.Orderly n) (hblocks : target.blocks e.blockSize ≠ 0)
    (hfits : requested.toNat ≤ e.ring.available.toNat) (policy : π) :
    (e.submitReads target requested policy).1 = .ok requested ∧ requested.toNat ≤ e.pool.room ∨
      (e.submitReads target requested policy).1 = .error e.pool.shortage ∧
        e.pool.room < requested.toNat := by
  have hsound := h.intact.toSound
  have hmin := Position.min_eq_left hfits
  by_cases hzero : requested = 0
  · rw [submitReads_of_full (hmin.trans hzero), hzero]
    exact Or.inl ⟨rfl, Nat.zero_le _⟩
  rcases h.intact.marked.loanReads_cases hsound (target.blocks e.blockSize) requested.toNat policy
    with ⟨hok, hroom⟩ | ⟨herror, hroom⟩
  · rw [h.submitReads_of_complete hmin hzero hblocks hok]
    exact Or.inl ⟨rfl, hroom⟩
  · have hsubmit := submitReads_of_room hsound hmin hzero hblocks policy
    rw [herror] at hsubmit
    exact Or.inr ⟨(Prod.mk.inj hsubmit).1, hroom⟩

/-! ## After a first batch

What the first batch leaves behind for the second: slots, room, a pool that may have
received data, and a kernel that has used up some of its results. In each of these the
second batch starts where it would have gone on, had both been one. -/

section Later

variable (h : e.Orderly n) (hmin : min a e.ring.available = a) (ha : a ≠ 0)
variable (hblocks : target.blocks e.blockSize ≠ 0)
variable (hok : (Pool.loanReads (target.blocks e.blockSize) a.toNat e.pool policy).1 = .ok ())
include h hmin ha hblocks hok

/-- There are slots for another batch if there were for both. -/
theorem Orderly.le_available_later (hfits : a.toNat + b.toNat ≤ e.ring.available.toNat) :
    b.toNat ≤ (e.submitReads target a policy).2.1.ring.available.toNat := by
  have havailable : (e.submitReads target a policy).2.1.ring.available = e.ring.available - a := by
    rw [h.submitReads_of_complete hmin ha hblocks hok]
    change e.ring.capacity - (e.ring.inFlight + a) = e.ring.capacity - e.ring.inFlight - a
    grind
  have hle : a ≤ e.ring.available := UInt32.le_iff_toNat_le.mpr (Nat.le_of_add_right_le hfits)
  rw [havailable, UInt32.toNat_sub_of_le _ _ hle]
  omega

/-- There is as much less room as the batch has reads, and the same shortage behind it. -/
theorem Orderly.room_later :
    (e.submitReads target a policy).2.1.pool.room + a.toNat = e.pool.room ∧
      (e.submitReads target a policy).2.1.pool.shortage = e.pool.shortage := by
  obtain ⟨hroom, hshortage⟩ := Pool.room_loanReads h.intact.toSound hok
  rw [h.submitReads_of_complete hmin ha hblocks hok]
  exact ⟨(congrArg (· + a.toNat) (Pool.room_receiveAll ..)).trans hroom,
    (Pool.shortage_receiveAll ..).trans hshortage⟩

/-- Another batch is loaned as if no data had arrived in between. -/
theorem Orderly.loanReads_later (count : Nat) :
    let blocks := target.blocks e.blockSize
    let first := e.submitReads target a policy
    let loan := Pool.loanReads blocks a.toNat e.pool policy
    let later := Pool.loanReads blocks count loan.2.2.1 loan.2.2.2
    let transfers := e.ring.kernel.delivers (e.stagedEntries target a policy)
    Pool.loanReads blocks count first.2.1.pool first.2.2 =
      (later.1, later.2.1, later.2.2.1.receiveAll transfers, later.2.2.2) := by
  intro blocks first loan later transfers
  have hsound := h.intact.toSound
  have hloans := Pool.loans_loanReads hsound blocks a.toNat policy
  simp only [first, h.submitReads_of_complete hmin ha hblocks hok]
  exact Pool.loanReads_receiveAll hloans.sound (fun t ht => loaned_of_mem_delivers hsound ht)
    blocks count loan.2.2.2

/-- Another batch is performed where the first one has stopped. -/
theorem Orderly.delivers_later (entries : List Sqe) :
    let first := e.submitReads target a policy
    let batch := e.stagedEntries target a policy
    e.ring.kernel.delivers (batch ++ entries) =
      e.ring.kernel.delivers batch ++ first.2.1.ring.kernel.delivers entries := by
  intro first batch
  have hfirst : first = _ := h.submitReads_of_complete hmin ha hblocks hok
  rw [hfirst, SimulatedKernel.delivers_append, SimulatedKernel.delivers_prompted]
  rfl

end Later

/-- Two complete batches, one after the other, are one complete batch. The pool lends the
same blocks, the policy is asked the same questions, and the kernel performs the same
entries; only that it is entered twice remains to be seen. -/
theorem Orderly.submitReads_add_of_complete (h : e.Orderly n) (ha : a ≠ 0) (hb : b ≠ 0)
    (hblocks : target.blocks e.blockSize ≠ 0) (hsum : (a + b).toNat = a.toNat + b.toNat)
    (hfits : a.toNat + b.toNat ≤ e.ring.available.toNat)
    (hok : (Pool.loanReads (target.blocks e.blockSize) (a.toNat + b.toNat) e.pool policy).1 =
      .ok ()) :
    let first := e.submitReads target a policy
    let second := first.2.1.submitReads target b first.2.2
    let whole := e.submitReads target (a + b) policy
    second = (.ok b, whole.2.1.onKernel whole.2.1.ring.kernel.entered, whole.2.2) := by
  intro first second whole
  have hmina := Position.min_eq_left (Nat.le_of_add_right_le hfits)
  have hminab := Position.min_eq_left (hsum ▸ hfits)
  have hab : a + b ≠ 0 := by
    intro hzero
    rw [hzero, UInt32.toNat_zero] at hsum
    exact ha (UInt32.toNat_inj.mp (Nat.eq_zero_of_add_eq_zero_right hsum.symm))
  -- the whole batch is loaned part by part
  have hadd := Pool.loanReads_add e.pool (target.blocks e.blockSize) a.toNat b.toNat policy
  rcases hloan : Pool.loanReads (target.blocks e.blockSize) a.toNat e.pool policy with
    ⟨err | _, reads, pool, policy₁⟩
  · rw [hadd, hloan] at hok
    cases hok
  rcases hlater : Pool.loanReads (target.blocks e.blockSize) b.toNat pool policy₁ with
    ⟨err | _, reads', pool', policy₂⟩
  · simp only [hadd, hloan, hlater] at hok
    cases hok
  have hoka : (Pool.loanReads (target.blocks e.blockSize) a.toNat e.pool policy).1 = .ok () := by
    rw [hloan]
  have hagain := h.loanReads_later hmina ha hblocks hoka b.toNat
  simp only [hloan, hlater] at hadd hagain
  rw [← hsum] at hadd hok
  -- each of the three submissions is complete
  have hwhole : whole = _ := h.submitReads_of_complete hminab hab hblocks hok
  have hfirst : first = _ := h.submitReads_of_complete hmina ha hblocks hoka
  have horderly : first.2.1.Orderly n := h.undergo (.call (.submitReads target a policy))
  have hsize : first.2.1.blockSize = e.blockSize :=
    blockSize_submitReads h.intact.toSound target a policy
  have hminb := Position.min_eq_left (h.le_available_later hmina ha hblocks hoka hfits)
  have hsecond : second = _ := horderly.submitReads_of_complete hminb hb (hsize ▸ hblocks)
    (by rw [hsize, hagain])
  have hentries : e.stagedEntries target (a + b) policy =
      e.stagedEntries target a policy ++ first.2.1.stagedEntries target b first.2.2 := by
    rw [stagedEntries, stagedEntries, stagedEntries, hadd, hloan, hsize, hagain]
    exact List.map_append
  have hserved : (first.2.1.ring.kernel.entered.serve
        (first.2.1.stagedEntries target b first.2.2)).prompted =
      (e.ring.kernel.entered.serve (e.stagedEntries target (a + b) policy)).prompted.entered := by
    rw [hentries, hfirst]
    exact SimulatedKernel.serve_prompted_append ..
  have hflight : first.2.1.ring.inFlight + b = e.ring.inFlight + (a + b) := by
    rw [hfirst]
    exact UInt32.add_assoc ..
  have hring : first.2.1.ring = { e.ring with
      kernel := first.2.1.ring.kernel, inFlight := first.2.1.ring.inFlight } := by
    rw [hfirst]
  rw [hsecond, hwhole]
  refine Prod.ext rfl (Prod.ext (congrArg₂ Engine.mk ?ring ?pool) ?rest)
  case ring => rw [hserved, hflight, hring]
  case pool =>
    rw [hsize, hagain, hadd, hentries, h.delivers_later hmina ha hblocks hoka,
      Pool.receiveAll_append]
  case rest => rw [hsize, hagain, hadd]

/-- Without room for two batches, one of them fails with the shortage of the pool. -/
theorem Orderly.exhausted_of_no_room (h : e.Orderly n) (ha : a ≠ 0)
    (hblocks : target.blocks e.blockSize ≠ 0)
    (hfits : a.toNat + b.toNat ≤ e.ring.available.toNat)
    (hroom : e.pool.room < a.toNat + b.toNat) (policy : π) :
    let first := e.submitReads target a policy
    let second := first.2.1.submitReads target b first.2.2
    first.1 = .error e.pool.shortage ∨ second.1 = .error e.pool.shortage := by
  intro first second
  have hsound := h.intact.toSound
  have hmina := Position.min_eq_left (Nat.le_of_add_right_le hfits)
  rcases h.intact.marked.loanReads_cases hsound (target.blocks e.blockSize) a.toNat policy with
    ⟨hok, -⟩ | ⟨-, hless⟩
  · have horderly : first.2.1.Orderly n := h.undergo (.call (.submitReads target a policy))
    have hsize : first.2.1.blockSize = e.blockSize :=
      blockSize_submitReads hsound target a policy
    have hfits' := h.le_available_later hmina ha hblocks hok hfits
    obtain ⟨hroom', hshortage⟩ := h.room_later hmina ha hblocks hok
    rcases horderly.submitReads_answer (hsize ▸ hblocks) hfits' first.2.2 with
      ⟨-, hle⟩ | ⟨herror, -⟩
    · change b.toNat ≤ (e.submitReads target a policy).2.1.pool.room at hle
      omega
    · exact Or.inr (herror.trans (congrArg Except.error hshortage))
  · rcases h.submitReads_answer hblocks (Nat.le_of_add_right_le hfits) policy with
      ⟨-, hle⟩ | ⟨herror, -⟩
    · omega
    · exact Or.inl herror

/-- An empty batch before or after another one does nothing. The kernel is not entered for
it, and the policy is not asked. -/
theorem submitReads_add_of_empty (e : Engine SimulatedKernel) (target : ReadTarget) (policy : π)
    (hempty : a = 0 ∨ b = 0) :
    let first := e.submitReads target a policy
    let second := first.2.1.submitReads target b first.2.2
    let whole := e.submitReads target (a + b) policy
    second.2 = whole.2 ∧
      (a = 0 ∧ first.1 = .ok a ∧ second.1 = whole.1 ∨
        b = 0 ∧ first.1 = whole.1 ∧ second.1 = .ok b) := by
  have hzero (available : UInt32) : min 0 available = 0 :=
    Position.min_eq_left (Nat.zero_le _)
  intro first second whole
  rcases hempty with rfl | rfl
  · have hfirst : first = (.ok 0, e, policy) := submitReads_of_full (hzero _)
    have hsecond : second = whole := by
      simp only [second, whole, hfirst, UInt32.zero_add]
    exact ⟨by rw [hsecond], Or.inl ⟨rfl, by rw [hfirst], by rw [hsecond]⟩⟩
  · have hfirst : first = whole := by simp only [first, whole, UInt32.add_zero]
    have hsecond : second = (.ok 0, first.2.1, first.2.2) := submitReads_of_full (hzero _)
    rw [hsecond, hfirst]
    exact ⟨rfl, Or.inr ⟨rfl, rfl, rfl⟩⟩

/-- **Splitting a batch makes no difference.** The engine has come to its state through any
calls, results given in advance, interrupted waits and forged completions. Its kernel takes
everything that is published and reports in order; it may defer completions or withhold
them. The target has a block, there are slots for all of the reads, and the policy chooses
what it likes.

If there is room for all of the reads in the pool, it makes no difference whether they are
submitted in one batch or in two, one after the other. What is submitted adds up, the policy
is left in the same state, and so are pool and ring with all that is in the kernel's memory:
the indices, tables and completions, what is pending, and the results that are left. Only
the number of calls differs, where neither batch is empty: the kernel was entered once more.

If there is no room, both ways fail with the shortage of the pool: block numbers run out, or
the system refuses to map memory for another block. -/
theorem submitReads_add {kernel : SimulatedKernel} {capacity serial : UInt32} {config : PoolConfig}
    {mappings : MappingAnswers} {e₀ : Engine SimulatedKernel} {run : List Incident}
    (hcreate : create kernel capacity serial config mappings = .ok e₀)
    (hlimit : kernel.acceptLimit = none) (hreversed : kernel.reversed = false)
    (hrun : e₀.undergoAll run = e) (htarget : e.blockSize ≤ target.size.toNat)
    (hfits : a.toNat + b.toNat ≤ e.capacity.toNat - e.inFlight.toNat) (policy : π) :
    let first := e.submitReads target a policy
    let second := first.2.1.submitReads target b first.2.2
    let whole := e.submitReads target (a + b) policy
    a.toNat + b.toNat ≤ e.pool.room ∧
        first.1 = .ok a ∧ second.1 = .ok b ∧ whole.1 = .ok (a + b) ∧
        second.2.2 = whole.2.2 ∧
        second.2.1 =
          (if a = 0 ∨ b = 0 then whole.2.1 else whole.2.1.onKernel whole.2.1.ring.kernel.entered) ∨
      e.pool.room < a.toNat + b.toNat ∧ whole.1 = .error e.pool.shortage ∧
        (e.pool.shortage = .poolExhausted UInt32.size ∨
          ∃ err, some err ∈ e.pool.mappings ∧ e.pool.shortage = .alloc err) ∧
        (first.1 = whole.1 ∨ second.1 = whole.1) := by
  intro first second whole
  obtain ⟨n, h₀⟩ := orderly_create hcreate hlimit hreversed
  have h : e.Orderly n := hrun ▸ h₀.undergoAll run
  obtain ⟨hpos, -⟩ := h.intact.blockSize_bounds
  have hblocks : target.blocks e.blockSize ≠ 0 :=
    ReadTarget.blocks_ne_zero (Nat.lt_of_lt_of_le (by decide) hpos) htarget
  rw [← h.tracks.balanced.toNat_available] at hfits
  have hsum : (a + b).toNat = a.toNat + b.toNat := by
    rw [UInt32.toNat_add]
    exact Nat.mod_eq_of_lt (Nat.lt_of_le_of_lt hfits e.ring.available.toNat_lt)
  have hwhole := h.submitReads_answer hblocks (hsum ▸ hfits) policy
  rw [hsum] at hwhole
  -- an empty batch does not enter the kernel, so the two ways then agree in the number of enters
  by_cases hempty : a = 0 ∨ b = 0
  · obtain ⟨hsame, hanswers⟩ := e.submitReads_add_of_empty target policy hempty
    rw [if_pos hempty]
    rcases hwhole with ⟨hok, hroom⟩ | ⟨herror, hroom⟩
    · refine Or.inl ⟨hroom, ?_, ?_, hok, congrArg Prod.snd hsame, congrArg Prod.fst hsame⟩
      all_goals
        rcases hanswers with ⟨rfl, hfirst, hsecond⟩ | ⟨rfl, hfirst, hsecond⟩
      · exact hfirst
      · exact hfirst.trans (hok.trans (by rw [UInt32.add_zero]))
      · exact hsecond.trans (hok.trans (by rw [UInt32.zero_add]))
      · exact hsecond
    · exact Or.inr ⟨hroom, herror, e.pool.shortage_cases,
        hanswers.elim (fun h => Or.inr h.2.2) fun h => Or.inl h.2.1⟩
  · obtain ⟨ha, hb⟩ := not_or.mp hempty
    rw [if_neg hempty]
    rcases hwhole with ⟨hok, hroom⟩ | ⟨herror, hroom⟩
    · obtain ⟨hloan, -⟩ := (h.intact.marked.loanReads_cases h.intact.toSound
        (target.blocks e.blockSize) (a.toNat + b.toNat) policy).resolve_right fun hless =>
          Nat.not_lt.mpr hroom hless.2
      -- there is room for the whole batch, so for the first part of it
      have hsecond := h.submitReads_add_of_complete ha hb hblocks hsum hfits hloan
      obtain ⟨hfirst, -⟩ := (h.submitReads_answer hblocks (Nat.le_of_add_right_le hfits)
        policy).resolve_right fun hless => by omega
      exact Or.inl ⟨hroom, hfirst, congrArg Prod.fst hsecond, hok,
        congrArg (fun submitted => submitted.2.2) hsecond,
        congrArg (fun submitted => submitted.2.1) hsecond⟩
    · refine Or.inr ⟨hroom, herror, e.pool.shortage_cases, ?_⟩
      rw [herror]
      exact h.exhausted_of_no_room ha hblocks hfits hroom policy

/-- One read is in flight and one block was given back, when a short result is given in
advance and a completion is forged. Then three reads are submitted, one of them first and
the others after it: the first takes the block that was given back and comes back short
before new blocks are made. -/
theorem submitReads_add_around_posting :
    ∃ e₀ : Engine SimulatedKernel,
      create { file := SimulatedKernel.patternedFile 4 8 } 4 7
        { blockSize := 8, alignment := 8 } = .ok e₀ ∧
        let e := e₀.undergoAll [.call (.submitReads ⟨3, 32⟩ 2 ({} : Walker)),
          .call (.reap .nonBlocking), .call (.release ⟨0, 7⟩), .inject 3,
          .post { userData := 9, res := 8 }]
        let first := e.submitReads ⟨3, 32⟩ 1 ({} : Walker)
        let second := first.2.1.submitReads ⟨3, 32⟩ 2 first.2.2
        let whole := e.submitReads ⟨3, 32⟩ (1 + 2) ({} : Walker)
        e.inFlight = 1 ∧ e.pool.free = [0] ∧ e.ring.kernel.injected = [3] ∧
          first.2.1.ring.kernel.queued.map Cqe.userData = [1, 9, 0] ∧
          first.1 = .ok 1 ∧ second.1 = .ok 2 ∧ whole.1 = .ok 3 ∧
          second.2.2 = whole.2.2 ∧
          second.2.1 = whole.2.1.onKernel whole.2.1.ring.kernel.entered := by
  obtain ⟨e₀, hcreate⟩ : ∃ e₀ : Engine SimulatedKernel,
      create { file := SimulatedKernel.patternedFile 4 8 } 4 7
        { blockSize := 8, alignment := 8 } = .ok e₀ := ⟨_, rfl⟩
  refine ⟨e₀, hcreate, ?_⟩
  intro e first second whole
  have hflight : e.inFlight = 1 := by
    cases hcreate
    decide +kernel
  have hfree : e.pool.free = [0] := by
    cases hcreate
    decide +kernel
  have hinjected : e.ring.kernel.injected = [3] := by
    cases hcreate
    decide +kernel
  have hqueued : first.2.1.ring.kernel.queued.map Cqe.userData = [1, 9, 0] := by
    cases hcreate
    decide +kernel
  have htarget : e.blockSize ≤ (⟨3, 32⟩ : ReadTarget).size.toNat := by
    cases hcreate
    decide +kernel
  have hfits : (1 : UInt32).toNat + (2 : UInt32).toNat ≤ e.capacity.toNat - e.inFlight.toNat := by
    cases hcreate
    decide +kernel
  have hanswer : whole.1 = .ok 3 := by
    cases hcreate
    decide +kernel
  have hrun : e₀.undergoAll _ = e := rfl
  clear_value e
  rcases submitReads_add hcreate rfl rfl hrun htarget hfits ({} : Walker) with
    ⟨-, hfirst, hsecond, -, hpolicy, hengine⟩ | ⟨-, herror, -⟩
  · rw [if_neg (by decide)] at hengine
    -- these are the facts as they stand, and no submission is to be computed for them
    with_reducible
      exact ⟨hflight, hfree, hinjected, hqueued, hfirst, hsecond, hanswer, hpolicy, hengine⟩
  · cases hanswer.symm.trans herror

end RingRead.Engine
