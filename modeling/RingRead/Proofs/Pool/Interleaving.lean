import RingRead.Proofs.Pool.Batch

/-!
# Bytes that arrive while blocks are loaned

A batch may be loaned in two parts, one after the other (`loanReads_add`). Between the parts
the kernel may write into the blocks that are on loan already. The second part does not
notice: it takes blocks from the free stack and new ones, none of which is on loan, so it
does not matter whether the bytes arrive before it or after it (`loanReads_receiveAll`).

All this holds of the pool as it is in memory, not only of what can be seen of it, because
changes of different blocks can be made in either order (`modify_comm`).
-/

namespace RingRead.Pool

variable {π : Type} [OffsetPolicy π] {p : Pool} {t : Token} {transfer : Transfer}
variable {transfers : List Transfer} {id other : Nat}

/-! ## One transfer and one change

The smallest case first: one piece of bytes arrives, and one thing is done to the pool. The
two touch different blocks, since the one is on loan and the other is free or new. -/

/-- Changes of different blocks can be made in either order. The pools that come out are the
same in memory, and not only alike to those who look at their blocks. -/
theorem modify_comm (p : Pool) (h : id ≠ other) (change change' : Block → Block) :
    (p.modify id change).modify other change' = (p.modify other change').modify id change := by
  have hblocks : (p.blocks.modify id change).modify other change' =
      (p.blocks.modify other change').modify id change := by
    apply Array.ext_getElem?
    intro i
    simp only [Array.getElem?_modify]
    by_cases hi : id = i
    · have hother : other ≠ i := fun heq => h (hi.trans heq.symm)
      simp only [hi, hother, if_true, if_false]
    · simp only [hi, if_false]
  rw [modify, modify, modify, modify, hblocks]

/-- A new block is made behind the others, and those can be changed before or after that.
Appending does not move what is there. -/
theorem modify_push (p : Pool) (h : id < p.size) (change : Block → Block) (b : Block)
    (stats : PoolStats) :
    ({ p with blocks := p.blocks.push b, stats } : Pool).modify id change =
      { p.modify id change with blocks := (p.modify id change).blocks.push b, stats } := by
  have hblocks : (p.blocks.push b).modify id change = (p.blocks.modify id change).push b := by
    apply Array.ext_getElem?
    intro i
    simp only [Array.getElem?_modify, Array.getElem?_push, Array.size_modify]
    by_cases hi : id = i
    · have hne : i ≠ p.blocks.size := hi ▸ Nat.ne_of_lt h
      simp only [hi, hne, if_true, if_false]
    · simp only [hi, if_false]
  rw [modify, hblocks]
  rfl

/-- An allocation takes no block on loan, so it does not notice bytes that arrive in one. It
answers the same and takes the same block, and the bytes are there in the end either way. -/
theorem allocate_receive (h : p.Sound)
    (hloaned : p.state? (Address.index transfer.address) = some .loaned) :
    (p.receive transfer).allocate = (p.allocate.1, p.allocate.2.receive transfer) := by
  have hlt : Address.index transfer.address < p.size :=
    state?_isSome_iff.mp (by rw [hloaned]; rfl)
  cases hfree : p.free with
  | nil =>
    have hrefusal : (p.receive transfer).refusal? = p.refusal? := rfl
    rw [allocate_empty hfree, allocate_empty (p := p.receive transfer) hfree, allocateFresh,
      allocateFresh, size_receive, hrefusal]
    split
    · rcases p.refusal? with _ | err
      · exact Prod.ext rfl (modify_push p.refused hlt _ _ _).symm
      · rfl
    · rfl
  | cons n rest =>
    -- the block on top is free, and the one that bytes arrive in is on loan
    have hne : n.toNat ≠ Address.index transfer.address :=
      h.ne_of_mem_free (by decide) hloaned n (hfree ▸ List.mem_cons_self ..)
    have hword : (p.receive transfer).firstWord n.toNat = p.firstWord n.toNat := by
      rw [firstWord_eq, receive, bytes?_modify_ne p _ hne, ← firstWord_eq]
    by_cases hmark : p.firstWord n.toNat = canary
    · rw [allocate_marked hfree hmark,
        allocate_marked (p := p.receive transfer) hfree (hword.trans hmark), receive,
        modify_comm p hne.symm]
      rfl
    · rw [allocate_damaged hfree hmark,
        allocate_damaged (p := p.receive transfer) hfree (hword ▸ hmark), hword]
      rfl

/-- A loan of another block does not notice them either: it sets a state, and looks at no
byte. -/
theorem loan_receive (h : t.id.toNat ≠ Address.index transfer.address) :
    ((p.receive transfer).loan t).2 = (p.loan t).2.receive transfer :=
  modify_comm p h.symm _ _

/-! ## Batches

From here on both sides grow. First the batch, with a single transfer passing through it;
then the transfers, with a whole batch passing through them. -/

/-- A batch does not notice bytes that arrive in a block on loan. By induction on the batch,
since the block is still on loan after each of its reads. -/
theorem loanReads_receive (h : p.Sound)
    (hloaned : p.state? (Address.index transfer.address) = some .loaned) (blocks : UInt64)
    (count : Nat) (policy : π) :
    let loan := loanReads blocks count p policy
    loanReads blocks count (p.receive transfer) policy =
      (loan.1, loan.2.1, loan.2.2.1.receive transfer, loan.2.2.2) := by
  induction count generalizing p policy with
  | zero => rfl
  | succ count ih =>
    have hreceive := allocate_receive h hloaned
    rcases halloc : p.allocate with ⟨e | t, p'⟩
    · rw [halloc] at hreceive
      rw [loanReads_of_error halloc, loanReads_of_error hreceive]
    · rw [halloc] at hreceive
      have hallocates := allocates_of_ok h halloc
      -- nor is the block just taken the one on loan: it was idle before
      have hne : Address.index transfer.address ≠ t.id.toNat := by
        intro heq
        rcases hallocates.idle with hstate | hstate
        all_goals rw [← heq, hloaned] at hstate; cases hstate
      have hnot : Address.index transfer.address ∉ [t.id.toNat] := by simpa using hne
      have hloaned' : (p'.loan t).2.state? (Address.index transfer.address) = some .loaned := by
        rw [loan, state?_modify_ne p' _ hne, hallocates.moves.state_of_not_mem _ hnot, hloaned]
      have hrest := ih hallocates.sound_loan hloaned' (OffsetPolicy.next policy blocks).2
      rw [loanReads_of_ok halloc, loanReads_of_ok hreceive, loan_receive hne.symm]
      simp only [hrest]
      rfl

/-- A batch does not notice bytes that arrive in blocks on loan, however many and in
whatever order. The induction is on the transfers now. -/
theorem loanReads_receiveAll (h : p.Sound)
    (hloaned : ∀ transfer ∈ transfers, p.state? (Address.index transfer.address) = some .loaned)
    (blocks : UInt64) (count : Nat) (policy : π) :
    let loan := loanReads blocks count p policy
    loanReads blocks count (p.receiveAll transfers) policy =
      (loan.1, loan.2.1, loan.2.2.1.receiveAll transfers, loan.2.2.2) := by
  induction transfers generalizing p with
  | nil => rfl
  | cons transfer rest ih =>
    have hrest := ih (p := p.receive transfer) (h.receiveAll [transfer]) fun other hother => by
      rw [state?_receive]
      exact hloaned other (List.mem_cons_of_mem _ hother)
    have hfirst :=
      loanReads_receive h (hloaned transfer (List.mem_cons_self ..)) blocks count policy
    rw [hfirst] at hrest
    exact hrest

/-- A batch is loaned part by part. Where the first part fails, the batch has failed, and
the pool is left as the first part has left it. -/
theorem loanReads_add (p : Pool) (blocks : UInt64) (m n : Nat) (policy : π) :
    loanReads blocks (m + n) p policy =
      match loanReads blocks m p policy with
      | (.error e, reads, p, policy) => (.error e, reads, p, policy)
      | (.ok (), reads, p, policy) =>
        let (result, reads', p, policy) := loanReads blocks n p policy
        (result, reads ++ reads', p, policy) := by
  induction m generalizing p policy with
  | zero =>
    rw [Nat.zero_add]
    rfl
  | succ m ih =>
    rw [Nat.succ_add]
    rcases halloc : p.allocate with ⟨e | t, p'⟩
    · rw [loanReads_of_error halloc, loanReads_of_error halloc]
    · rw [loanReads_of_ok halloc, loanReads_of_ok halloc]
      have hrest := ih (p'.loan t).2 (OffsetPolicy.next policy blocks).2
      simp only [hrest]
      rcases loanReads blocks m (p'.loan t).2 (OffsetPolicy.next policy blocks).2 with
        ⟨e | _, reads, q, policy'⟩
      · rfl
      · rfl

end RingRead.Pool
