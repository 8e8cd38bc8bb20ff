import RingRead.Proofs.Pool.Batch

/-!
# Blocks in circulation

A block goes round: from the free stack on loan, from there into the hands of whoever takes
it back, and from these onto the stack again. It is in circulation as long as it is on loan
or on the stack; the blocks that somebody keeps, and those that came off the stack damaged,
are not.

* **Out.** A complete batch takes no block out of circulation (`circulates_loanReads`).
* **Back.** `p.Collects tokens p'` says that the loaned blocks of the tokens have come back,
  and `p.GivesBack tokens p'` that the tokens were given to `release`. After both the same
  blocks are held as before, and all others go on circulating (`Collects.held_iff`,
  `Collects.circulates`).
-/

namespace RingRead.Pool

variable {p p' p'' : Pool} {t : Token} {id : Nat} {ids : List UInt32} {tokens tokens' : List Token}

/-- A block is on loan, or on the free stack. In both cases it will come round again: from
the stack by an allocation, and from loan by the completion that has its tag. A block that
is held comes round only if somebody has its token. -/
def Circulates (p : Pool) (id : Nat) : Prop :=
  p.state? id = some .loaned ∨ ∃ n ∈ p.free, n.toNat = id

/-- Bytes that arrive take nothing out of circulation, as they change neither states nor the
stack. -/
theorem Circulates.receiveAll (h : p.Circulates id) (transfers : List Transfer) :
    (p.receiveAll transfers).Circulates id := by
  rw [Circulates, state?_receiveAll, free_receiveAll]
  exact h

/-! ## Out

A batch moves blocks from the stack on loan. Whether it takes a block out of circulation
depends on what else it takes off the stack. -/

/-- Blocks that go on loan off the free stack stay in circulation. What is needed is that
the stack has lost no others. -/
theorem Loans.circulates (h : p.Loans ids p') (hfree : ∀ n ∈ p.free, n ∈ ids ∨ n ∈ p'.free)
    (hid : p.Circulates id) : p'.Circulates id := by
  rcases hid with hloaned | ⟨n, hn, rfl⟩
  · have hnot : id ∉ ids.map UInt32.toNat := fun hmem => h.state?_ne (by decide) hmem hloaned
    exact Or.inl ((h.moves.state_of_not_mem id hnot).trans hloaned)
  · rcases hfree n hn with hmem | hmem
    · exact Or.inl (h.moves.state_of_mem _ (List.mem_map_of_mem hmem))
    · exact Or.inr ⟨n, hmem, rfl⟩

/-- The blocks that go on loan were not held, and no other block becomes held. In between
they are, but not for long. -/
theorem Loans.held_iff (h : p.Loans ids p') (id : Nat) :
    p'.state? id = some .held ↔ p.state? id = some .held := by
  by_cases hmem : id ∈ ids.map UInt32.toNat
  · have hnot := h.state?_ne (s := .held) (by decide) hmem
    simp [h.moves.state_of_mem id hmem, hnot]
  · rw [h.moves.state_of_not_mem id hmem]

variable {π : Type} [OffsetPolicy π] {blocks : UInt64} {count : Nat} {policy : π}

/-- A complete batch takes no block off the stack but those that it loans. A batch that
fails may have taken off one that was damaged. -/
theorem mem_free_loanReads (h : p.Sound) (hok : (loanReads blocks count p policy).1 = .ok ()) :
    ∀ n ∈ p.free, n ∈ (loanReads blocks count p policy).2.1.map Read.block ∨
      n ∈ (loanReads blocks count p policy).2.2.1.free := by
  induction count generalizing p policy with
  | zero => exact fun n hn => Or.inr hn
  | succ count ih =>
    obtain ⟨t, p', halloc⟩ := allocate_of_loanReads hok
    have hallocates := allocates_of_ok h halloc
    rw [loanReads_of_ok halloc] at hok ⊢
    have hrest := ih hallocates.sound_loan hok
    intro n hn
    rcases hallocates.origin with ⟨hfree, -⟩ | ⟨hfree, -⟩
    · rw [hfree] at hn
      rcases List.mem_cons.mp hn with rfl | hn
      · exact Or.inl List.mem_cons_self
      · exact (hrest n hn).imp_left (List.mem_cons_of_mem _)
    · rw [hfree] at hn
      cases hn

theorem circulates_loanReads (h : p.Sound) (hok : (loanReads blocks count p policy).1 = .ok ())
    (hid : p.Circulates id) : (loanReads blocks count p policy).2.2.1.Circulates id :=
  (loans_loanReads h blocks count policy).circulates (mem_free_loanReads h hok) hid

/-! ## Back

The way back has two halves, which different calls make. A reap takes a block back from the
kernel and leaves it held; a release puts it onto the stack. Both are stated for lists of
tokens. -/

/-- `p'` is `p` after the loaned blocks of the tokens came back; bytes may have arrived in
between. The tokens are all different, so each of the blocks has come back once. -/
structure Collects (p : Pool) (tokens : List Token) (p' : Pool) : Prop where
  loaned : ∀ t ∈ tokens, p.state? t.id.toNat = some .loaned
  nodup : (tokens.map fun t => t.id.toNat).Nodup
  check_eq_ok : ∀ t ∈ tokens, p'.check t = .ok ()
  state_of_ne : ∀ id, (∀ t ∈ tokens, t.id.toNat ≠ id) → p'.state? id = p.state? id
  free_eq : p'.free = p.free
  serial_eq : p'.serial = p.serial
  config_eq : p'.config = p.config

/-- Where nothing came back, the states are as they were, whatever was written into the
blocks on loan. -/
theorem collects_receiveAll (p : Pool) (transfers : List Transfer) :
    p.Collects [] (p.receiveAll transfers) :=
  ⟨nofun, List.nodup_nil, nofun, fun id _ => state?_receiveAll p transfers id,
    free_receiveAll p transfers, serial_receiveAll p transfers, config_receiveAll p transfers⟩

/-- Reclaiming a block collects one token, which gives a right to the block from then on. -/
theorem collects_reclaim {tag : UInt64} (h : p.Sound)
    (hloaned : p.state? tag.toNat = some .loaned) :
    p.Collects [p.issue tag.toUInt32] (p.reclaim tag).2 := by
  have hmoves := moves_reclaim hloaned
  have hid : (p.issue tag.toUInt32).id.toNat = tag.toNat := h.toNat_toUInt32 hloaned
  refine ⟨?_, by simp, ?_, ?_, ?_, hmoves.serial_eq, hmoves.config_eq⟩
  · simpa [hid] using hloaned
  · intro t ht
    obtain rfl := List.mem_singleton.mp ht
    refine check_eq_ok_iff.mpr ⟨?_, hmoves.serial_eq.symm⟩
    rw [hid]
    exact (reclaim_loaned hloaned).2.1
  · intro id hne
    refine hmoves.state_of_not_mem id ?_
    have hne' := hne _ (List.mem_singleton.mpr rfl)
    rw [hid] at hne'
    simpa using hne'.symm
  · rw [reclaim, if_pos hloaned]
    rfl

/-- What has come back is held, so what comes back after that are other blocks. This is how
the completions of a drain add up. -/
theorem Collects.trans (h : p.Collects tokens p') (h' : p'.Collects tokens' p'') :
    p.Collects (tokens ++ tokens') p'' := by
  -- a block that has come back is held, and one that is to come back is on loan
  have hne : ∀ t ∈ tokens, ∀ t' ∈ tokens', t'.id.toNat ≠ t.id.toNat := by
    intro t ht t' ht' heq
    have hheld := (check_eq_ok_iff.mp (h.check_eq_ok t ht)).1
    have hloaned := h'.loaned t' ht'
    rw [heq, hheld] at hloaned
    cases hloaned
  refine ⟨?_, ?_, ?_, ?_, h'.free_eq.trans h.free_eq, h'.serial_eq.trans h.serial_eq,
    h'.config_eq.trans h.config_eq⟩
  · intro t ht
    rcases List.mem_append.mp ht with ht | ht
    · exact h.loaned t ht
    · rw [← h.state_of_ne _ fun t' ht' => (hne t' ht' t ht).symm]
      exact h'.loaned t ht
  · rw [List.map_append]
    refine List.nodup_append.mpr ⟨h.nodup, h'.nodup, ?_⟩
    intro a ha b hb
    obtain ⟨t, ht, rfl⟩ := List.mem_map.mp ha
    obtain ⟨t', ht', rfl⟩ := List.mem_map.mp hb
    exact (hne t ht t' ht').symm
  · intro t ht
    rcases List.mem_append.mp ht with ht | ht
    · obtain ⟨hheld, hserial⟩ := check_eq_ok_iff.mp (h.check_eq_ok t ht)
      refine check_eq_ok_iff.mpr ⟨?_, hserial.trans h'.serial_eq.symm⟩
      rw [h'.state_of_ne _ fun t' ht' => hne t ht t' ht']
      exact hheld
    · exact h'.check_eq_ok t ht
  · intro id hnot
    rw [h'.state_of_ne id fun t ht => hnot t (List.mem_append_right _ ht)]
    exact h.state_of_ne id fun t ht => hnot t (List.mem_append_left _ ht)

/-- `p'` is `p` after the tokens were given to `release` one after the other. The last one
given back is on top. The tokens name different blocks, all of them held before, so each
release succeeds. -/
structure GivesBack (p : Pool) (tokens : List Token) (p' : Pool) : Prop where
  free_eq : p'.free = (tokens.map Token.id).reverse ++ p.free
  state_of_mem : ∀ t ∈ tokens, p'.state? t.id.toNat = some .free
  state_of_ne : ∀ id, (∀ t ∈ tokens, t.id.toNat ≠ id) → p'.state? id = p.state? id
  serial_eq : p'.serial = p.serial
  config_eq : p'.config = p.config

theorem GivesBack.refl (p : Pool) : p.GivesBack [] p :=
  ⟨rfl, nofun, fun _ _ => rfl, rfl, rfl⟩

/-- Giving back one more token first: its block is on the stack below those that follow. -/
theorem GivesBack.cons (hcheck : p.check t = .ok ()) (h : (p.release t).2.GivesBack tokens p') :
    p.GivesBack (t :: tokens) p' := by
  have hmoves := moves_release hcheck
  refine ⟨?_, ?_, ?_, h.serial_eq.trans hmoves.serial_eq, h.config_eq.trans hmoves.config_eq⟩
  · rw [h.free_eq, (release_ok hcheck).2.1]
    simp
  · intro t' ht'
    by_cases hmem : ∃ u ∈ tokens, u.id.toNat = t'.id.toNat
    · obtain ⟨u, hu, heq⟩ := hmem
      exact heq ▸ h.state_of_mem u hu
    · have hne : ∀ u ∈ tokens, u.id.toNat ≠ t'.id.toNat := fun u hu heq => hmem ⟨u, hu, heq⟩
      rcases List.mem_cons.mp ht' with rfl | ht'
      · rw [h.state_of_ne _ hne]
        exact hmoves.state_of_mem _ (List.mem_singleton.mpr rfl)
      · exact absurd rfl (hne t' ht')
  · intro id hnot
    rw [h.state_of_ne id fun u hu => hnot u (List.mem_cons_of_mem _ hu)]
    refine hmoves.state_of_not_mem id ?_
    simpa using (hnot t List.mem_cons_self).symm

/-- The blocks that were given back are on the stack, ready to be allocated again. -/
theorem GivesBack.mem_free (h : p.GivesBack tokens p') (ht : t ∈ tokens) : t.id ∈ p'.free := by
  rw [h.free_eq]
  exact List.mem_append_left _ (List.mem_reverse.mpr (List.mem_map_of_mem ht))

/-! ## There and back

The two halves together. A block that is seen held in the end was held in the beginning, and
by the same holder. -/

/-- Blocks that came back and were given back leave the same blocks held as before. So a
round of a session keeps nothing for itself. -/
theorem Collects.held_iff (h : p.Collects tokens p') (hback : p'.GivesBack tokens p'') (id : Nat) :
    p''.state? id = some .held ↔ p.state? id = some .held := by
  by_cases hmem : ∃ t ∈ tokens, t.id.toNat = id
  · obtain ⟨t, ht, rfl⟩ := hmem
    simp [hback.state_of_mem t ht, h.loaned t ht]
  · have hne : ∀ t ∈ tokens, t.id.toNat ≠ id := fun t ht heq => hmem ⟨t, ht, heq⟩
    rw [hback.state_of_ne id hne, h.state_of_ne id hne]

/-- Blocks that came back and were given back circulate on, and so do all others. With
`circulates_loanReads` this closes the circle. -/
theorem Collects.circulates (h : p.Collects tokens p') (hback : p'.GivesBack tokens p'')
    (hid : p.Circulates id) : p''.Circulates id := by
  by_cases hmem : ∃ t ∈ tokens, t.id.toNat = id
  · obtain ⟨t, ht, rfl⟩ := hmem
    exact Or.inr ⟨t.id, hback.mem_free ht, rfl⟩
  · have hne : ∀ t ∈ tokens, t.id.toNat ≠ id := fun t ht heq => hmem ⟨t, ht, heq⟩
    rcases hid with hloaned | ⟨n, hn, rfl⟩
    · left
      rw [hback.state_of_ne id hne, h.state_of_ne id hne]
      exact hloaned
    · right
      refine ⟨n, ?_, rfl⟩
      rw [hback.free_eq, h.free_eq]
      exact List.mem_append_right _ hn

end RingRead.Pool
