import RingRead.Proofs.Pool.Soundness

/-!
# Marks and block sizes

A pool is intact when all of its blocks have the size that its configuration says and every
block on the free stack carries its mark. An intact pool never finds a damaged block
(`Intact.allocate_error`), and it stays intact under all of its operations and under bytes
from outside that arrive in blocks that are not free (`Intact.receive`).
-/

namespace RingRead.Pool

variable {p p' : Pool} {t : Token} {id : Nat}

/-! ## Sizes

The length of a block is part of its bytes and not of its type, so it has to be carried
along. Everything that writes into a block overwrites a part of it, which keeps the
length. -/

/-- All blocks have the configured size. No operation changes the length of a block, so this
needs no care. With it a valid configuration has room for the mark in each of them. -/
def Uniform (p : Pool) : Prop := ∀ b ∈ p.blocks, b.bytes.size = p.blockSize

theorem Uniform.size_bytes (h : p.Uniform) {bytes : Bytes} (hbytes : p.bytes? id = some bytes) :
    bytes.size = p.blockSize := by
  obtain ⟨b, hb, rfl⟩ := Option.map_eq_some_iff.mp hbytes
  exact h b (Array.mem_of_getElem? hb)

/-- A change that keeps the length of a block keeps all lengths. An overwrite does: it drops
what does not fit. -/
theorem Uniform.modify (h : p.Uniform) (change : Block → Block)
    (hchange : ∀ b, (change b).bytes.size = b.bytes.size) : (p.modify id change).Uniform := by
  intro b hb
  obtain ⟨i, hi⟩ := Array.mem_iff_getElem?.mp hb
  simp only [Pool.modify, Array.getElem?_modify] at hi
  split at hi
  · obtain ⟨b', hb', rfl⟩ := Option.map_eq_some_iff.mp hi
    exact (hchange b').trans (h b' (Array.mem_of_getElem? hb'))
  · exact h b (Array.mem_of_getElem? hi)

theorem Uniform.receiveAll (h : p.Uniform) (transfers : List Transfer) :
    (p.receiveAll transfers).Uniform := by
  induction transfers generalizing p with
  | nil => exact h
  | cons transfer rest ih => exact ih (h.modify _ fun b => Bytes.size_overwrite ..)

/-- A new block has the configured size, and a recycled one keeps its size when its mark is
cleared. -/
theorem Uniform.allocate (h : p.Uniform) : p.allocate.2.Uniform := by
  cases hfree : p.free with
  | nil =>
    rw [allocate_empty hfree]
    rcases p.allocateFresh_cases with
      ⟨-, -, hfresh⟩ | ⟨err, -, -, hfresh⟩ | ⟨-, hfresh⟩
    all_goals rw [hfresh]
    · intro b hb
      rcases Array.mem_push.mp hb with hb | rfl
      · exact h b hb
      · exact Bytes.size_zeros p.blockSize
    · exact h
    · exact h
  | cons n rest =>
    by_cases hmark : p.firstWord n.toNat = canary
    · rw [allocate_marked hfree hmark]
      let reuse (b : Block) : Block := { b with state := .held, bytes := b.bytes.setFirstWord 0 }
      exact h.modify reuse fun b => Bytes.size_setFirstWord ..
    · rw [allocate_damaged hfree hmark]
      exact h

theorem Uniform.release (h : p.Uniform) (t : Token) : (p.release t).2.Uniform := by
  rw [Pool.release]
  split
  · exact h
  · let mark (b : Block) : Block :=
      { b with state := .free, bytes := b.bytes.setFirstWord canary }
    exact h.modify mark fun b => Bytes.size_setFirstWord ..

/-! ## Marked pools

The mark is a word of eight bytes that a release writes and an allocation looks for. It lies
in memory that the kernel could write to, so it can be kept only by saying who writes
where. -/

/-- The first word of a block is read off its bytes. A block that there is not has zero,
which is no mark. -/
theorem firstWord_eq (p : Pool) (id : Nat) :
    p.firstWord id = ((p.bytes? id).map Bytes.firstWord).getD 0 := by
  simp [firstWord, bytes?, Function.comp_def]

/-- Every block on the free stack has its mark. Blocks that are off the stack may hold what
they like. In such a pool no allocation reports damage; only bytes from outside that arrive
in a free block can bring this to an end. -/
def Marked (p : Pool) : Prop := ∀ n ∈ p.free, p.firstWord n.toNat = canary

-- given outright: where identifiers are known to be finite, all of them would be tried otherwise
instance (p : Pool) : Decidable p.Marked := List.decidableBAll _ p.free

/-- Marks are kept where the free stack only shrank and its blocks kept their bytes. That is
the case for every operation but a release. -/
theorem Marked.of_free_subset (h : p.Marked) (hfree : p'.free ⊆ p.free)
    (hbytes : ∀ n ∈ p'.free, p'.bytes? n.toNat = p.bytes? n.toNat) : p'.Marked := by
  intro n hn
  rw [firstWord_eq, hbytes n hn, ← firstWord_eq]
  exact h n (hfree hn)

/-- A block that went to another state than free leaves the marks of the free ones. The free
ones were not moved, and so not written to. -/
theorem Marked.of_moves {ids : List Nat} {s : BlockState} (h : p.Marked) (hmoves : p.Moves ids s p')
    (hs : s ≠ .free) (hsound : p'.Sound) (hfree : p'.free ⊆ p.free) : p'.Marked := by
  apply h.of_free_subset hfree
  intro n hn
  exact hmoves.bytes_of_not_mem _ (hmoves.not_mem_of_state hs.symm (hsound.state_free n hn))

/-- Allocating takes from the free stack, and puts nothing on it. A new block is held at
once. -/
theorem Allocates.free_subset (h : p.Allocates t p') : p'.free ⊆ p.free := by
  rcases h.origin with ⟨hfree, -⟩ | ⟨-, hfree, -⟩
  · rw [hfree]
    exact List.subset_cons_self ..
  · rw [hfree]
    exact List.nil_subset _

theorem Allocates.marked (h : p.Allocates t p') (hmarked : p.Marked) : p'.Marked :=
  hmarked.of_moves h.moves (by decide) h.sound h.free_subset

theorem Marked.loan (h : p.Marked) (hsound : p.Sound) (hheld : p.state? t.id.toNat = some .held) :
    (p.loan t).2.Marked :=
  h.of_moves (moves_loan (by rw [hheld]; rfl)) (by decide) (hsound.loan hheld)
    (List.Subset.refl _)

/-! ## Intact pools

An intact pool is what calls and obedient kernels leave behind. Each operation keeps it, by
what it does to the free stack: most take from it, and only a release, which sets the mark
itself, puts something on it. -/

/-- A sound pool with a valid configuration whose blocks have their size and whose free
blocks have their mark. It is how a pool is as long as nobody writes where nobody should. -/
structure Intact (p : Pool) : Prop extends p.Sound where
  valid : p.config.fault? = none
  uniform : p.Uniform
  mark : ∀ n ∈ p.free, p.firstWord n.toNat = canary

/-- A valid configuration has blocks that can hold a mark, and whose length fits into 32
bits. -/
theorem blockSize_bounds (hvalid : p.config.fault? = none) :
    8 ≤ p.blockSize ∧ p.blockSize < UInt32.size :=
  PoolConfig.blockSize_bounds hvalid

theorem Intact.blockSize_bounds (h : p.Intact) : 8 ≤ p.blockSize ∧ p.blockSize < UInt32.size :=
  Pool.blockSize_bounds h.valid

/-- A new pool is intact: it has no blocks that could be damaged. -/
theorem intact_create {serial : UInt32} {config : PoolConfig} {mappings : MappingAnswers}
    (h : create serial config mappings = .ok p) : p.Intact := by
  obtain ⟨hsound, -, -⟩ := sound_create h
  obtain ⟨hvalid, rfl⟩ := create_ok h
  exact ⟨hsound, hvalid, by simp [Uniform], by simp⟩

theorem Intact.marked (h : p.Intact) : p.Marked := h.mark

/-- A pool stays intact where the free stack only shrank and its blocks kept their bytes, as
far as marks are concerned. -/
theorem Intact.of_free_subset (h : p.Intact) (hsound : p'.Sound) (huniform : p'.Uniform)
    (hconfig : p'.config = p.config) (hfree : p'.free ⊆ p.free)
    (hbytes : ∀ n ∈ p'.free, p'.bytes? n.toNat = p.bytes? n.toNat) : p'.Intact :=
  ⟨hsound, hconfig ▸ h.valid, huniform, h.marked.of_free_subset hfree hbytes⟩

/-- A pool stays intact where a block went to another state than free, since no free block
was touched. -/
theorem Intact.of_moves {ids : List Nat} {s : BlockState} (h : p.Intact)
    (hmoves : p.Moves ids s p') (hs : s ≠ .free) (hsound : p'.Sound) (huniform : p'.Uniform)
    (hfree : p'.free ⊆ p.free) : p'.Intact :=
  ⟨hsound, hmoves.config_eq ▸ h.valid, huniform, h.marked.of_moves hmoves hs hsound hfree⟩

theorem Intact.allocate (h : p.Intact) (hok : p.allocate = (.ok t, p')) : p'.Intact := by
  have halloc := allocates_of_ok h.toSound hok
  have huniform : p.allocate.2.Uniform := h.uniform.allocate
  rw [hok] at huniform
  exact h.of_moves halloc.moves (by decide) halloc.sound huniform halloc.free_subset

/-- An intact pool fails to allocate only for want of block numbers, and then nothing
changes, or because the system refuses to map memory, and then nothing changes but that its
answer is used up. -/
theorem Intact.allocate_error {e : Error} (h : p.Intact) (herror : p.allocate = (.error e, p')) :
    (e = .poolExhausted p.size ∧ p.size = UInt32.size ∧ p' = p) ∨
      ∃ err, p.refusal? = some err ∧ e = .alloc err ∧ p' = p.refused := by
  rcases allocate_error_cases herror with
    ⟨-, hsize, he, hp'⟩ | ⟨err, -, -, hrefusal, he, hp'⟩ | ⟨n, rest, hfree, hmark, -, -⟩
  · exact Or.inl ⟨he, Nat.le_antisymm h.size_le hsize, hp'⟩
  · exact Or.inr ⟨err, hrefusal, he, hp'⟩
  · exact absurd (h.mark n (by simp [hfree])) hmark

theorem Intact.refused (h : p.Intact) : p.refused.Intact :=
  ⟨h.toSound.refused, h.valid, h.uniform, h.mark⟩

/-- A failed allocation leaves an intact pool intact. Of the ways to fail only two are left,
and neither touches a block. -/
theorem Intact.of_allocate_error {e : Error} (h : p.Intact)
    (herror : p.allocate = (.error e, p')) : p'.Intact := by
  rcases h.allocate_error herror with ⟨-, -, rfl⟩ | ⟨err, -, -, rfl⟩
  · exact h
  · exact h.refused

theorem Intact.loan (h : p.Intact) (hheld : p.state? t.id.toNat = some .held) :
    (p.loan t).2.Intact :=
  h.of_moves (moves_loan (by rw [hheld]; rfl)) (by decide) (h.toSound.loan hheld)
    (h.uniform.modify _ fun _ => rfl) (List.Subset.refl _)

theorem Intact.reclaim {tag : UInt64} (h : p.Intact)
    (hloaned : p.state? tag.toNat = some .loaned) : (p.reclaim tag).2.Intact := by
  have hmoves := moves_reclaim hloaned
  have hsound := h.toSound.reclaim hloaned
  rw [Pool.reclaim, if_pos hloaned] at hmoves hsound ⊢
  exact h.of_moves hmoves (by decide) hsound (h.uniform.modify _ fun _ => rfl)
    (List.Subset.refl _)

/-- A block goes on the stack with its mark, for which it is long enough. -/
theorem Intact.release (h : p.Intact) (hcheck : p.check t = .ok ()) : (p.release t).2.Intact := by
  obtain ⟨-, hfree, -, hbytes⟩ := release_ok hcheck
  have hmoves := moves_release hcheck
  refine ⟨h.toSound.release hcheck, hmoves.config_eq ▸ h.valid, h.uniform.release t,
    fun n hn => ?_⟩
  rw [firstWord_eq]
  by_cases heq : n = t.id
  · -- the block that was given back has just been marked
    obtain ⟨b, hb, -⟩ := Option.map_eq_some_iff.mp (check_eq_ok_iff.mp hcheck).1
    have hold : p.bytes? t.id.toNat = some b.bytes := by rw [bytes?, hb]; rfl
    have hlong : 8 ≤ b.bytes.size := (h.uniform.size_bytes hold).symm ▸ h.blockSize_bounds.1
    rw [heq, hbytes, hold]
    exact Bytes.firstWord_setFirstWord _ _ hlong
  · rw [hfree] at hn
    rw [hmoves.bytes_of_not_mem _ (by simpa [UInt32.toNat_inj] using heq), ← firstWord_eq]
    exact h.mark n ((List.mem_cons.mp hn).resolve_left heq)

/-! ## Bytes from outside

The last thing that can happen to a pool is that bytes arrive. Here lies the whole danger to
a mark, and one condition removes it: that they arrive in no free block. -/

/-- Bytes that arrive elsewhere leave a block alone. Each piece names the one block that it
is for. -/
theorem bytes?_receiveAll_of_ne {transfers : List Transfer}
    (h : ∀ transfer ∈ transfers, Address.index transfer.address ≠ id) :
    (p.receiveAll transfers).bytes? id = p.bytes? id := by
  induction transfers generalizing p with
  | nil => rfl
  | cons transfer rest ih =>
    have hne : id ≠ Address.index transfer.address := (h transfer (List.mem_cons_self ..)).symm
    exact (ih fun other hother => h other (List.mem_cons_of_mem _ hother)).trans
      (bytes?_modify_ne p _ hne)

@[simp] theorem free_receiveAll (p : Pool) (transfers : List Transfer) :
    (p.receiveAll transfers).free = p.free := by
  induction transfers generalizing p with
  | nil => rfl
  | cons transfer rest ih => exact ih (p.receive transfer)

@[simp] theorem config_receiveAll (p : Pool) (transfers : List Transfer) :
    (p.receiveAll transfers).config = p.config := by
  induction transfers generalizing p with
  | nil => rfl
  | cons transfer rest ih => exact ih (p.receive transfer)

@[simp] theorem serial_receiveAll (p : Pool) (transfers : List Transfer) :
    (p.receiveAll transfers).serial = p.serial := by
  induction transfers generalizing p with
  | nil => rfl
  | cons transfer rest ih => exact ih (p.receive transfer)

@[simp] theorem size_receiveAll (p : Pool) (transfers : List Transfer) :
    (p.receiveAll transfers).size = p.size := by
  induction transfers generalizing p with
  | nil => rfl
  | cons transfer rest ih => exact (ih (p.receive transfer)).trans (size_receive p transfer)

/-- Bytes that arrive in a block that is not free damage no mark. The kernel writes into
blocks on loan, and those have none. -/
theorem Intact.receive {transfer : Transfer} (h : p.Intact)
    (hnot : p.state? (Address.index transfer.address) ≠ some .free) :
    (p.receive transfer).Intact := by
  refine h.of_free_subset (h.toSound.receiveAll [transfer]) (h.uniform.receiveAll [transfer]) rfl
    (List.Subset.refl _) fun n hn => bytes?_modify_ne p _ fun heq => ?_
  exact hnot (heq ▸ h.state_free n hn)

/-- Bytes that arrive in blocks on loan do so several times as well: a block that was
written to is still on loan. -/
theorem Intact.receiveAll {transfers : List Transfer} (h : p.Intact)
    (hloaned : ∀ transfer ∈ transfers,
      p.state? (Address.index transfer.address) = some .loaned) :
    (p.receiveAll transfers).Intact := by
  induction transfers generalizing p with
  | nil => exact h
  | cons transfer rest ih =>
    have hfirst := hloaned transfer (List.mem_cons_self ..)
    refine ih (h.receive (by simp [hfirst])) fun other hother => ?_
    rw [state?_receive]
    exact hloaned other (List.mem_cons_of_mem _ hother)

end RingRead.Pool
