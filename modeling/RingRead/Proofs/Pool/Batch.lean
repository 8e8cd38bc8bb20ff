import RingRead.Entry
import RingRead.Policy.Basic
import RingRead.Proofs.Pool.Room
import RingRead.Target

/-!
# Batches of reads

The pool's side of a submission: for each read of a batch a block is allocated and goes on
loan.

* **What a batch is.** `Pool.batch` says in advance which reads a batch consists of. The
  blocks are those on the free stack from the top on and then new ones (`Pool.upcoming`);
  the offsets are those that the policy chooses.
* **What a batch does.** `Pool.loanReads` allocates and loans one block after the other.
  `loanReads_eq_batch` says that the reads it makes are the batch, and `loans_loanReads`
  that it loans just their blocks, all different and none of them in use before.
-/

namespace RingRead

/-- A read of one block of a target: where it is read from, and where it goes. Its entry is
made of this and of what all reads of a batch share. -/
structure Read where
  /-- The number of the block that the data goes to. -/
  block : UInt32
  /-- The offset in the target. -/
  offset : Nat
deriving DecidableEq, Repr

namespace Read

/-- The tag under which the kernel knows a read. It is the number of its block, which no
other read in flight can have. -/
def tag (r : Read) : UInt64 := r.block.toUInt64

/-- The submission entry of a read. The block has a fixed address, so the number of the
block is enough to know it. Everything else in the entry is zero. -/
def entry (r : Read) (target : ReadTarget) (blockSize : Nat) : Sqe :=
  Sqe.read target.descriptor (UInt64.ofNat r.offset) (Address.ofIndex r.block)
    (UInt32.ofNat blockSize) r.tag

/-- The entry of a read whose offset was a 64-bit number has that number. Offsets are
natural numbers here, and the entry has to be one of 64 bits. -/
theorem entry_toNat (block : UInt32) (offset : UInt64) (target : ReadTarget) (blockSize : Nat) :
    (⟨block, offset.toNat⟩ : Read).entry target blockSize =
      Sqe.read target.descriptor offset (Address.ofIndex block) (UInt32.ofNat blockSize)
        block.toUInt64 := by
  rw [entry, UInt64.ofNat_toNat]
  rfl

@[simp] theorem toNat_tag (r : Read) : r.tag.toNat = r.block.toNat := UInt32.toNat_toUInt64 r.block

/-- Reads of different blocks have different tags, so a completion tells which read it is
for. -/
theorem tag_inj {r r' : Read} : r.tag = r'.tag ↔ r.block = r'.block := by
  rw [← UInt64.toNat_inj, toNat_tag, toNat_tag, UInt32.toNat_inj]

end Read

namespace ReadTarget

theorem toNat_blocks (t : ReadTarget) (blockSize : Nat) :
    (t.blocks blockSize).toNat = t.size.toNat / blockSize :=
  UInt64.toNat_ofNat_of_lt' (Nat.lt_of_le_of_lt (Nat.div_le_self ..) t.size.toNat_lt)

/-- A target that is no shorter than a block has a block. -/
theorem blocks_ne_zero {t : ReadTarget} {blockSize : Nat} (hpos : 0 < blockSize)
    (h : blockSize ≤ t.size.toNat) : t.blocks blockSize ≠ 0 := by
  rw [ne_eq, ← UInt64.toNat_inj, toNat_blocks]
  exact Nat.ne_of_gt (Nat.div_pos h hpos)

end ReadTarget

namespace Pool

variable {π : Type} [OffsetPolicy π] {p p' p'' : Pool} {t : Token} {ids : List UInt32}

/-! ## What a batch is

A batch can be written down before it is made. Free blocks come first, from the top of the
stack, then new ones in the order of their numbers; the policy is asked once for each. That
the program does just this is shown in the next section. -/

/-- The next `count` choices of a policy. The policy goes on from each of them, so they are
made one after the other. -/
def choices (policy : π) (blocks : UInt64) : (count : Nat) → List UInt64
  | 0 => []
  | count + 1 =>
    (OffsetPolicy.next policy blocks).1 :: choices (OffsetPolicy.next policy blocks).2 blocks count

/-- The next `count` blocks that allocation will give: those on the free stack, from the top
on, and then as many new ones as are needed. -/
def upcoming (p : Pool) (count : Nat) : List UInt32 :=
  (p.free ++ (List.range' p.size count).map UInt32.ofNat).take count

/-- The next `count` reads of a target: a block of the pool for each choice of the policy.
It is a prediction, made without allocating anything. -/
def batch (p : Pool) (target : ReadTarget) (policy : π) (count : Nat) : List Read :=
  let blocks := target.blocks p.blockSize
  (p.upcoming count).zipWith (fun block choice => ⟨block, (choice % blocks).toNat * p.blockSize⟩)
    (choices policy blocks count)

/-- The block that an allocation gives is the first one upcoming, and what was upcoming
behind it comes next. -/
theorem upcoming_succ (h : p.Allocates t p') (count : Nat) :
    p.upcoming (count + 1) = t.id :: p'.upcoming count := by
  unfold upcoming
  rcases h.origin with ⟨hfree, hsize⟩ | ⟨hfree, hfree', hid, hsize⟩
  · -- one new block more than needed is taken into account, and cut off again
    rw [hfree, hsize, List.cons_append, List.take_succ_cons, List.range'_1_concat, List.map_append,
      ← List.append_assoc, List.take_append_of_le_length (by simp)]
  · rw [hfree, hfree', hsize, ← hid, List.nil_append, List.nil_append, List.range'_succ,
      List.map_cons, List.take_succ_cons, UInt32.ofNat_toNat]

/-- A loan does not change which blocks come next: it takes nothing from the stack and makes
nothing. -/
theorem upcoming_loan (p : Pool) (t : Token) (count : Nat) :
    (p.loan t).2.upcoming count = p.upcoming count := by
  have hsize : (p.loan t).2.size = p.size := size_modify ..
  rw [upcoming, hsize]
  rfl

/-- What a policy chooses is reduced to a whole block of the target, so the read ends in it.
The policy may choose any number it likes. -/
theorem offset_add_le {target : ReadTarget} (choice : UInt64)
    (hblocks : target.blocks p.blockSize ≠ 0) :
    (choice % target.blocks p.blockSize).toNat * p.blockSize + p.blockSize ≤ target.size.toNat := by
  have hpos : 0 < target.size.toNat / p.blockSize := by
    rw [← target.toNat_blocks]
    exact Nat.pos_of_ne_zero fun hzero => hblocks (UInt64.toNat_inj.mp hzero)
  rw [UInt64.toNat_mod, target.toNat_blocks]
  have hchoice := Nat.mod_lt choice.toNat hpos
  calc choice.toNat % (target.size.toNat / p.blockSize) * p.blockSize + p.blockSize
      = (choice.toNat % (target.size.toNat / p.blockSize) + 1) * p.blockSize := by
        rw [Nat.add_mul, Nat.one_mul]
    _ ≤ target.size.toNat / p.blockSize * p.blockSize := Nat.mul_le_mul_right _ hchoice
    _ ≤ target.size.toNat := Nat.div_mul_le_self ..

/-- The reads of a batch end inside the target, so none of them comes back short. -/
theorem offset_add_le_of_mem_batch {target : ReadTarget} {policy : π} {count : Nat} {r : Read}
    (hblocks : target.blocks p.blockSize ≠ 0)
    (hr : r ∈ p.batch target policy count) : r.offset + p.blockSize ≤ target.size.toNat := by
  obtain ⟨i, hi, rfl⟩ := List.getElem_of_mem hr
  simp only [batch, List.getElem_zipWith]
  exact offset_add_le _ hblocks

/-- The offsets of a batch are 64-bit numbers, as the length of the target is. -/
theorem offset_lt_of_mem_batch {target : ReadTarget} {policy : π} {count : Nat} {r : Read}
    (hblocks : target.blocks p.blockSize ≠ 0)
    (hr : r ∈ p.batch target policy count) : r.offset < UInt64.size := by
  have hle := offset_add_le_of_mem_batch hblocks hr
  exact Nat.lt_of_le_of_lt (Nat.le_of_add_right_le hle) target.size.toNat_lt

/-! ## Loaning blocks

`loanReads` is the loop of a submission without the ring: it allocates, asks the policy and
lends, once for each read. What is said of it comes in two kinds. One holds however the loop
ends, and is about the blocks that it has lent by then. The other needs that the batch is
complete. -/

/-- `p'` is `p` after the blocks `ids`, which were all different and not in use, went on
loan. It is what a batch does, whether it is complete or not. -/
structure Loans (p : Pool) (ids : List UInt32) (p' : Pool) : Prop where
  moves : p.Moves (ids.map UInt32.toNat) .loaned p'
  nodup : ids.Nodup
  idle : ∀ id ∈ ids, p.state? id.toNat = some .free ∨ p.state? id.toNat = none
  sound : p'.Sound
  count_eq : p'.count .loaned = p.count .loaned + ids.length
  size_le : p.size ≤ p'.size
  mappings_suffix : p'.mappings <:+ p.mappings

/-- A block that goes on loan was free before, if there was such a block at all. -/
theorem Loans.state?_ne {s : BlockState} (h : p.Loans ids p') (hs : s ≠ .free) {id : Nat}
    (hid : id ∈ ids.map UInt32.toNat) : p.state? id ≠ some s := by
  obtain ⟨block, hblock, rfl⟩ := List.mem_map.mp hid
  rcases h.idle block hblock with hfree | hnone
  · rw [hfree]
    exact fun heq => hs (Option.some.inj heq).symm
  · rw [hnone]
    exact nofun

/-- After a loan, the blocks on loan are those that were before and those that went. No
block came back meanwhile. -/
theorem Loans.state?_eq_loaned_iff (h : p.Loans ids p') (id : Nat) :
    p'.state? id = some .loaned ↔
      p.state? id = some .loaned ∨ id ∈ ids.map UInt32.toNat := by
  by_cases hid : id ∈ ids.map UInt32.toNat
  · exact iff_of_true (h.moves.state_of_mem id hid) (Or.inr hid)
  · rw [h.moves.state_of_not_mem id hid]
    exact (or_iff_left hid).symm

/-- The same blocks are on loan as before only if none went. For what goes was not on loan
before. -/
theorem Loans.unchanged_iff (h : p.Loans ids p') :
    (∀ id, p'.state? id = some .loaned ↔ p.state? id = some .loaned) ↔ ids = [] := by
  constructor
  · intro hsame
    refine List.eq_nil_iff_forall_not_mem.mpr fun block hblock => ?_
    have hid : block.toNat ∈ ids.map UInt32.toNat := List.mem_map_of_mem hblock
    exact h.state?_ne (by decide) hid ((hsame block.toNat).mp (h.moves.state_of_mem _ hid))
  · rintro rfl id
    rw [h.moves.state_of_not_mem id (by simp)]

/-- A failed allocation loans nothing, although it may shorten the stack. -/
theorem loans_of_allocate_error {e : Error} (h : p.Sound) (herror : p.allocate = (.error e, p')) :
    p.Loans [] p' := by
  have hmappings := mappings_of_allocate_error herror
  rcases allocate_error_cases herror with
    ⟨-, -, -, rfl⟩ | ⟨err, -, -, -, -, rfl⟩ | ⟨n, rest, hfree, -, -, rfl⟩
  · exact ⟨Moves.refl .., List.nodup_nil, by simp, h, rfl, Nat.le_refl _, hmappings⟩
  · exact ⟨⟨by simp, fun _ _ => rfl, fun _ _ => rfl, rfl, rfl⟩, List.nodup_nil, by simp, h.refused,
      rfl, Nat.le_refl _, hmappings⟩
  · refine ⟨⟨by simp, fun _ _ => rfl, fun _ _ => rfl, rfl, rfl⟩, List.nodup_nil, by simp, ?_, rfl,
      Nat.le_refl _, hmappings⟩
    exact h.of_state_eq (hfree ▸ List.sublist_cons_self n rest) (fun _ => rfl) rfl

/-- A block that is allocated and loaned comes before the blocks that are loaned next. This
is the step of every induction on batches. -/
theorem Loans.cons (halloc : p.Allocates t p') (h : (p'.loan t).2.Loans ids p'') :
    p.Loans (t.id :: ids) p'' := by
  have hheld := halloc.held
  have hloan : p.Moves [t.id.toNat] .loaned (p'.loan t).2 :=
    halloc.moves.again (moves_loan (by rw [hheld]; rfl))
  have hloaned : (p'.loan t).2.state? t.id.toNat = some .loaned := (loan_ok hheld).1
  -- the rest of the batch takes idle blocks, and this one is on loan by then
  have hnot : t.id ∉ ids := by
    intro hmem
    rcases h.idle t.id hmem with hstate | hstate
    all_goals rw [hloaned] at hstate; cases hstate
  refine ⟨hloan.trans h.moves, List.nodup_cons.mpr ⟨hnot, h.nodup⟩, ?_, h.sound, ?_, ?_,
    h.mappings_suffix.trans halloc.mappings_suffix⟩
  · intro id hid
    by_cases heq : id = t.id
    · exact heq ▸ halloc.idle
    · have hne : id.toNat ∉ [t.id.toNat] := by simpa [UInt32.toNat_inj] using heq
      rw [← hloan.state_of_not_mem _ hne]
      exact h.idle id ((List.mem_cons.mp hid).resolve_left heq)
  · rw [h.count_eq, count_loan hheld, halloc.count_eq, List.length_cons]
    omega
  · have hsize : (p'.loan t).2.size = p'.size := size_modify ..
    have hle := h.size_le
    rcases halloc.origin with ⟨-, hsame⟩ | ⟨-, -, -, hnew⟩ <;> omega

/-- Allocate and loan a block for each of `count` reads. The reads that got a block come out
in order, also when the allocation for the next one failed. There is no way back for them: a
batch that fails half way leaves its blocks on loan. -/
def loanReads (blocks : UInt64) :
    (count : Nat) → Pool → π → Except Error Unit × List Read × Pool × π
  | 0, p, policy => (.ok (), [], p, policy)
  | count + 1, p, policy =>
    match p.allocate with
    | (.error e, p) => (.error e, [], p, policy)
    | (.ok t, p) =>
      let (choice, policy) := OffsetPolicy.next policy blocks
      let offset := choice % blocks * UInt64.ofNat p.blockSize
      let (result, reads, p, policy) := loanReads blocks count (p.loan t).2 policy
      (result, ⟨t.id, offset.toNat⟩ :: reads, p, policy)

variable {blocks : UInt64} {count : Nat} {policy : π}

/-- The batch ends where an allocation fails. -/
theorem loanReads_of_error {e : Error} (h : p.allocate = (.error e, p')) :
    loanReads blocks (count + 1) p policy = (.error e, [], p', policy) := by
  simp only [loanReads, h]

/-- Otherwise it goes on with the block on loan, and with the policy after its choice. -/
theorem loanReads_of_ok (h : p.allocate = (.ok t, p')) :
    loanReads blocks (count + 1) p policy =
      let (choice, policy) := OffsetPolicy.next policy blocks
      let offset := choice % blocks * UInt64.ofNat p'.blockSize
      let (result, reads, q, policy) := loanReads blocks count (p'.loan t).2 policy
      (result, ⟨t.id, offset.toNat⟩ :: reads, q, policy) := by
  simp only [loanReads, h]

/-- So a batch that is complete got a block for its first read. -/
theorem allocate_of_loanReads (hok : (loanReads blocks (count + 1) p policy).1 = .ok ()) :
    ∃ t p', p.allocate = (.ok t, p') := by
  rcases halloc : p.allocate with ⟨err | t, p'⟩
  · rw [loanReads_of_error halloc] at hok
    cases hok
  · exact ⟨t, p', rfl⟩

/-- Whether or not the batch is complete, exactly the blocks of its reads went on loan. By
induction on the batch, with `Loans.cons` as the step. -/
theorem loans_loanReads (h : p.Sound) (blocks : UInt64) (count : Nat) (policy : π) :
    p.Loans ((loanReads blocks count p policy).2.1.map Read.block)
      (loanReads blocks count p policy).2.2.1 := by
  induction count generalizing p policy with
  | zero =>
    exact ⟨Moves.refl .., List.nodup_nil, by simp [loanReads], h, rfl, Nat.le_refl _,
      List.suffix_refl _⟩
  | succ count ih =>
    rcases halloc : p.allocate with ⟨e | t, p'⟩
    · rw [loanReads_of_error halloc]
      exact loans_of_allocate_error h halloc
    · rw [loanReads_of_ok halloc]
      have hallocates := allocates_of_ok h halloc
      exact Loans.cons hallocates (ih hallocates.sound_loan _)

/-- A batch fails as an allocation does, in one of three ways. -/
theorem loanReads_error_cases {err : Error} (hsound : p.Sound)
    (h : (loanReads blocks count p policy).1 = .error err) :
    (∃ size, err = .poolExhausted size) ∨
      (∃ refusal, some refusal ∈ p.mappings ∧ err = .alloc refusal) ∨
      ∃ id found, err = .canaryMismatch id found canary := by
  induction count generalizing p policy with
  | zero => cases h
  | succ count ih =>
    rcases halloc : p.allocate with ⟨e | t, p'⟩
    · rw [loanReads_of_error halloc] at h
      cases h
      rcases allocate_error_cases halloc with
        ⟨-, -, he, -⟩ | ⟨refusal, -, -, hrefusal, he, -⟩ | ⟨n, rest, -, -, he, -⟩
      · exact Or.inl ⟨_, he⟩
      · exact Or.inr (Or.inl ⟨_, mem_mappings_of_refusal hrefusal, he⟩)
      · exact Or.inr (Or.inr ⟨_, _, he⟩)
    · rw [loanReads_of_ok halloc] at h
      have hallocates := allocates_of_ok hsound halloc
      refine (ih hallocates.sound_loan h).imp_right (Or.imp_left ?_)
      rintro ⟨refusal, hmem, he⟩
      exact ⟨refusal, hallocates.mappings_suffix.subset hmem, he⟩

/-- A complete batch has as many reads as it was to have, and no batch has more. -/
theorem length_loanReads (p : Pool) (blocks : UInt64) (count : Nat) (policy : π) :
    (loanReads blocks count p policy).2.1.length ≤ count ∧
      ((loanReads blocks count p policy).1 = .ok () →
        (loanReads blocks count p policy).2.1.length = count) := by
  induction count generalizing p policy with
  | zero => exact ⟨Nat.le_refl 0, fun _ => rfl⟩
  | succ count ih =>
    rcases halloc : p.allocate with ⟨e | t, p'⟩
    · rw [loanReads_of_error halloc]
      exact ⟨Nat.zero_le _, nofun⟩
    · rw [loanReads_of_ok halloc]
      obtain ⟨hle, heq⟩ := ih (p'.loan t).2 (OffsetPolicy.next policy blocks).2
      exact ⟨Nat.succ_le_succ hle, fun hok => congrArg Nat.succ (heq hok)⟩

/-- A complete batch takes the blocks that are upcoming, with an offset for each choice. The
offset is still a product of 64-bit numbers here, as the program computes it. -/
theorem loanReads_eq_zipWith {size : Nat} (h : p.Sound) (hsize : p.blockSize = size)
    (hok : (loanReads blocks count p policy).1 = .ok ()) :
    (loanReads blocks count p policy).2.1 =
      (p.upcoming count).zipWith
        (fun block choice => ⟨block, (choice % blocks * UInt64.ofNat size).toNat⟩)
        (choices policy blocks count) := by
  induction count generalizing p policy with
  | zero => rfl
  | succ count ih =>
    obtain ⟨t, p', halloc⟩ := allocate_of_loanReads hok
    have hallocates := allocates_of_ok h halloc
    have hsize' : p'.blockSize = size :=
      (congrArg PoolConfig.blockSize hallocates.moves.config_eq).trans hsize
    rw [loanReads_of_ok halloc] at hok ⊢
    rw [upcoming_succ hallocates]
    have hrest := ih hallocates.sound_loan hsize' hok
    rw [upcoming_loan] at hrest
    simp only [choices, List.zipWith_cons_cons, hsize']
    exact congrArg _ hrest

/-- The offset of a read is computed without wrapping. The choice was reduced to a block of
the target, and the target is no longer than 64 bits can say. -/
theorem toNat_offset {target : ReadTarget} {choice : UInt64}
    (hblocks : target.blocks p.blockSize ≠ 0) :
    (choice % target.blocks p.blockSize * UInt64.ofNat p.blockSize).toNat =
      (choice % target.blocks p.blockSize).toNat * p.blockSize := by
  have hle := offset_add_le choice hblocks
  have hlt := target.size.toNat_lt
  have hsize : (UInt64.ofNat p.blockSize).toNat = p.blockSize :=
    UInt64.toNat_ofNat_of_lt' (Nat.lt_of_le_of_lt (Nat.le_of_add_left_le hle) hlt)
  rw [UInt64.toNat_mul, hsize]
  exact Nat.mod_eq_of_lt (by omega)

/-- The reads of a complete batch are those that `batch` foretells. So what a submission
stages is known before it is made. -/
theorem loanReads_eq_batch {target : ReadTarget} (h : p.Sound)
    (hblocks : target.blocks p.blockSize ≠ 0)
    (hok : (loanReads (target.blocks p.blockSize) count p policy).1 = .ok ()) :
    (loanReads (target.blocks p.blockSize) count p policy).2.1 = p.batch target policy count := by
  rw [loanReads_eq_zipWith h rfl hok, batch]
  simp only [toNat_offset hblocks]

/-- In an intact pool a batch fails only for want of a new block: marks are where they
should be, and stay there. -/
theorem Intact.loanReads (h : p.Intact) (blocks : UInt64) (count : Nat) (policy : π) :
    (Pool.loanReads blocks count p policy).2.2.1.Intact ∧
      ∀ e, (Pool.loanReads blocks count p policy).1 = .error e →
        p.Short (Pool.loanReads blocks count p policy).2.2.1 e := by
  induction count generalizing p policy with
  | zero => exact ⟨h, nofun⟩
  | succ count ih =>
    rcases halloc : p.allocate with ⟨e | t, p'⟩
    · rw [loanReads_of_error halloc]
      refine ⟨h.of_allocate_error halloc, fun e' he' => ?_⟩
      cases he'
      exact h.short halloc
    · rw [loanReads_of_ok halloc]
      have hallocates := allocates_of_ok h.toSound halloc
      obtain ⟨hintact, hshort⟩ := ih ((h.allocate halloc).loan hallocates.held)
        (OffsetPolicy.next policy blocks).2
      exact ⟨hintact, fun e he => (hshort e he).of_suffix hallocates.mappings_suffix⟩

/-- In an intact pool, a batch of reads of a target is complete, and then it is the batch
that was foretold, or no new block could be made. In both cases the blocks of its reads went
on loan. -/
theorem Intact.loanReads_cases {target : ReadTarget} {size : Nat} (h : p.Intact)
    (hsize : p.blockSize = size) (hblocks : target.blocks size ≠ 0) (count : Nat) (policy : π) :
    ∃ reads pool policy', pool.Intact ∧ p.Loans (reads.map Read.block) pool ∧
      (Pool.loanReads (target.blocks size) count p policy = (.ok (), reads, pool, policy') ∧
          reads = p.batch target policy count ∧ reads.length = count ∨
        ∃ err, Pool.loanReads (target.blocks size) count p policy =
            (.error err, reads, pool, policy') ∧ p.Short pool err) := by
  subst hsize
  have hloans := loans_loanReads h.toSound (target.blocks p.blockSize) count policy
  have hlength := length_loanReads p (target.blocks p.blockSize) count policy
  have hbatch : (Pool.loanReads (target.blocks p.blockSize) count p policy).1 = .ok () →
      (Pool.loanReads (target.blocks p.blockSize) count p policy).2.1 =
        p.batch target policy count :=
    loanReads_eq_batch h.toSound hblocks
  obtain ⟨hintact, herror⟩ := h.loanReads (target.blocks p.blockSize) count policy
  rcases hloan : Pool.loanReads (target.blocks p.blockSize) count p policy with
    ⟨err | _, reads, pool, policy'⟩
  · rw [hloan] at hloans hintact herror
    exact ⟨reads, pool, policy', hintact, hloans, Or.inr ⟨err, rfl, herror err rfl⟩⟩
  · rw [hloan] at hloans hintact hlength hbatch
    exact ⟨reads, pool, policy', hintact, hloans, Or.inl ⟨rfl, hbatch rfl, hlength.2 rfl⟩⟩

/-- The reads of a batch take the upcoming blocks, as many as there are reads. This holds of
a batch that fails as well, which is what says which blocks it has lost. -/
theorem blocks_loanReads (h : p.Sound) (blocks : UInt64) (count : Nat) (policy : π) :
    (loanReads blocks count p policy).2.1.map Read.block =
      (p.upcoming count).take (loanReads blocks count p policy).2.1.length := by
  induction count generalizing p policy with
  | zero => rfl
  | succ count ih =>
    rcases halloc : p.allocate with ⟨e | t, p'⟩
    · rw [loanReads_of_error halloc]
      rfl
    · have hallocates := allocates_of_ok h halloc
      have hrest := ih hallocates.sound_loan (OffsetPolicy.next policy blocks).2
      rw [upcoming_loan] at hrest
      rw [loanReads_of_ok halloc, upcoming_succ hallocates]
      exact congrArg (t.id :: ·) hrest

/-- A batch that fails is not complete. -/
theorem length_loanReads_lt {e : Error} (herror : (loanReads blocks count p policy).1 = .error e) :
    (loanReads blocks count p policy).2.1.length < count := by
  induction count generalizing p policy with
  | zero => cases herror
  | succ count ih =>
    rcases halloc : p.allocate with ⟨e' | t, p'⟩
    · rw [loanReads_of_error halloc]
      exact Nat.succ_pos count
    · rw [loanReads_of_ok halloc] at herror ⊢
      exact Nat.succ_lt_succ (ih herror)

/-- A batch that fails has no reads if and only if its first allocation failed. Only then
has it lost nothing. -/
theorem loanReads_eq_nil_iff {e : Error} (hcount : count ≠ 0)
    (herror : (loanReads blocks count p policy).1 = .error e) :
    (loanReads blocks count p policy).2.1 = [] ↔ p.allocate.1 = .error e := by
  obtain ⟨count, rfl⟩ := Nat.exists_eq_succ_of_ne_zero hcount
  rcases halloc : p.allocate with ⟨e' | t, p'⟩
  · rw [loanReads_of_error halloc] at herror ⊢
    cases herror
    exact iff_of_true rfl rfl
  · rw [loanReads_of_ok halloc]
    exact iff_of_false (List.cons_ne_nil _ _) nofun

/-! ## Room for a batch

A pool can say beforehand whether a batch will be complete (`Pool.room`). Damage is the one
thing that it cannot see coming, so the free blocks have to have their marks. -/

/-- A complete batch takes as much room as it has reads. What comes after the room stays the
same: the shortage that was ahead is ahead still. -/
theorem room_loanReads (h : p.Sound) (hok : (loanReads blocks count p policy).1 = .ok ()) :
    (loanReads blocks count p policy).2.2.1.room + count = p.room ∧
      (loanReads blocks count p policy).2.2.1.shortage = p.shortage := by
  induction count generalizing p policy with
  | zero => exact ⟨rfl, rfl⟩
  | succ count ih =>
    obtain ⟨t, p', halloc⟩ := allocate_of_loanReads hok
    have hallocates := allocates_of_ok h halloc
    rw [loanReads_of_ok halloc] at hok ⊢
    obtain ⟨hrest, hlast⟩ := ih hallocates.sound_loan hok
    obtain ⟨hroom, hshortage⟩ := hallocates.room_succ
    obtain ⟨hroomLoan, hshortageLoan⟩ := room_loan p' t
    refine ⟨?_, hlast.trans (hshortageLoan.trans hshortage)⟩
    rw [hroomLoan] at hrest
    rw [← hroom, ← hrest]
    rfl

/-- Without damage, a batch is complete if there is room for it, and fails with the shortage
of the pool if there is not. -/
theorem Marked.loanReads_cases (h : p.Marked) (hsound : p.Sound) (blocks : UInt64) (count : Nat)
    (policy : π) :
    (loanReads blocks count p policy).1 = .ok () ∧ count ≤ p.room ∨
      (loanReads blocks count p policy).1 = .error p.shortage ∧ p.room < count := by
  induction count generalizing p policy with
  | zero => exact Or.inl ⟨rfl, Nat.zero_le _⟩
  | succ count ih =>
    rcases halloc : p.allocate with ⟨e | t, p'⟩
    · rw [loanReads_of_error halloc]
      obtain ⟨hroom, rfl⟩ := h.allocate_error hsound halloc
      exact Or.inr ⟨rfl, hroom ▸ Nat.succ_pos count⟩
    · have hallocates := allocates_of_ok hsound halloc
      obtain ⟨hroom, hshortage⟩ := hallocates.room_succ
      obtain ⟨hroomLoan, hshortageLoan⟩ := room_loan p' t
      rw [loanReads_of_ok halloc]
      rcases ih ((hallocates.marked h).loan hallocates.sound hallocates.held)
        hallocates.sound_loan (OffsetPolicy.next policy blocks).2 with
        ⟨hok, hle⟩ | ⟨herror, hlt⟩
      · exact Or.inl ⟨hok, by omega⟩
      · rw [hshortageLoan, hshortage] at herror
        exact Or.inr ⟨herror, by omega⟩

end Pool

end RingRead
