import Mathlib.Data.List.Rotate
import RingRead.Proofs.Engine.Staging

/-!
# Walks over a target

A `Walker` takes the blocks of a target in order and starts over at the end. Where it starts
does not matter, nor into which batches its reads are cut.

* **Choices.** From any position, also one that is beyond the blocks, `count` choices are
  the numbers from there on modulo the number of blocks (`Walker.toNat_choices`). As many
  choices as there are blocks are a rotation of them, so each block is among them once
  (`Walker.perm_choices`).
* **Batches.** A submission that succeeds stages the offsets of what the policy chooses, in
  order, and leaves the policy that was asked so often (`Engine.stagedOffsets_of_ok`). A
  walk goes on in the next batch where it stopped in the last one, whatever the engine does
  in between (`Engine.Walks`).
-/

namespace RingRead

/-! ## What a walker chooses

A walker is one number, the position after its last choice. It reduces the position before
it uses it, so that a target with fewer blocks than the last one does no harm. -/

namespace Walker

open OffsetPolicy

variable {blocks : UInt64}

/-- A choice is a block of the target, also if the walker comes from a larger one. -/
theorem next_lt (w : Walker) (hblocks : blocks ≠ 0) : (w.next blocks).1 < blocks :=
  UInt64.mod_lt w.position (UInt64.pos_iff_ne_zero.mpr hblocks)

/-- The position after a choice does not wrap, however many blocks there are. -/
theorem position_next (w : Walker) (hblocks : blocks ≠ 0) :
    (w.next blocks).2.position.toNat = (w.next blocks).1.toNat + 1 := by
  have hlt := UInt64.lt_iff_toNat_lt.mp (w.next_lt hblocks)
  have hword := blocks.toNat_lt
  change ((w.next blocks).1 + 1).toNat = _
  rw [UInt64.toNat_add, UInt64.toNat_one]
  exact Nat.mod_eq_of_lt (by omega)

/-- A position counts modulo the number of blocks. It may be equal to that number after a
choice, and the next choice starts over. -/
theorem position_asked (w : Walker) (hblocks : blocks ≠ 0) (count : Nat) :
    (asked w blocks count).position.toNat % blocks.toNat =
      (w.position.toNat + count) % blocks.toNat := by
  induction count generalizing w with
  | zero => rfl
  | succ count ih =>
    have hnext : (w.next blocks).2.position.toNat = w.position.toNat % blocks.toNat + 1 :=
      w.position_next hblocks
    calc (asked w blocks (count + 1)).position.toNat % blocks.toNat
        = ((w.next blocks).2.position.toNat + count) % blocks.toNat := ih _
      _ = (w.position.toNat % blocks.toNat + (1 + count)) % blocks.toNat := by
        rw [hnext, Nat.add_assoc]
      _ = (w.position.toNat + (count + 1)) % blocks.toNat := by
        rw [Nat.mod_add_mod, Nat.add_comm 1]

/-- What a walker chooses are the numbers from its position on, modulo the number of
blocks. -/
theorem toNat_choices (w : Walker) (hblocks : blocks ≠ 0) (count : Nat) :
    (Pool.choices w blocks count).map UInt64.toNat =
      (List.range count).map fun i => (w.position.toNat + i) % blocks.toNat := by
  induction count generalizing w with
  | zero => rfl
  | succ count ih =>
    have hnext : (w.next blocks).2.position.toNat = w.position.toNat % blocks.toNat + 1 :=
      w.position_next hblocks
    have hrest : (Pool.choices (w.next blocks).2 blocks count).map UInt64.toNat =
        (List.range count).map fun i => (w.position.toNat + (i + 1)) % blocks.toNat := by
      rw [ih, hnext]
      refine List.map_congr_left fun i _ => ?_
      rw [Nat.add_assoc, Nat.mod_add_mod, Nat.add_comm 1]
    rw [List.range_succ_eq_map, List.map_cons, List.map_map]
    exact congrArg (w.position.toNat % blocks.toNat :: ·) hrest

/-- As many choices as there are blocks take each block once, from wherever the walker
starts. -/
theorem perm_choices (w : Walker) (hblocks : blocks ≠ 0) :
    ((Pool.choices w blocks blocks.toNat).map UInt64.toNat).Perm (List.range blocks.toNat) := by
  have hrotate : (Pool.choices w blocks blocks.toNat).map UInt64.toNat =
      (List.range blocks.toNat).rotate w.position.toNat := by
    rw [w.toNat_choices hblocks]
    refine List.ext_getElem (by simp) fun i hi hi' => ?_
    simp [List.getElem_rotate, Nat.add_comm]
  rw [hrotate]
  exact List.rotate_perm _ _

end Walker

/-! ## What batches stage

Policy and engine both reduce a choice modulo the number of blocks. A walker's choice is
below it, so the second reduction does nothing, and the offsets are the choices times the
block size. -/

/-- The entry that an operation stores. -/
def Operation.entry? : Operation → Option Sqe
  | .access (.storeEntry _ entry) => some entry
  | .access _ | .enter .. => none

variable {κ π : Type}

/-- The entries of a batch are stored in their order. -/
theorem Ring.entries_stores (r : Ring κ) (tail : UInt32) (entries : List Sqe) :
    ((r.stores tail entries).map Operation.access).filterMap Operation.entry? = entries := by
  induction entries generalizing tail with
  | nil => rfl
  | cons entry rest ih => exact congrArg (entry :: ·) (ih (tail + 1))

/-- Staging loads and stores other things, too, but no other entries. -/
theorem Ring.entries_stagingOperations [Kernel κ] (r : Ring κ) (entries : List Sqe) :
    (r.stagingOperations entries).filterMap Operation.entry? = entries :=
  r.entries_stores _ entries

namespace Engine

variable [Kernel κ] [OffsetPolicy π] {e e' : Engine κ} {target : ReadTarget}
  {requested : UInt32}

/-- The offsets of the entries that a submission stores, in order. They are taken from what
the kernel is asked, so they are what the kernel will see, and not what the engine meant. -/
def stagedOffsets (e : Engine κ) (target : ReadTarget) (requested : UInt32) (policy : π) :
    List Nat :=
  ((e.trace.submitReads target requested policy).2.1.ring.kernel.operations.filterMap
    Operation.entry?).map (·.off.toNat)

/-- A submission that succeeds has staged the offset of each block that the policy chose,
and asked the policy for no more. -/
theorem stagedOffsets_of_ok {policy : π} {n : UInt32} (h : e.Reachable)
    (hok : (e.submitReads target requested policy).1 = .ok n) :
    e.stagedOffsets target requested policy =
        (Pool.choices policy (target.blocks e.blockSize) n.toNat).map
          (fun choice => (choice % target.blocks e.blockSize).toNat * e.blockSize) ∧
      (e.submitReads target requested policy).2.2 =
        OffsetPolicy.asked policy (target.blocks e.blockSize) n.toNat ∧
      (n ≠ 0 → target.blocks e.blockSize ≠ 0) := by
  by_cases hcount : min requested e.ring.available = 0
  · rw [submitReads_of_full hcount] at hok
    cases hok
    rw [stagedOffsets, operations_of_nothing (Or.inl hcount), submitReads_of_full hcount]
    exact ⟨rfl, rfl, fun hn => absurd rfl hn⟩
  by_cases hblocks : target.blocks e.blockSize = 0
  · rw [submitReads_of_small hcount hblocks] at hok
    cases hok
  have hsound := h.balanced.sound
  obtain ⟨hcomplete, -⟩ := pool_of_submitReads_ok hsound rfl hcount hblocks hok
  have hends := submitReads_ends h.balanced target requested policy
  rw [hok] at hends
  obtain ⟨hn, -⟩ := hends.eq_of_ok
  rw [stagedOffsets, operations_of_complete hsound rfl hcount hblocks hcomplete,
    policy_submitReads hsound rfl hcount hblocks, Pool.policy_loanReads hcomplete, ← hn]
  refine ⟨?_, rfl, fun _ => hblocks⟩
  -- of the operations only those that stage carry an entry
  have hnothing : (e.ring.handOverOperations n).filterMap Operation.entry? = [] := rfl
  rw [List.filterMap_append, hnothing, List.append_nil, Ring.entries_stagingOperations]
  have hfetches := Pool.fetches_of_complete hsound h.valid hblocks hcomplete
  rw [← hn] at hfetches
  rw [eq_comm, ← List.forall₂_eq_eq_eq, List.forall₂_map_left_iff, List.forall₂_map_right_iff]
  exact hfetches.imp fun _ _ hfetch => hfetch.off_eq.symm

/-- What a walker chooses is a block already, so the engine reduces nothing. -/
theorem stagedOffsets_of_walker {w : Walker} {n : UInt32} (h : e.Reachable)
    (hok : (e.submitReads target requested w).1 = .ok n) :
    e.stagedOffsets target requested w = (List.range n.toNat).map fun i =>
      (w.position.toNat + i) % (target.blocks e.blockSize).toNat * e.blockSize := by
  obtain ⟨hoffsets, -, hblocks⟩ := stagedOffsets_of_ok h hok
  rw [hoffsets]
  by_cases hn : n = 0
  · rw [hn]
    rfl
  have hchoices := w.toNat_choices (hblocks hn) n.toNat
  have hboth := congrArg (List.map fun block =>
    block % (target.blocks e.blockSize).toNat * e.blockSize) hchoices
  rw [List.map_map, List.map_map] at hboth
  simpa [Function.comp_def] using hboth

/-! ## Walks

A walk is cut into batches by the slots that are free, by the limit of the run and by the
caller. Each batch takes the walker that the last one has left, so the cuts do not show in
the offsets. -/

/-- A walk over a target on an engine that calls have made. It is made of submissions that
succeed, `submitted` reads in all. Between two of them the engine may be called in any way,
also to read by other policies, and the kernel may go on by itself. -/
inductive Walks (target : ReadTarget) (first : Walker) :
    (e : Engine κ) → (w : Walker) → (submitted : Nat) → (offsets : List Nat) → Prop
  | start {e : Engine κ} (h : e.Reachable) : Walks target first e first 0 []
  | batch {e : Engine κ} {w : Walker} {submitted : Nat} {offsets : List Nat} {n : UInt32}
      (h : Walks target first e w submitted offsets) (requested : UInt32)
      (hok : (e.submitReads target requested w).1 = .ok n) :
      Walks target first (e.submitReads target requested w).2.1
        (e.submitReads target requested w).2.2 (submitted + n.toNat)
        (offsets ++ e.stagedOffsets target requested w)
  | performed {e : Engine κ} {w : Walker} {submitted : Nat} {offsets : List Nat}
      (h : Walks target first e w submitted offsets) (call : Call) :
      Walks target first (e.perform call) w submitted offsets
  | drifted {e e' : Engine κ} {w : Walker} {submitted : Nat} {offsets : List Nat}
      (h : Walks target first e w submitted offsets) (hdrifts : e.Drifts e') :
      Walks target first e' w submitted offsets

variable {first w : Walker} {submitted : Nat} {offsets : List Nat}

/-- The engine of a walk is one that calls have made. -/
theorem Walks.reachable (h : Walks target first e w submitted offsets) : e.Reachable := by
  induction h with
  | start h => exact h
  | @batch e w _ _ _ _ requested _ ih => exact ih.performed (.submitReads target requested w)
  | performed _ call ih => exact ih.performed call
  | drifted _ hdrifts ih => exact ih.drifted hdrifts

/-- A walk goes on where it stopped. The position says how many reads were submitted, but
for the remainder, and the offsets are those of a single walk that was never cut. -/
theorem Walks.continues (h : Walks target first e w submitted offsets) :
    w.position.toNat % (target.blocks e.blockSize).toNat =
          (first.position.toNat + submitted) % (target.blocks e.blockSize).toNat ∧
      offsets = (List.range submitted).map fun i =>
        (first.position.toNat + i) % (target.blocks e.blockSize).toNat * e.blockSize := by
  induction h with
  | start h => exact ⟨rfl, rfl⟩
  | @batch e w submitted offsets n h requested hok ih =>
    obtain ⟨hposition, hoffsets⟩ := ih
    obtain ⟨-, hpolicy, hblocks⟩ := stagedOffsets_of_ok h.reachable hok
    rw [blockSize_submitReads h.reachable.balanced.sound, hpolicy,
      stagedOffsets_of_walker h.reachable hok, hoffsets]
    -- a batch of no reads asks nothing, and then the walker may stand behind the last block
    have hfrom (i : Nat) : (w.position.toNat + i) % (target.blocks e.blockSize).toNat =
        (first.position.toNat + (submitted + i)) % (target.blocks e.blockSize).toNat := by
      rw [← Nat.add_assoc]
      exact Nat.ModEq.add_right i hposition
    constructor
    · by_cases hn : n = 0
      · rw [hn]
        exact hposition
      · rw [Walker.position_asked w (hblocks hn), hfrom]
    · rw [List.range_add, List.map_append, List.map_map]
      refine congrArg (_ ++ ·) (List.map_congr_left fun i _ => ?_)
      rw [hfrom]
      rfl
  | @performed e w submitted offsets h call ih =>
    have hsize : (e.perform call).blockSize = e.blockSize :=
      congrArg PoolConfig.blockSize (config_perform h.reachable.balanced call)
    rw [hsize]
    exact ih
  | @drifted e e' w submitted offsets h hdrifts ih =>
    have hsize : e'.blockSize = e.blockSize :=
      congrArg PoolConfig.blockSize (config_of_drifts hdrifts)
    rw [hsize]
    exact ih

/-- **A walk covers its target in cyclic order.** A walker may have been left at any
position, by choices among any number of blocks before. For any number of blocks but zero,
what it chooses is one of them, and its position does not wrap. Consecutive choices are
consecutive blocks modulo their number, and as many choices as there are blocks are each of
them once. The offsets that submissions stage are these blocks times the block size, in the
order in which they are staged, into whichever batches the reads are cut. -/
theorem offsets_of_walk (target : ReadTarget) (first : Walker) :
    (∀ (w : Walker) (blocks : UInt64), blocks ≠ 0 →
      (w.next blocks).1 < blocks ∧
        (w.next blocks).2.position.toNat = (w.next blocks).1.toNat + 1 ∧
        (∀ count, (Pool.choices w blocks count).map UInt64.toNat =
          (List.range count).map fun i => (w.position.toNat + i) % blocks.toNat) ∧
        ((Pool.choices w blocks blocks.toNat).map UInt64.toNat).Perm (List.range blocks.toNat)) ∧
    ∀ (e : Engine κ) (w : Walker) (submitted : Nat) (offsets : List Nat),
      Walks target first e w submitted offsets →
        offsets = (List.range submitted).map fun i =>
          (first.position.toNat + i) % (target.blocks e.blockSize).toNat * e.blockSize := by
  refine ⟨fun w blocks hblocks => ⟨w.next_lt hblocks, w.position_next hblocks,
    fun count => w.toNat_choices hblocks count, w.perm_choices hblocks⟩, ?_⟩
  intro e w submitted offsets hwalks
  obtain ⟨-, hoffsets⟩ := hwalks.continues
  exact hoffsets

/-- A walker that has come to position 10 goes on over a target of three blocks, in two
batches. In between, a read of the last block is submitted by another policy, and all reads
are drained. -/
theorem offsets_of_walk_in_two_batches :
    ∃ e₀ : Engine SimulatedKernel,
      create { file := SimulatedKernel.patternedFile 4 8 } 4 7 { blockSize := 8, alignment := 8 } =
        .ok e₀ ∧
        ∃ (e : Engine SimulatedKernel) (w : Walker) (offsets : List Nat),
          Walks ⟨3, 30⟩ ⟨10⟩ e w 5 offsets ∧ (⟨3, 30⟩ : ReadTarget).blocks e.blockSize = 3 ∧
            w.position = 3 ∧ offsets = [8, 16, 0, 8, 16] := by
  obtain ⟨e₀, hcreate⟩ : ∃ e₀ : Engine SimulatedKernel,
      create { file := SimulatedKernel.patternedFile 4 8 } 4 7 { blockSize := 8, alignment := 8 } =
        .ok e₀ := ⟨_, rfl⟩
  let target : ReadTarget := ⟨3, 30⟩
  let e₁ := (e₀.submitReads target 2 (⟨10⟩ : Walker)).2.1
  let w₁ := (e₀.submitReads target 2 (⟨10⟩ : Walker)).2.2
  let e₂ := e₁.performAll [.submitReads ⟨3, 32⟩ 1 PolicyChoice.last, .drain .nonBlocking]
  have hfirst : (e₀.submitReads target 2 (⟨10⟩ : Walker)).1 = .ok 2 := by
    cases hcreate
    decide +kernel
  have hsecond : (e₂.submitReads target 3 w₁).1 = .ok 3 := by
    cases hcreate
    decide +kernel
  have hlast : (e₂.submitReads target 3 w₁).2.2 = ⟨3⟩ := by
    cases hcreate
    decide +kernel
  have hsize : (e₂.submitReads target 3 w₁).2.1.blockSize = 8 := by
    cases hcreate
    decide +kernel
  have hstart : Walks target ⟨10⟩ e₀ ⟨10⟩ 0 [] := .start (.created hcreate)
  have hbetween : Walks target ⟨10⟩ e₂ w₁ 2 (e₀.stagedOffsets target 2 (⟨10⟩ : Walker)) :=
    ((hstart.batch 2 hfirst).performed (.submitReads ⟨3, 32⟩ 1 PolicyChoice.last)).performed
      (.drain .nonBlocking)
  have hwalks := hbetween.batch 3 hsecond
  have hoffsets := (offsets_of_walk target ⟨10⟩).2 _ _ _ _ hwalks
  rw [hsize] at hoffsets
  refine ⟨e₀, hcreate, _, _, _, hwalks, ?_, congrArg Walker.position hlast,
    hoffsets.trans (by decide)⟩
  rw [hsize]
  rfl

end Engine

end RingRead
