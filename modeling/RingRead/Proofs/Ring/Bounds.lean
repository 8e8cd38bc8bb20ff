import Mathlib.Data.Nat.ModEq
import RingRead.Proofs.Ring.Creation

/-!
# Rings within bounds

Everything that a ring reads and writes in shared memory it finds at an offset that comes
from a number of the kernel's, and for an entry also from a position. An offset is good if a
value of its layout ends inside the mapping and is aligned there (`Mapping.Contains`).

* **Locating.** What was located at creation is good, and so is every element of an array
  that was located as a whole (`contains_of_locate`).
* **Masking.** The mask is one less than the number of entries, so a masked position is the
  number of an entry, whatever the position (`slot_lt_of_mask`). That needs entries, and no
  power of two.
* **Creation.** All parts of a ring that was created lie in its mappings
  (`confined_of_create`), and its depths are in order (`depths_of_create`).

Lengths are natural numbers here. `regionLength_lt` and `located_end_lt` say that those of a
program with 64-bit lengths are the same.
-/

namespace RingRead

/-- A value of a layout fits into a mapping at an offset, and is aligned wherever the
mapping lies: its base address is a multiple of eight. -/
structure Mapping.Contains (m : Mapping) (layout : Layout) (offset : Nat) : Prop where
  end_le : offset + layout.size ≤ m.length
  aligned : ∀ base, 8 ∣ base → layout.align ∣ base + offset

namespace Ring

variable {κ : Type} [Kernel κ] {kernel kernel' : κ} {capacity : UInt32} {params : Params}
variable {m m' : Mapping} {region : Region} {layout : Layout} {offset count found : Nat}

/-! ## Lengths

All numbers that a kernel reports have 32 bits, and a length is a sum of one such number and
a product of another with a small size. So a program that computes it in 64 bits gets what
is computed here. -/

/-- The layouts of what lies in shared memory: words, submission entries and completion
entries. -/
def Shares (layout : Layout) : Prop := layout = .word ∨ layout = .sqe ∨ layout = .cqe

/-- Each of them is aligned in an array if the array is, and a base address that is a
multiple of eight is aligned for all. -/
theorem Shares.align_dvd (h : Shares layout) : layout.align ∣ layout.size ∧ layout.align ∣ 8 := by
  rcases h with rfl | rfl | rfl
  all_goals exact ⟨by decide, by decide⟩

theorem Shares.size_le (h : Shares layout) : layout.size ≤ 64 := by
  rcases h with rfl | rfl | rfl
  all_goals decide

/-- The end of a field whose offset and length are 32-bit numbers is far from the end of the
address space, since no entry has more than 64 bytes. -/
theorem located_end_lt (h : Shares layout) (offset count : UInt32) :
    offset.toNat + layout.size * count.toNat < UInt64.size := by
  have hoffset : offset.toNat < UInt32.size := offset.toNat_lt
  have hcount : count.toNat < UInt32.size := count.toNat_lt
  have hmul : layout.size * count.toNat ≤ 64 * UInt32.size :=
    Nat.mul_le_mul h.size_le (Nat.le_of_lt hcount)
  have hroom : UInt32.size + 64 * UInt32.size < UInt64.size := by decide
  omega

/-- Whatever the kernel reports, the lengths that are asked for do not wrap. -/
theorem regionLength_lt (params : Params) (region : Region) :
    params.regionLength region < UInt64.size := by
  cases region with
  | submissionRing => exact located_end_lt (Or.inl rfl) params.sqOff.array params.sqEntries
  | submissionEntries =>
    have hend := located_end_lt (Or.inr (Or.inl rfl)) 0 params.sqEntries
    rwa [UInt32.toNat_zero, Nat.zero_add] at hend
  | completionRing => exact located_end_lt (Or.inr (Or.inr rfl)) params.cqOff.cqes params.cqEntries

/-! ## Locating

To locate something is to compare its end with the length of its mapping and its offset with
its alignment. Arrays are located as a whole, and what is used later are their elements. -/

/-- What is located is at the offset that was asked for, fits into the mapping and is
aligned. Otherwise it is refused. -/
theorem locate_eq_ok (h : locate m region layout offset count = .ok found) :
    found = offset ∧ offset + layout.size * count ≤ m.length ∧ offset % layout.align = 0 := by
  rw [locate] at h
  split at h
  · next hlocated =>
    cases h
    exact Mapping.locate_eq_some_iff.mp hlocated
  · cases h

/-- Every element of what was located lies in the mapping. -/
theorem contains_of_locate (hshares : Shares layout)
    (h : locate m region layout offset count = .ok found) {i : Nat} (hi : i < count) :
    m.Contains layout (found + layout.size * i) := by
  obtain ⟨rfl, hend, halign⟩ := locate_eq_ok h
  obtain ⟨hsize, height⟩ := hshares.align_dvd
  constructor
  · have hmul : layout.size * (i + 1) ≤ layout.size * count := Nat.mul_le_mul_left _ hi
    rw [Nat.mul_succ] at hmul
    omega
  · intro base hbase
    have hfound : layout.align ∣ found := Nat.dvd_of_mod_eq_zero halign
    exact Nat.dvd_add (height.trans hbase) (Nat.dvd_add hfound (hsize.mul_right i))

/-- A masked position is the number of an entry. Every number that has only bits of the mask
is at most the mask. -/
theorem slot_lt_of_mask {n mask : UInt32} (hmask : mask = n - 1) (hn : 1 ≤ n) (position : UInt32) :
    (position &&& mask).toNat < n.toNat := by
  have hle : (position &&& mask).toNat ≤ mask.toNat := by
    rw [UInt32.toNat_and]
    exact Nat.and_le_right
  have hone : 1 ≤ n.toNat := UInt32.le_iff_toNat_le.mp hn
  rw [hmask, UInt32.toNat_sub_of_le _ _ hn, UInt32.toNat_one] at hle
  rw [hmask]
  omega

/-! ## Creation

Each step of the creation that can refuse a ring contributes one fact about those that it
lets through. Put together they say that a ring is confined. -/

/-- The steps in which the submission queue was located. -/
theorem locateSubmission_eq_ok {sq : SubmissionQueue}
    (h : locateSubmission kernel params m m' = .ok (sq, kernel')) :
    locate m .submissionRing .word params.sqOff.tail.toNat 1 = .ok sq.tailAt ∧
      locate m .submissionRing .word params.sqOff.array.toNat params.sqEntries.toNat =
        .ok sq.arrayAt ∧
      locate m' .submissionEntries .sqe 0 params.sqEntries.toNat = .ok sq.tableAt ∧
      sq.entries = params.sqEntries := by
  obtain ⟨tailAt, htail, h⟩ := bind_eq_ok h
  obtain ⟨maskAt, hmask, h⟩ := bind_eq_ok h
  obtain ⟨arrayAt, harray, h⟩ := bind_eq_ok h
  obtain ⟨tableAt, htable, h⟩ := bind_eq_ok h
  cases h
  exact ⟨htail, harray, htable, rfl⟩

/-- The steps in which the completion queue was located. -/
theorem locateCompletion_eq_ok {cq : CompletionQueue}
    (h : locateCompletion kernel params m = .ok (cq, kernel')) :
    locate m .completionRing .word params.cqOff.head.toNat 1 = .ok cq.headAt ∧
      locate m .completionRing .word params.cqOff.tail.toNat 1 = .ok cq.tailAt ∧
      locate m .completionRing .cqe params.cqOff.cqes.toNat params.cqEntries.toNat =
        .ok cq.entriesAt ∧
      cq.entries = params.cqEntries := by
  obtain ⟨headAt, hhead, h⟩ := bind_eq_ok h
  obtain ⟨tailAt, htail, h⟩ := bind_eq_ok h
  obtain ⟨maskAt, hmask, h⟩ := bind_eq_ok h
  obtain ⟨entriesAt, hentries, h⟩ := bind_eq_ok h
  cases h
  exact ⟨hhead, htail, hentries, rfl⟩

/-- Depths that were accepted reach what was asked for, and completions never have fewer
entries than submissions. -/
theorem le_of_negotiate (h : negotiate kernel capacity = .ok (params, kernel')) :
    capacity ≤ params.sqEntries ∧ params.sqEntries ≤ params.cqEntries := by
  rw [negotiate] at h
  split at h
  · cases h
  · split at h
    · cases h
    · next hdepths =>
      cases h
      obtain ⟨hsq, hcq⟩ := not_or.mp hdepths
      exact ⟨UInt32.not_lt.mp hsq, UInt32.not_lt.mp hcq⟩

variable {r : Ring κ}

/-- The depths of a ring that was created, those of its queues and those that it reports. -/
theorem depths_of_create (h : create kernel capacity = .ok r) :
    (1 ≤ capacity ∧ capacity ≤ r.sq.entries ∧ r.sq.entries ≤ r.cq.entries) ∧
      r.sq.entries = r.params.sqEntries ∧ r.cq.entries = r.params.cqEntries := by
  obtain ⟨k₁, k₂, k₃, k₄, k₅, ⟨hzero, -⟩, hnegotiate, -, -, -, hsq, hcq, -, -⟩ := create_eq_ok h
  obtain ⟨-, -, -, hsqEntries⟩ := locateSubmission_eq_ok hsq
  obtain ⟨-, -, -, hcqEntries⟩ := locateCompletion_eq_ok hcq
  obtain ⟨hle, hle'⟩ := le_of_negotiate hnegotiate
  have hpos : capacity.toNat ≠ 0 := fun hnat => hzero (UInt32.toNat_inj.mp hnat)
  refine ⟨⟨?_, hsqEntries ▸ hle, ?_⟩, hsqEntries, hcqEntries⟩
  · exact UInt32.le_iff_toNat_le.mpr (Nat.pos_of_ne_zero hpos)
  · rw [hsqEntries, hcqEntries]
    exact hle'

/-- The parts of a ring lie in its mappings, those of the entries for every position. There
are as many positions as 32-bit numbers and far fewer slots; the masks see to it that this
makes no difference. -/
structure Confined (r : Ring κ) : Prop where
  submissionTail : r.submissionRing.Contains .word r.sq.tailAt
  completionHead : r.completionRing.Contains .word r.cq.headAt
  completionTail : r.completionRing.Contains .word r.cq.tailAt
  tableEntry : ∀ position, r.submissionEntries.Contains .sqe (r.tableOffset position)
  arrayWord : ∀ position, r.submissionRing.Contains .word (r.arrayOffset position)
  completion : ∀ position, r.completionRing.Contains .cqe (r.completionOffset position)

/-- Whatever the kernel reported and mapped, a ring that was created is confined. The
numbers of the kernel are used only after they have been compared with the lengths of the
mappings. -/
theorem confined_of_create (h : create kernel capacity = .ok r) : r.Confined := by
  obtain ⟨⟨hone, hle, hle'⟩, -, -⟩ := depths_of_create h
  have hone' : 1 ≤ r.sq.entries := UInt32.le_trans hone hle
  obtain ⟨k₁, k₂, k₃, k₄, k₅, -, -, -, -, -, hsq, hcq, ⟨hsqMask, hcqMask⟩, -⟩ := create_eq_ok h
  obtain ⟨hsqTail, harray, htable, hsqEntries⟩ := locateSubmission_eq_ok hsq
  obtain ⟨hhead, hcqTail, hentries, hcqEntries⟩ := locateCompletion_eq_ok hcq
  rw [← hsqEntries] at harray htable
  rw [← hcqEntries] at hentries
  have hsqSlot (position : UInt32) := slot_lt_of_mask hsqMask hone' position
  have hcqSlot (position : UInt32) :=
    slot_lt_of_mask hcqMask (UInt32.le_trans hone' hle') position
  refine ⟨?_, ?_, ?_, fun position => ?_, fun position => ?_, fun position => ?_⟩
  · exact contains_of_locate (Or.inl rfl) hsqTail Nat.zero_lt_one
  · exact contains_of_locate (Or.inl rfl) hhead Nat.zero_lt_one
  · exact contains_of_locate (Or.inl rfl) hcqTail Nat.zero_lt_one
  · exact contains_of_locate (Or.inr (Or.inl rfl)) htable (hsqSlot position)
  · exact contains_of_locate (Or.inl rfl) harray (hsqSlot position)
  · exact contains_of_locate (Or.inr (Or.inr rfl)) hentries (hcqSlot position)

end Ring

end RingRead
