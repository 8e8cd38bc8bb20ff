import Mathlib.Data.Fintype.EquivFin
import RingRead.Proofs.Engine.Confinement
import RingRead.Proofs.Ring.Positions

/-!
# Windows of positions

Masking gives a slot to every position. That entries which are in a queue together do not
share a slot is not said by the mask alone.

* **Slots.** The slots of a window of as many positions as there are entries are distinct if
  and only if the number of entries is a power of two, wherever the window starts
  (`Position.separates_iff`). Creation compares the mask with the number of entries and
  leaves that number to the kernel, whose queues have powers of two.
* **Batches.** What is stored for a batch at positions with distinct slots lies apart, so no
  entry of the batch takes the place of another one (`Ring.pairwise_apart_stores`).
-/

namespace RingRead

/-! ## Slots

A queue of `n` entries has `n` slots, and masking gives one to every position. In a window
of `n` positions each has a slot of its own just when every slot is taken, and a slot is a
number all of whose bits are in the mask. -/

namespace Position

/-- The slots of `n` positions from `p` on are distinct. Both the slot function and the
start are left open, since there are two queues and the window moves on. -/
def Separates (slot : UInt32 → Nat) (p : UInt32) (n : Nat) : Prop :=
  ∀ i < n, ∀ j < n, slot (p + UInt32.ofNat i) = slot (p + UInt32.ofNat j) → i = j

variable {slot : UInt32 → Nat} {p n : UInt32}

/-- A shorter window from the same position on. -/
theorem Separates.mono {m m' : Nat} (h : Separates slot p m) (hle : m' ≤ m) :
    Separates slot p m' :=
  fun i hi j hj => h i (Nat.lt_of_lt_of_le hi hle) j (Nat.lt_of_lt_of_le hj hle)

/-- The window without its first position. -/
theorem Separates.tail {m : Nat} (h : Separates slot p (m + 1)) : Separates slot (p + 1) m := by
  intro i hi j hj heq
  rw [succ_add_ofNat, succ_add_ofNat] at heq
  exact Nat.succ_inj.mp (h (i + 1) (Nat.succ_lt_succ hi) (j + 1) (Nat.succ_lt_succ hj) heq)

/-- The first position of a window has a slot of its own. -/
theorem Separates.head_ne {m i : Nat} (h : Separates slot p (m + 1)) (hi : i < m) :
    slot p ≠ slot (p + 1 + UInt32.ofNat i) := by
  intro heq
  rw [succ_add_ofNat] at heq
  have hzero := h 0 m.succ_pos (i + 1) (Nat.succ_lt_succ hi)
  rw [add_ofNat_zero] at hzero
  exact absurd (hzero heq) (Nat.succ_ne_zero i).symm

/-- Only the masks of powers of two have every number up to them as a part. Otherwise some
bit below the highest one is missing, and the number with that bit and no other is not a
part. -/
theorem exists_eq_two_pow {m : Nat} (h : ∀ v ≤ m, v &&& m = v) : ∃ k, m + 1 = 2 ^ k := by
  rcases Nat.eq_zero_or_pos m with rfl | hpos
  · exact ⟨0, rfl⟩
  · -- below the highest bit of `m`, all bits are set
    have hle : 2 ^ m.log2 ≤ m := Nat.log2_self_le hpos.ne'
    have hlt : m < 2 ^ (m.log2 + 1) := Nat.lt_log2_self
    have hbits := h (2 ^ m.log2 - 1) (by omega)
    rw [Nat.and_comm, Nat.and_two_pow_sub_one_eq_mod, Nat.mod_eq_sub_mod hle,
      Nat.mod_eq_of_lt (by omega)] at hbits
    exact ⟨m.log2 + 1, by omega⟩

/-- If as many positions as there are entries have distinct slots, then the number of
entries is a power of two: all slots are taken, and a slot is a part of the mask. -/
theorem isDepth_of_separates (hn : 1 ≤ n)
    (h : Separates (fun q => (q &&& (n - 1)).toNat) p n.toNat) : IsDepth n := by
  have hmask : (n - 1).toNat + 1 = n.toNat := by
    have hone : 1 ≤ n.toNat := UInt32.le_iff_toNat_le.mp hn
    rw [UInt32.toNat_sub_of_le _ _ hn, UInt32.toNat_one]
    omega
  let slot (i : Fin n.toNat) : Fin n.toNat :=
    ⟨((p + UInt32.ofNat i) &&& (n - 1)).toNat, Ring.slot_lt_of_mask rfl hn _⟩
  have hinj : Function.Injective slot := by
    intro i j heq
    exact Fin.ext (h i i.isLt j j.isLt (Fin.mk.inj heq))
  have hsurj : Function.Surjective slot := Finite.surjective_of_injective hinj
  rw [IsDepth, ← hmask]
  apply exists_eq_two_pow
  intro v hv
  obtain ⟨i, hi⟩ := hsurj ⟨v, by omega⟩
  have hv' : ((p + UInt32.ofNat i) &&& (n - 1)).toNat = v := congrArg Fin.val hi
  rw [← hv', UInt32.toNat_and, Nat.and_assoc, Nat.and_self]

/-- Masking separates the positions of a window of `n` exactly if `n` is a power of two. -/
theorem separates_iff (hn : 1 ≤ n) (p : UInt32) :
    Separates (fun q => (q &&& (n - 1)).toNat) p n.toNat ↔ IsDepth n :=
  ⟨isDepth_of_separates hn, fun h _ hi _ hj => slot_inj h hi hj⟩

end Position

/-! ## Batches

A batch is stored entry by entry, each at the slot of its position in two arrays. If the
slots differ, the places do not overlap, and what was stored first is still there when the
batch is handed over. -/

namespace Access

/-- No byte belongs to both: they are in different regions, or one ends before the other
begins. Two accesses that are apart can be made in either order. -/
def Apart (a b : Access) : Prop :=
  a.region ≠ b.region ∨ a.offset + a.layout.size ≤ b.offset ∨ b.offset + b.layout.size ≤ a.offset

instance (a b : Access) : Decidable (a.Apart b) := inferInstanceAs (Decidable (_ ∨ _))

end Access

namespace Ring

open Position

variable {κ : Type} {r : Ring κ}

/-- What is stored to stage an entry at a position: the entry, and its number in the index
array. -/
def storesAt (r : Ring κ) (position : UInt32) (entry : Sqe) : List Access :=
  [.storeEntry (r.tableOffset position) entry,
    .store .submissionRing (r.arrayOffset position) (position &&& r.sq.mask)]

/-- What is stored to stage a batch from `tail` on. -/
def stores (r : Ring κ) : (tail : UInt32) → List Sqe → List Access
  | _, [] => []
  | tail, entry :: rest => r.storesAt tail entry ++ r.stores (tail + 1) rest

/-- What is stored depends on where the parts of the submission queue lie, and not on the
state of the kernel. -/
theorem stores_congr {κ' : Type} {r' : Ring κ'} (h : r'.sq = r.sq) (tail : UInt32)
    (entries : List Sqe) : r'.stores tail entries = r.stores tail entries := by
  induction entries generalizing tail with
  | nil => rfl
  | cons entry rest ih =>
    rw [stores, stores, ih]
    simp only [storesAt, tableOffset, arrayOffset, submissionSlot, h]

/-- Each access of a batch belongs to one of its entries, at the position of that entry. -/
theorem mem_stores {tail : UInt32} {entries : List Sqe} {a : Access} :
    a ∈ r.stores tail entries ↔
      ∃ i, ∃ hi : i < entries.length, a ∈ r.storesAt (tail + UInt32.ofNat i) entries[i] := by
  induction entries generalizing tail with
  | nil => simp [stores]
  | cons entry rest ih =>
    rw [stores, List.mem_append, ih]
    constructor
    · rintro (ha | ⟨i, hi, ha⟩)
      · exact ⟨0, Nat.succ_pos _, by simpa [add_ofNat_zero] using ha⟩
      · rw [succ_add_ofNat] at ha
        exact ⟨i + 1, Nat.succ_lt_succ hi, ha⟩
    · rintro ⟨i, hi, ha⟩
      cases i with
      | zero => exact Or.inl (by simpa [add_ofNat_zero] using ha)
      | succ i =>
        rw [← succ_add_ofNat] at ha
        exact Or.inr ⟨i, Nat.lt_of_succ_lt_succ hi, ha⟩

/-- Elements of an array with different numbers lie apart. -/
theorem element_end_le {size i j : Nat} (base : Nat) (h : i ≠ j) :
    base + size * i + size ≤ base + size * j ∨ base + size * j + size ≤ base + size * i := by
  rcases Nat.lt_or_gt_of_ne h with hlt | hlt
  · have hmul : size * (i + 1) ≤ size * j := Nat.mul_le_mul_left size hlt
    rw [Nat.mul_succ] at hmul
    omega
  · have hmul : size * (j + 1) ≤ size * i := Nat.mul_le_mul_left size hlt
    rw [Nat.mul_succ] at hmul
    omega

/-- What is stored at positions with different slots lies apart. -/
theorem apart_of_slot_ne {p q : UInt32} (h : r.submissionSlot p ≠ r.submissionSlot q)
    {entry entry' : Sqe} {a b : Access} (ha : a ∈ r.storesAt p entry)
    (hb : b ∈ r.storesAt q entry') : a.Apart b := by
  simp only [storesAt, List.mem_cons, List.not_mem_nil, or_false] at ha hb
  rcases ha with rfl | rfl
  all_goals rcases hb with rfl | rfl
  · exact Or.inr (element_end_le r.sq.tableAt h)
  · exact Or.inl (by simp)
  · exact Or.inl (by simp)
  · exact Or.inr (element_end_le r.sq.arrayAt h)

/-- A batch at positions with distinct slots is stored in places that lie apart. -/
theorem pairwise_apart_stores {tail : UInt32} {entries : List Sqe}
    (h : Separates r.submissionSlot tail entries.length) :
    (r.stores tail entries).Pairwise Access.Apart := by
  induction entries generalizing tail with
  | nil => exact List.Pairwise.nil
  | cons entry rest ih =>
    rw [stores, List.pairwise_append]
    refine ⟨?_, ih h.tail, ?_⟩
    · simp only [storesAt, List.pairwise_cons, List.mem_singleton, forall_eq]
      exact ⟨Or.inl (by simp), nofun, List.Pairwise.nil⟩
    · intro a ha b hb
      obtain ⟨i, hi, hb⟩ := mem_stores.mp hb
      exact apart_of_slot_ne (h.head_ne hi) ha hb

variable [Kernel κ] {kernel : κ} {capacity : UInt32}

/-- Staging a batch stores that and asks for nothing else. In particular no tail is stored,
so the kernel does not see the entries yet. -/
theorem operations_stageAll (r : Ring (Traced κ)) (tail : UInt32) (entries : List Sqe) :
    (r.stageAll tail entries).kernel.operations =
      r.kernel.operations ++ (r.stores tail entries).map .access := by
  induction entries generalizing r tail with
  | nil => exact (List.append_nil _).symm
  | cons entry rest ih =>
    have hsq : (r.stage tail entry).sq = r.sq := rfl
    have hrest := stores_congr hsq (tail + 1) rest
    have hstage : (r.stage tail entry).kernel.operations =
        r.kernel.operations ++ (r.storesAt tail entry).map .access :=
      List.append_assoc ..
    rw [stageAll, ih, hrest, hstage, stores, List.map_append, List.append_assoc]

/-- So these are the accesses that a traced kernel puts down. -/
theorem accesses_stageAll (r : Ring (Traced κ)) (tail : UInt32) (entries : List Sqe) :
    (r.stageAll tail entries).kernel.accesses =
      r.kernel.accesses ++ r.stores tail entries := by
  have hall : ((r.stores tail entries).map Operation.access).filterMap Operation.access? =
      r.stores tail entries := by
    rw [List.filterMap_map]
    exact List.filterMap_some
  rw [Traced.accesses, operations_stageAll, List.filterMap_append, hall, Traced.accesses]

/-! ## Rings that were created

What creation checks is that the mask is one less than the depth. It does not check that the
depth is a power of two, which the kernel sees to, and the result says what hangs on
that. -/

/-- **Slots of a ring that was created.** Its masks match its numbers of entries, so for
each of the two queues: the slots of any window of as many positions as there are entries
are distinct if and only if that number is a power of two.

In that case a batch of up to as many entries is stored in places that lie apart, whatever
the tail is and whatever the kernel has done since: no entry takes the place of another
one. -/
theorem separates_iff_of_create {r : Ring κ} (h : create kernel capacity = .ok r) :
    (∀ p, Separates r.submissionSlot p r.sq.entries.toNat ↔ IsDepth r.sq.entries) ∧
    (∀ p, Separates r.completionSlot p r.cq.entries.toNat ↔ IsDepth r.cq.entries) ∧
    (IsDepth r.sq.entries → ∀ (k : κ) (tail : UInt32) (entries : List Sqe),
      entries.length ≤ r.capacity.toNat →
      let accesses := (stageAll { r with kernel := k }.trace tail entries).kernel.accesses
      accesses.Pairwise Access.Apart ∧
        ∀ i, ∀ hi : i < entries.length, let position := tail + UInt32.ofNat i
          .storeEntry (r.tableOffset position) entries[i] ∈ accesses ∧
          .store .submissionRing (r.arrayOffset position) (position &&& r.sq.mask) ∈ accesses) := by
  obtain ⟨⟨hone, hle, hle'⟩, -, -⟩ := depths_of_create h
  have hsqOne : 1 ≤ r.sq.entries := UInt32.le_trans hone hle
  have hcqOne : 1 ≤ r.cq.entries := UInt32.le_trans hsqOne hle'
  obtain ⟨-, -, -, -, -, -, -, -, -, -, -, -, ⟨hsqMask, hcqMask⟩, -⟩ := create_eq_ok h
  have hsubmission (p : UInt32) :
      Separates r.submissionSlot p r.sq.entries.toNat ↔ IsDepth r.sq.entries := by
    rw [← separates_iff hsqOne p, ← hsqMask]
    rfl
  refine ⟨hsubmission, fun p => ?_, ?_⟩
  · rw [← separates_iff hcqOne p, ← hcqMask]
    rfl
  · intro hdepth k tail entries hlength accesses
    have hsq : (trace { r with kernel := k }).sq = r.sq := rfl
    -- the kernel has no say in where a batch is stored
    have hstores : accesses = r.stores tail entries := by
      refine (accesses_stageAll _ tail entries).trans ?_
      rw [stores_congr hsq]
      rfl
    have hseparates : Separates r.submissionSlot tail entries.length :=
      ((hsubmission tail).mpr hdepth).mono hlength
    rw [hstores]
    refine ⟨pairwise_apart_stores hseparates, fun i hi => ?_⟩
    · simp only [mem_stores]
      exact ⟨⟨i, hi, by simp [storesAt]⟩, ⟨i, hi, by simp [storesAt]⟩⟩

/-- The reads of the first blocks of a file. -/
def firstReads (count : Nat) : List Sqe :=
  (List.range count).map fun i =>
    .read 3 (UInt64.ofNat (8 * i)) (Address.ofIndex (UInt32.ofNat i)) 8 (UInt64.ofNat i)

/-- A ring of four entries, and a batch of four from two positions before the wrap on. -/
theorem separates_across_wrap :
    ∃ r, create ({ file := SimulatedKernel.patternedFile 4 8 } : SimulatedKernel) 3 = .ok r ∧
      let accesses := (r.trace.stageAll 4294967294 (firstReads 4)).kernel.accesses
      (Separates r.submissionSlot 4294967294 4 ∧ Separates r.completionSlot 4294967294 8) ∧
        accesses.length = 8 ∧ accesses.Pairwise Access.Apart := by
  obtain ⟨r, hr⟩ :
      ∃ r, create ({ file := SimulatedKernel.patternedFile 4 8 } : SimulatedKernel) 3 = .ok r :=
    ⟨_, rfl⟩
  have hsq : r.sq.entries = 4 := by
    cases hr
    rfl
  have hcq : r.cq.entries = 8 := by
    cases hr
    rfl
  have hdepth : IsDepth r.sq.entries := hsq ▸ ⟨2, rfl⟩
  have hdepth' : IsDepth r.cq.entries := hcq ▸ ⟨3, rfl⟩
  obtain ⟨hsubmission, hcompletion, hbatch⟩ := separates_iff_of_create hr
  have hseparates := (hsubmission 4294967294).mpr hdepth
  have hseparates' := (hcompletion 4294967294).mpr hdepth'
  rw [hsq] at hseparates
  rw [hcq] at hseparates'
  refine ⟨r, hr, ⟨hseparates, hseparates'⟩, ?_, ?_⟩
  · rw [accesses_stageAll]
    rfl
  · apply (hbatch hdepth r.kernel 4294967294 (firstReads 4) _).1
    rw [capacity, hsq]
    decide

/-- A ring of six entries is created, and its mask is five. Positions 0 and 2 have the same
slot then, and of three reads that are staged the last one takes the place of the first. -/
theorem slots_shared_of_odd_depth :
    ∃ r, create MisreportingKernel.oddDepth 5 = .ok r ∧ r.capacity = 6 ∧
      ¬Separates r.submissionSlot 0 r.sq.entries.toNat ∧
        r.tableOffset 0 = r.tableOffset 2 ∧
          ¬(r.trace.stageAll 0 (firstReads 3)).kernel.accesses.Pairwise Access.Apart := by
  refine ⟨_, rfl, rfl, ?_, rfl, ?_⟩
  · intro h
    exact absurd (h 0 (by decide) 2 (by decide) rfl) (by decide)
  · decide +kernel

end Ring

end RingRead
