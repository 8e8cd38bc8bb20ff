import RingRead.Proofs.Ring.Positions
import RingRead.Simulation.Rings

/-!
# The queues of a simulated ring

The indices and tables of a ring stand for two queues, and what is done to the tables is
done to the queues.

* **Completions.** `unread` lists the completion entries between head and tail. Posting to a
  ring that is not full appends to it (`unread_post`), and moving the head takes the first
  entry off it (`unread_eq_cons`).
* **Submissions.** Entries that are staged one after the other are the ones that are
  consumed, in the same order (`entriesFrom_stageAll`), as long as there are no more of them
  than slots.

Both hold wherever the indices stand, because a window that is no longer than the queue has
a slot for each of its positions.
-/

namespace RingRead.SimulatedRings

open Position

variable {r : SimulatedRings} {tail position : UInt32} {e e' : Sqe}

/-- The depths are powers of two, and the tables are as large as the depths say. Nothing is
said about the indices, which may stand anywhere. -/
structure WellFormed (r : SimulatedRings) : Prop where
  depth : IsDepth r.entries
  entries_le : r.entries ≤ maxEntries
  size_index : r.index.size = r.entries.toNat
  size_table : r.table.size = r.entries.toNat
  size_completions : r.completions.size = r.cqEntries.toNat

/-- The positions may be anywhere. -/
theorem WellFormed.of_positions (h : r.WellFormed)
    (sqHead sqTail cqHead cqTail consumed : UInt32) :
    { r with sqHead, sqTail, cqHead, cqTail, consumed }.WellFormed :=
  ⟨h.depth, h.entries_le, h.size_index, h.size_table, h.size_completions⟩

/-- There are twice as many completion entries, and that number does not wrap. -/
theorem WellFormed.toNat_cqEntries (h : r.WellFormed) :
    r.cqEntries.toNat = 2 * r.entries.toNat := by
  have hle : r.entries.toNat ≤ 32768 := UInt32.le_iff_toNat_le.mp h.entries_le
  rw [cqEntries, UInt32.toNat_mul]
  exact Nat.mod_eq_of_lt (show 2 * r.entries.toNat < 2 ^ 32 by omega)

/-- The submission depth is a power of two, and the submission tables are as large as it
says. This half of being well-formed is all that entries need. -/
structure Slotted (r : SimulatedRings) : Prop where
  depth : IsDepth r.entries
  size_index : r.index.size = r.entries.toNat
  size_table : r.table.size = r.entries.toNat

theorem WellFormed.slotted (h : r.WellFormed) : r.Slotted :=
  ⟨h.depth, h.size_index, h.size_table⟩

theorem WellFormed.post (h : r.WellFormed) (c : Cqe) : (r.post c).WellFormed :=
  ⟨h.depth, h.entries_le, h.size_index, h.size_table,
    Array.size_setIfInBounds.trans h.size_completions⟩

theorem WellFormed.cqDepth (h : r.WellFormed) : IsDepth r.cqEntries := by
  obtain ⟨k, hk⟩ := h.depth
  exact ⟨k + 1, by rw [h.toNat_cqEntries, hk, Nat.pow_succ']⟩

/-! ## Completions

The table of completions is a ring: a position is masked to find its slot. Seen as a list
from head to tail it is a queue, and the two operations on it are those of a queue. -/

/-- The completion entry in the slot of a position. -/
def completionAt (r : SimulatedRings) (position : UInt32) : Cqe :=
  r.completions[(position &&& (r.cqEntries - 1)).toNat]?.getD {}

/-- The completions that were posted and not taken, oldest first. Their number is the
distance of the indices, modulo the range of 32-bit numbers. -/
def unread (r : SimulatedRings) : List Cqe :=
  (List.range (r.cqTail - r.cqHead).toNat).map fun i => r.completionAt (r.cqHead + UInt32.ofNat i)

@[simp] theorem length_unread (r : SimulatedRings) :
    r.unread.length = (r.cqTail - r.cqHead).toNat := by
  simp [unread]

/-- Posting leaves the other slots of the window alone. -/
theorem completionAt_post_of_ne {c : Cqe}
    (h : (position &&& (r.cqEntries - 1)).toNat ≠ (r.cqTail &&& (r.cqEntries - 1)).toNat) :
    (r.post c).completionAt position = r.completionAt position := by
  exact congrArg (fun c? => c?.getD ({} : Cqe)) (Array.getElem?_setIfInBounds_ne h.symm)

theorem completionAt_post_tail (h : r.WellFormed) (c : Cqe) :
    (r.post c).completionAt r.cqTail = c := by
  have hlt : (r.cqTail &&& (r.cqEntries - 1)).toNat < r.completions.size :=
    h.size_completions ▸ slot_lt h.cqDepth r.cqTail
  exact congrArg (fun c? => c?.getD ({} : Cqe)) (Array.getElem?_setIfInBounds_self_of_lt hlt)

/-- A completion that is posted to a ring with room for it comes last. -/
theorem unread_post (h : r.WellFormed) (hroom : ¬r.isFull) (c : Cqe) :
    (r.post c).unread = r.unread ++ [c] := by
  have hlt : (r.cqTail - r.cqHead).toNat < r.cqEntries.toNat :=
    UInt32.lt_iff_toNat_lt.mp (UInt32.not_le.mp hroom)
  have htail : r.cqHead + UInt32.ofNat (r.cqTail - r.cqHead).toNat = r.cqTail := by
    rw [UInt32.ofNat_toNat, UInt32.add_comm, UInt32.sub_add_cancel]
  have hlength : ((r.post c).cqTail - (r.post c).cqHead).toNat =
      (r.cqTail - r.cqHead).toNat + 1 := by
    -- the distance between the indices grows by one also where the tail wraps
    have hsucc : r.cqTail + 1 - r.cqHead = r.cqTail - r.cqHead + 1 := by grind
    have hbound := r.cqEntries.toNat_lt
    change (r.cqTail + 1 - r.cqHead).toNat = _
    rw [hsucc, UInt32.toNat_add, UInt32.toNat_one]
    exact Nat.mod_eq_of_lt (by omega)
  rw [unread, hlength, List.range_succ, List.map_append, List.map_singleton]
  refine congr (congrArg _ (List.map_congr_left fun i hi => ?_)) (congrArg (fun c => [c]) ?_)
  · -- the slots of the window are all different, so the new one is none of the old ones
    apply completionAt_post_of_ne
    intro heq
    rw [← htail] at heq
    have hi' := List.mem_range.mp hi
    exact Nat.ne_of_lt hi' (slot_inj h.cqDepth (Nat.lt_trans hi' hlt) hlt heq)
  · change (r.post c).completionAt (r.cqHead + UInt32.ofNat (r.cqTail - r.cqHead).toNat) = c
    rw [htail]
    exact completionAt_post_tail h c

/-- The first unread completion is the one at the head, and the others are what is unread
when the head has moved on. -/
theorem unread_eq_cons (hready : r.cqTail - r.cqHead ≠ 0) :
    r.unread = r.completionAt r.cqHead :: { r with cqHead := r.cqHead + 1 }.unread := by
  have hne : (r.cqTail - r.cqHead).toNat ≠ 0 := fun hzero => hready (UInt32.toNat_inj.mp hzero)
  have hone : 1 ≤ r.cqTail - r.cqHead := UInt32.le_iff_toNat_le.mpr (Nat.pos_of_ne_zero hne)
  have hpred : r.cqTail - (r.cqHead + 1) = r.cqTail - r.cqHead - 1 := by grind
  -- the window is the position at the head, and the window that is left when it is taken
  have hlength : (r.cqTail - r.cqHead).toNat = (r.cqTail - (r.cqHead + 1)).toNat + 1 := by
    rw [hpred, UInt32.toNat_sub_of_le _ _ hone, UInt32.toNat_one]
    omega
  rw [unread, hlength, List.range_succ_eq_map, List.map_cons, List.map_map]
  refine congr (congrArg List.cons ?_) (List.map_congr_left fun i _ => ?_)
  · exact congrArg r.completionAt (add_ofNat_zero r.cqHead)
  · exact congrArg r.completionAt (succ_add_ofNat r.cqHead i).symm

theorem unread_eq_nil (hready : r.cqTail - r.cqHead = 0) : r.unread = [] := by
  rw [unread, hready]
  rfl

/-! ## Submissions

An entry goes into two tables, and the kernel finds it through the first one. Both are
written at the slot of the position, so what is found at a position is what was staged for
it last. -/

/-- Write an entry for a position, and name it in the index array. The tail is left where it
is. -/
def stage (r : SimulatedRings) (tail : UInt32) (e : Sqe) : SimulatedRings :=
  let slot := tail &&& (r.entries - 1)
  { r with
    table := r.table.setIfInBounds slot.toNat e
    index := r.index.setIfInBounds slot.toNat slot }

/-- Write entries for the positions from `tail` on. -/
def stageAll (r : SimulatedRings) : (tail : UInt32) → List Sqe → SimulatedRings
  | _, [] => r
  | tail, e :: rest => (r.stage tail e).stageAll (tail + 1) rest

/-- Staging is done in the index array and in the table of entries alone. -/
theorem stageAll_eq (r : SimulatedRings) (tail : UInt32) (entries : List Sqe) :
    ∃ index table, r.stageAll tail entries = { r with index, table } := by
  induction entries generalizing r tail with
  | nil => exact ⟨r.index, r.table, rfl⟩
  | cons e rest ih =>
    obtain ⟨index, table, hrest⟩ := ih (r.stage tail e) (tail + 1)
    exact ⟨index, table, hrest⟩

/-- What can be done before or after one entry is staged can be done before or after
several. -/
theorem stageAll_comm {f : SimulatedRings → SimulatedRings}
    (h : ∀ r tail e, f (r.stage tail e) = (f r).stage tail e) (r : SimulatedRings) (tail : UInt32)
    (entries : List Sqe) : f (r.stageAll tail entries) = (f r).stageAll tail entries := by
  induction entries generalizing r tail with
  | nil => rfl
  | cons e rest ih => exact (ih (r.stage tail e) (tail + 1)).trans (by rw [h]; rfl)

/-- It does not matter whether the tail is published before or after the entries are staged,
as long as the kernel does not look. -/
theorem stageAll_publish (r : SimulatedRings) (tail published : UInt32) (entries : List Sqe) :
    { r.stageAll tail entries with sqTail := published } =
      { r with sqTail := published }.stageAll tail entries :=
  stageAll_comm (f := fun r => { r with sqTail := published }) (fun _ _ _ => rfl) r tail entries

/-- The entry for a position is written, and is named by the slot of the position. So the
kernel finds it when it comes to the position. -/
structure Staged (r : SimulatedRings) (position : UInt32) (e : Sqe) : Prop where
  index : r.index[(position &&& (r.entries - 1)).toNat]? = some (position &&& (r.entries - 1))
  table : r.table[(position &&& (r.entries - 1)).toNat]? = some e

theorem Staged.entryAt (h : r.Staged position e) : r.entryAt position = e := by
  have hmasked : position &&& (r.entries - 1) &&& (r.entries - 1) =
      position &&& (r.entries - 1) := by
    rw [UInt32.and_assoc, UInt32.and_self]
  rw [SimulatedRings.entryAt, h.index, Option.getD_some, hmasked, h.table, Option.getD_some]

theorem WellFormed.stage (h : r.WellFormed) (tail : UInt32) (e : Sqe) :
    (r.stage tail e).WellFormed :=
  ⟨h.depth, h.entries_le, Array.size_setIfInBounds.trans h.size_index,
    Array.size_setIfInBounds.trans h.size_table, h.size_completions⟩

theorem WellFormed.stageAll (h : r.WellFormed) (tail : UInt32) (entries : List Sqe) :
    (r.stageAll tail entries).WellFormed := by
  induction entries generalizing r tail with
  | nil => exact h
  | cons e rest ih => exact ih (h.stage tail e) (tail + 1)

theorem Slotted.stage (h : r.Slotted) (tail : UInt32) (e : Sqe) : (r.stage tail e).Slotted :=
  ⟨h.depth, Array.size_setIfInBounds.trans h.size_index,
    Array.size_setIfInBounds.trans h.size_table⟩

theorem staged_stage (h : r.Slotted) (tail : UInt32) (e : Sqe) :
    (r.stage tail e).Staged tail e := by
  have hlt := slot_lt h.depth tail
  constructor
  · exact Array.getElem?_setIfInBounds_self_of_lt (h.size_index ▸ hlt)
  · exact Array.getElem?_setIfInBounds_self_of_lt (h.size_table ▸ hlt)

/-- Staging at another slot leaves a staged entry alone. -/
theorem Staged.stage (h : r.Staged position e)
    (hne : (tail &&& (r.entries - 1)).toNat ≠ (position &&& (r.entries - 1)).toNat) (e' : Sqe) :
    (r.stage tail e').Staged position e :=
  ⟨(Array.getElem?_setIfInBounds_ne hne).trans h.index,
    (Array.getElem?_setIfInBounds_ne hne).trans h.table⟩

/-- So does staging at several other slots. -/
theorem Staged.stageAll {entries : List Sqe} (h : r.Staged position e)
    (hne : ∀ i < entries.length, ((tail + UInt32.ofNat i) &&& (r.entries - 1)).toNat ≠
      (position &&& (r.entries - 1)).toNat) :
    (r.stageAll tail entries).Staged position e := by
  induction entries generalizing r tail with
  | nil => exact h
  | cons e' rest ih =>
    refine ih (h.stage ?_ e') fun i hi => ?_
    · rw [← add_ofNat_zero tail]
      exact hne 0 (Nat.zero_lt_succ _)
    · rw [succ_add_ofNat]
      exact hne (i + 1) (Nat.succ_lt_succ hi)

/-- What is staged is what is consumed, wherever it starts, if there are slots for all of
it. -/
theorem entriesFrom_stageAll {entries : List Sqe} (h : r.WellFormed)
    (hlength : entries.length ≤ r.entries.toNat) (tail : UInt32) :
    (r.stageAll tail entries).entriesFrom entries.length tail = entries := by
  induction entries generalizing r tail with
  | nil => rfl
  | cons e rest ih =>
    have hrest : rest.length < r.entries.toNat := hlength
    -- the later entries go to other slots, because there are no more of them than slots
    have hfirst : ((r.stage tail e).stageAll (tail + 1) rest).Staged tail e := by
      apply (staged_stage h.slotted tail e).stageAll
      intro i hi heq
      have hsame : ((tail + UInt32.ofNat (i + 1)) &&& (r.entries - 1)).toNat =
          ((tail + UInt32.ofNat 0) &&& (r.entries - 1)).toNat := by
        rw [← succ_add_ofNat, add_ofNat_zero]
        exact heq
      exact Nat.succ_ne_zero i (slot_inj h.depth (by omega) h.depth.pos hsame)
    exact congr (congrArg List.cons hfirst.entryAt) (ih (h.stage tail e) (Nat.le_of_lt hrest) _)

/-! ## Consuming

The kernel has a position of its own, which runs behind the tail. When it has caught up, the
ring is settled, and a batch that is published next is all that there is to consume. -/

/-- Everything that was published has been consumed. The kernel shows the head that it has
come to, which is where the tail is, so all slots are free. -/
structure Settled (r : SimulatedRings) : Prop where
  consumed_eq : r.consumed = r.sqTail
  sqHead_eq : r.sqHead = r.sqTail

/-- In a settled ring, what is staged and published is what is consumed next. -/
theorem Settled.entriesFrom_published {entries : List Sqe} (hsettled : r.Settled)
    (h : r.WellFormed) (hlength : entries.length ≤ r.entries.toNat) (tail : UInt32) :
    let published := { r.stageAll r.sqTail entries with sqTail := tail }
    published.WellFormed ∧ published.consumed = r.sqTail ∧
      published.entriesFrom entries.length published.consumed = entries := by
  intro published
  -- publishing first and staging then makes the same rings, and `entriesFrom` reads those
  have hpublished : published = _ := r.stageAll_publish r.sqTail tail entries
  have hunpublished : { r with sqTail := tail }.WellFormed := h.of_positions ..
  have hconsumed : published.consumed = r.sqTail := by
    obtain ⟨index, table, hstaged⟩ := r.stageAll_eq r.sqTail entries
    simp only [published, hstaged, hsettled.consumed_eq]
  rw [hconsumed, hpublished]
  exact ⟨hunpublished.stageAll r.sqTail entries, rfl,
    entriesFrom_stageAll hunpublished hlength r.sqTail⟩

/-- Consuming as many entries as were published settles a ring. -/
theorem consume_published {count : UInt32} (h : r.sqTail = r.consumed + count) :
    r.consume count =
      (count, r.entriesFrom count.toNat r.consumed,
        { r with consumed := r.sqTail, sqHead := r.sqTail }) := by
  have hpublished : r.published = count := by
    rw [published, h]
    grind
  have hmin : min count count = count := ite_self count
  simp only [consume, hpublished, hmin, h]

end RingRead.SimulatedRings
