import RingRead.Proofs.Simulation.Queues

/-!
# Entries that wait

Entries that were published and not consumed wait in the slots of the window between the
position that the kernel has come to and the tail. `SimulatedRings.waiting` reads them, and
`r.Waits entries` says that they are `entries`, each in the slot of its own position.

* Staging behind them overwrites none of them, as long as there is a slot for each of them
  and of the new ones (`Waits.stageAll`), and once the tail is published the new ones wait
  as the last (`Waits.publish`).
* Consuming takes the first ones, in order (`Waits.consume`).
-/

namespace RingRead.SimulatedRings

open Position

variable {r : SimulatedRings} {entries batch : List Sqe} {tail : UInt32}

/-- The entries that were published and not consumed, oldest first. They are read through
the index array, as the kernel does it, so an entry that was overwritten in its slot is here
as it will be consumed. -/
def waiting (r : SimulatedRings) : List Sqe := r.entriesFrom r.published.toNat r.consumed

/-- The entries wait, in this order, each in the slot of its position. The head that the
kernel shows is the position that it has come to, and the tail is as far ahead as there are
entries. -/
structure Waits (r : SimulatedRings) (entries : List Sqe) : Prop where
  wellFormed : r.WellFormed
  sqHead_eq : r.sqHead = r.consumed
  published_eq : r.published.toNat = entries.length
  length_le : entries.length ≤ r.entries.toNat
  staged : ∀ i e, entries[i]? = some e → r.Staged (r.consumed + UInt32.ofNat i) e

/-- What is staged in a window is what is read from it. -/
theorem entriesFrom_of_staged {position : UInt32}
    (h : ∀ i e, entries[i]? = some e → r.Staged (position + UInt32.ofNat i) e) :
    r.entriesFrom entries.length position = entries := by
  induction entries generalizing position with
  | nil => rfl
  | cons e rest ih =>
    have hfirst : r.Staged position e := by
      rw [← add_ofNat_zero position]
      exact h 0 e rfl
    refine congr (congrArg List.cons hfirst.entryAt) (ih fun i e' he' => ?_)
    rw [succ_add_ofNat]
    exact h (i + 1) e' he'

/-- The entries that wait are those that are read. -/
theorem Waits.waiting_eq (h : r.Waits entries) : r.waiting = entries := by
  rw [waiting, h.published_eq]
  exact entriesFrom_of_staged h.staged

/-- What is read from a window depends on the index array and on the table of entries
alone. -/
theorem entriesFrom_congr (r r' : SimulatedRings) (hentries : r'.entries = r.entries)
    (hindex : r'.index = r.index) (htable : r'.table = r.table) (count : Nat) (position : UInt32) :
    r'.entriesFrom count position = r.entriesFrom count position := by
  induction count generalizing position with
  | zero => rfl
  | succ count ih =>
    have hfirst : r'.entryAt position = r.entryAt position := by
      rw [entryAt, entryAt, hentries, hindex, htable]
    rw [entriesFrom, entriesFrom, hfirst, ih]

/-- The tail is as many positions ahead as entries wait. -/
theorem Waits.sqTail_eq (h : r.Waits entries) :
    r.sqTail = r.consumed + UInt32.ofNat entries.length := by
  rw [← h.published_eq, UInt32.ofNat_toNat, published]
  grind

/-- Entries that are staged one after the other, no more of them than slots, are all there.
If there were more, the later ones would be in the slots of the first. -/
theorem staged_stageAll (h : r.Slotted) (hlength : batch.length ≤ r.entries.toNat)
    (tail : UInt32) :
    ∀ i e, batch[i]? = some e → (r.stageAll tail batch).Staged (tail + UInt32.ofNat i) e := by
  induction batch generalizing r tail with
  | nil => exact nofun
  | cons e rest ih =>
    have hrest : rest.length < r.entries.toNat := hlength
    intro i e' he'
    cases i with
    | zero =>
      obtain rfl : e = e' := Option.some.inj he'
      rw [add_ofNat_zero]
      -- the later entries go to other slots
      refine (staged_stage h tail e).stageAll fun i hi heq => ?_
      rw [succ_add_ofNat, ← add_ofNat_zero tail, UInt32.add_assoc, ← UInt32.ofNat_add,
        Nat.zero_add] at heq
      exact Nat.succ_ne_zero i (slot_inj h.depth (by omega) h.depth.pos heq)
    | succ i =>
      rw [← succ_add_ofNat]
      exact ih (h.stage tail e) (Nat.le_of_lt hrest) (tail + 1) i e' he'

/-- Staging behind the entries that wait overwrites none of them, if there is room for
all. -/
theorem Waits.stageAll (h : r.Waits entries)
    (hroom : entries.length + batch.length ≤ r.entries.toNat) :
    (r.stageAll r.sqTail batch).Waits entries := by
  have hwf := h.wellFormed.stageAll r.sqTail batch
  obtain ⟨index, table, hstaged⟩ := r.stageAll_eq r.sqTail batch
  have hsame : (r.stageAll r.sqTail batch).published = r.published := by rw [hstaged]; rfl
  have hconsumed : (r.stageAll r.sqTail batch).consumed = r.consumed := by rw [hstaged]
  have hentries : (r.stageAll r.sqTail batch).entries = r.entries := by rw [hstaged]
  have hhead : (r.stageAll r.sqTail batch).sqHead = r.sqHead := by rw [hstaged]
  refine ⟨hwf, hhead.trans (h.sqHead_eq.trans hconsumed.symm), hsame ▸ h.published_eq,
    hentries ▸ h.length_le, fun i e he => ?_⟩
  rw [hconsumed]
  refine (h.staged i e he).stageAll fun j hj heq => ?_
  -- the window of the waiting and of the new entries is no longer than the queue
  rw [h.sqTail_eq, UInt32.add_assoc, ← UInt32.ofNat_add] at heq
  have hi : i < entries.length := (List.getElem?_eq_some_iff.mp he).1
  have hij := slot_inj h.wellFormed.depth (by omega) (by omega) heq
  omega

/-- Staged entries wait behind the others as soon as the tail is published. Before that they
stand in slots behind the tail, which nobody reads. -/
theorem Waits.publish (h : r.Waits entries)
    (hroom : entries.length + batch.length ≤ r.entries.toNat) :
    { r.stageAll r.sqTail batch with
      sqTail := r.sqTail + UInt32.ofNat batch.length }.Waits (entries ++ batch) := by
  have hwaits := h.stageAll hroom
  have hnew := staged_stageAll h.wellFormed.slotted (Nat.le_of_add_left_le hroom) r.sqTail
  obtain ⟨index, table, hstaged⟩ := r.stageAll_eq r.sqTail batch
  rw [hstaged] at hwaits hnew ⊢
  have hwf := hwaits.wellFormed
  refine ⟨hwf.of_positions .., hwaits.sqHead_eq, ?_, ?_, ?_⟩
  -- the distance between the indices grows by the batch, across the wrap of the tail too
  · have hlt := r.entries.toNat_lt
    have hahead : r.sqTail + UInt32.ofNat batch.length - r.consumed =
        UInt32.ofNat (entries.length + batch.length) := by
      rw [h.sqTail_eq, UInt32.ofNat_add]
      grind
    change (r.sqTail + UInt32.ofNat batch.length - r.consumed).toNat = _
    rw [hahead, List.length_append, UInt32.toNat_ofNat_of_lt' (show _ < 2 ^ 32 by omega)]
  · rw [List.length_append]
    exact hroom
  · intro i e he
    -- an old entry keeps its slot, since the window does not reach around the ring
    by_cases hi : i < entries.length
    · rw [List.getElem?_append_left hi] at he
      obtain ⟨hindex, htable⟩ := hwaits.staged i e he
      exact ⟨hindex, htable⟩
    · rw [List.getElem?_append_right (Nat.not_lt.mp hi)] at he
      obtain ⟨hindex, htable⟩ := hnew _ e he
      have hposition : r.sqTail + UInt32.ofNat (i - entries.length) =
          r.consumed + UInt32.ofNat i := by
        rw [h.sqTail_eq, UInt32.add_assoc, ← UInt32.ofNat_add,
          Nat.add_sub_cancel' (Nat.not_lt.mp hi)]
      rw [hposition] at hindex htable
      exact ⟨hindex, htable⟩

/-- Consuming takes as many of the entries that wait as it is told to, the first ones first,
and leaves the others waiting. -/
theorem Waits.consume (h : r.Waits entries) (limit : UInt32) :
    let count := min entries.length limit.toNat
    (r.consume limit).1.toNat = count ∧ (r.consume limit).2.1 = entries.take count ∧
      (r.consume limit).2.2.Waits (entries.drop count) := by
  intro count
  have hwf := h.wellFormed
  have hcount : (min r.published limit).toNat = count := by
    rw [UInt32.toNat_min, h.published_eq]
  have hle : count ≤ entries.length := Nat.min_le_left ..
  have hlength : (entries.take count).length = count := by
    rw [List.length_take, Nat.min_eq_left hle]
  -- the slots are read in order from the position that the kernel has come to
  have htaken : r.entriesFrom count r.consumed = entries.take count := by
    have hstaged (i : Nat) (e : Sqe) (he : (entries.take count)[i]? = some e) :
        r.Staged (r.consumed + UInt32.ofNat i) e := by
      rw [List.getElem?_take] at he
      split at he
      · exact h.staged i e he
      · cases he
    have htake := entriesFrom_of_staged hstaged
    rw [hlength] at htake
    exact htake
  refine ⟨hcount, ?_, ⟨?_, rfl, ?_, ?_, ?_⟩⟩
  · change r.entriesFrom (min r.published limit).toNat r.consumed = _
    rw [hcount, htaken]
  · exact hwf.of_positions ..
  · have hless : min r.published limit ≤ r.published := by
      rw [UInt32.le_iff_toNat_le, hcount, h.published_eq]
      exact hle
    have hleft : r.sqTail - (r.consumed + min r.published limit) =
        r.published - min r.published limit := by
      rw [published]
      grind
    change (r.sqTail - (r.consumed + min r.published limit)).toNat = _
    rw [hleft, UInt32.toNat_sub_of_le _ _ hless, h.published_eq, hcount, List.length_drop]
  · exact (List.length_drop ..).trans_le ((Nat.sub_le ..).trans h.length_le)
  · intro i e he
    rw [List.getElem?_drop] at he
    obtain ⟨hindex, htable⟩ := h.staged _ e he
    have hposition : r.consumed + min r.published limit + UInt32.ofNat i =
        r.consumed + UInt32.ofNat (count + i) := by
      rw [← hcount, UInt32.ofNat_add, UInt32.ofNat_toNat, UInt32.add_assoc]
    rw [← hposition] at hindex htable
    exact ⟨hindex, htable⟩

/-- What was consumed is still to be read in front of the position that the kernel has come
to. A slot keeps its entry until another one is staged there. -/
theorem Waits.passed_consume (h : r.Waits entries) (limit : UInt32) :
    let r' := (r.consume limit).2.2
    r'.entriesFrom (r'.consumed - r.consumed).toNat r.consumed =
      entries.take (min entries.length limit.toNat) := by
  intro r'
  have hahead : r'.consumed - r.consumed = min r.published limit := by
    change r.consumed + min r.published limit - r.consumed = _
    rw [UInt32.add_comm, UInt32.add_sub_cancel]
  rw [hahead, entriesFrom_congr r r' rfl rfl rfl]
  exact (h.consume limit).2.1

end RingRead.SimulatedRings
