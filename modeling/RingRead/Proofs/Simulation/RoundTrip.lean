import RingRead.Proofs.Backlog.Window
import RingRead.Proofs.Ring.Windows
import RingRead.Proofs.Simulation.Attached

/-!
# Round trip of submission entries

The ring writes a batch through its own mask into two tables, the entries and the array that
names them. The kernel reads it back through a mask and a position of its own, as many
entries at a time as it is limited to.

**What is read is what was written.** `r.Delivers start entries m` says that the batch
stands in its slots and that its first `m` entries were consumed. Consuming hands over the
next ones and delivers the rest (`Delivers.consume_eq`, `Delivers.advance`), so consuming
any number of times hands over the batch from its beginning on, each entry once
(`Ring.handed_as_staged`). It does not matter where the positions stand, because a window no
longer than the ring has a slot for each of them.
-/

namespace RingRead

namespace SimulatedRings

open Position

variable {r : SimulatedRings} {start : UInt32} {entries : List Sqe} {m : Nat}

/-- The entries were staged from `start` on and published, and the first `m` of them
consumed. There are fewer of them than positions, so the tail tells how many there are. -/
structure Delivers (r : SimulatedRings) (start : UInt32) (entries : List Sqe) (m : Nat) : Prop where
  staged : ∀ i e, entries[i]? = some e → r.Staged (start + UInt32.ofNat i) e
  consumed_eq : r.consumed = start + UInt32.ofNat m
  sqTail_eq : r.sqTail = start + UInt32.ofNat entries.length
  le_length : m ≤ entries.length
  length_lt : entries.length < UInt32.size

/-- A batch that is staged where the kernel has come to, and published, is delivered. -/
theorem delivers_publish (h : r.Slotted) (hlength : entries.length ≤ r.entries.toNat) :
    { r.stageAll r.consumed entries with
      sqTail := r.consumed + UInt32.ofNat entries.length }.Delivers r.consumed entries 0 := by
  have hstaged := staged_stageAll h hlength r.consumed
  obtain ⟨index, table, heq⟩ := r.stageAll_eq r.consumed entries
  rw [heq] at hstaged ⊢
  refine ⟨fun i e he => ?_, (add_ofNat_zero _).symm, rfl, Nat.zero_le _,
    Nat.lt_of_le_of_lt hlength r.entries.toNat_lt⟩
  obtain ⟨hindex, htable⟩ := hstaged i e he
  exact ⟨hindex, htable⟩

/-- The entries between the position of the kernel and the tail are those that are left. The
distance is computed modulo the range of positions. -/
theorem Delivers.published_eq (h : r.Delivers start entries m) :
    r.published.toNat = entries.length - m := by
  have hle := h.le_length
  have hlt : entries.length - m < UInt32.size := Nat.lt_of_le_of_lt (Nat.sub_le ..) h.length_lt
  have hahead : r.published = UInt32.ofNat (entries.length - m) := by
    have hsum : UInt32.ofNat entries.length =
        UInt32.ofNat m + UInt32.ofNat (entries.length - m) := by
      rw [← UInt32.ofNat_add, Nat.add_sub_cancel' hle]
    rw [published, h.sqTail_eq, h.consumed_eq, hsum]
    grind
  rw [hahead]
  exact UInt32.toNat_ofNat_of_lt' hlt

/-- Consuming hands over the next entries, as many as the limit allows or as are left, and
publishes the position after them. -/
theorem Delivers.consume_eq (h : r.Delivers start entries m) (limit : UInt32) :
    let handed := (entries.drop m).take limit.toNat
    let position := start + UInt32.ofNat (m + handed.length)
    r.consume limit =
      (UInt32.ofNat handed.length, handed,
        { r with consumed := position, sqHead := position }) := by
  intro handed position
  have hlength : handed.length = min (entries.length - m) limit.toNat := by
    rw [List.length_take, List.length_drop, Nat.min_comm]
  have hcount : min r.published limit = UInt32.ofNat handed.length := by
    rw [hlength, ← h.published_eq, ← UInt32.toNat_min, UInt32.ofNat_toNat]
  have hcount' : (UInt32.ofNat handed.length).toNat = handed.length := by
    rw [← hcount, UInt32.toNat_min, h.published_eq, hlength]
  have hstaged (i : Nat) (e : Sqe) (he : handed[i]? = some e) :
      r.Staged (r.consumed + UInt32.ofNat i) e := by
    rw [List.getElem?_take] at he
    split at he
    · rw [List.getElem?_drop] at he
      rw [h.consumed_eq, UInt32.add_assoc, ← UInt32.ofNat_add]
      exact h.staged _ e he
    · cases he
  have hentries := entriesFrom_of_staged hstaged
  have hposition : r.consumed + UInt32.ofNat handed.length = position := by
    rw [h.consumed_eq, UInt32.add_assoc, ← UInt32.ofNat_add]
  simp only [consume, hcount, hcount', hentries, hposition]

/-- What is left after that is delivered. -/
theorem Delivers.advance (h : r.Delivers start entries m) (limit : UInt32) :
    (r.consume limit).2.2.Delivers start entries (min entries.length (m + limit.toNat)) := by
  have hle := h.le_length
  have hnext : m + ((entries.drop m).take limit.toNat).length =
      min entries.length (m + limit.toNat) := by
    rw [List.length_take, List.length_drop]
    omega
  rw [h.consume_eq limit, hnext]
  refine ⟨fun i e he => ?_, rfl, h.sqTail_eq, Nat.min_le_left .., h.length_lt⟩
  obtain ⟨hindex, htable⟩ := h.staged i e he
  exact ⟨hindex, htable⟩

end SimulatedRings

namespace SimulatedKernel

variable {k : SimulatedKernel} {start : UInt32} {entries : List Sqe} {m : Nat}

/-- The entries that a kernel is handed when it consumes up to `limit` of them. -/
def offer (k : SimulatedKernel) (limit : UInt32) : List Sqe :=
  match k.rings with
  | none => []
  | some rings => (rings.consume limit).2.1

/-- The kernel after it has consumed up to each of these limits in turn. -/
def consumeAll (k : SimulatedKernel) (limits : List UInt32) : SimulatedKernel :=
  limits.foldl (fun k limit => (k.consume limit).2.2) k

/-- The entries that it is handed each time, in the order of the limits. -/
def handouts (k : SimulatedKernel) : List UInt32 → List (List Sqe)
  | [] => []
  | limit :: rest => k.offer limit :: (k.consume limit).2.2.handouts rest

/-- The rings of a kernel deliver a batch, of which the first `m` entries were consumed. A
kernel without rings delivers nothing. -/
def Delivers (k : SimulatedKernel) (start : UInt32) (entries : List Sqe) (m : Nat) : Prop :=
  ∃ rings, k.rings = some rings ∧ rings.Delivers start entries m

/-- A kernel performs what it is handed, and its completions are pending. -/
theorem Delivers.consume_eq (h : k.Delivers start entries m) (limit : UInt32) :
    let handed := (entries.drop m).take limit.toNat
    let performed := performAll k.file k.injected handed
    let consumed := k.consume limit
    k.offer limit = handed ∧ consumed.1 = UInt32.ofNat handed.length ∧
      consumed.2.1 = performed.2.1 ∧
      consumed.2.2.pending = k.pending ++ k.reported performed.1 ∧
      consumed.2.2.injected = performed.2.2 ∧
      consumed.2.2.word? .submissionRing 0 =
        some (start + UInt32.ofNat (m + handed.length)) := by
  obtain ⟨rings, hrings, hdelivers⟩ := h
  have hconsume := hdelivers.consume_eq limit
  have hhead (r : SimulatedRings) : r.word? .submissionRing 0 = some r.sqHead :=
    if_pos (r.hasWord_of_le (by decide) (by decide) (by decide))
  simp only [offer, consume, hrings, hconsume, word?, Option.bind_some, hhead, reported, and_self]

theorem Delivers.advance (h : k.Delivers start entries m) (limit : UInt32) :
    (k.consume limit).2.2.Delivers start entries (min entries.length (m + limit.toNat)) := by
  obtain ⟨rings, hrings, hdelivers⟩ := h
  simp only [consume, hrings]
  exact ⟨_, rfl, hdelivers.advance limit⟩

/-- However often the kernel consumes, what it has come to is the sum of its limits, or the
end. -/
theorem Delivers.consumeAll (h : k.Delivers start entries m) (limits : List UInt32) :
    (k.consumeAll limits).Delivers start entries
      (min entries.length (m + (limits.map UInt32.toNat).sum)) := by
  induction limits generalizing k m with
  | nil =>
    obtain ⟨rings, hrings, hdelivers⟩ := h
    have hle := hdelivers.le_length
    rw [List.map_nil, List.sum_nil, Nat.add_zero, Nat.min_eq_right hle]
    exact ⟨rings, hrings, hdelivers⟩
  | cons limit rest ih =>
    have hrest := ih (h.advance limit)
    have hsum : min entries.length (min entries.length (m + limit.toNat) +
        (rest.map UInt32.toNat).sum) =
        min entries.length (m + ((limit :: rest).map UInt32.toNat).sum) := by
      rw [List.map_cons, List.sum_cons]
      omega
    rw [hsum] at hrest
    exact hrest

/-- What was handed over, put together, is the batch from the first entry that was left
on. -/
theorem Delivers.flatten_handouts (h : k.Delivers start entries m) (limits : List UInt32) :
    (k.handouts limits).flatten = (entries.drop m).take (limits.map UInt32.toNat).sum := by
  induction limits generalizing k m with
  | nil => rfl
  | cons limit rest ih =>
    obtain ⟨hoffer, -⟩ := h.consume_eq limit
    -- no entry is left behind the end, wherever it is looked for
    have hleft : entries.drop (min entries.length (m + limit.toNat)) =
        (entries.drop m).drop limit.toNat := by
      rw [List.drop_drop]
      rcases Nat.le_total entries.length (m + limit.toNat) with hle | hle
      · rw [Nat.min_eq_left hle, List.drop_length, List.drop_of_length_le hle]
      · rw [Nat.min_eq_right hle]
    rw [handouts, List.flatten_cons, hoffer, ih (h.advance limit), hleft, List.map_cons,
      List.sum_cons, List.take_add]

end SimulatedKernel

namespace Ring

/-- A batch that is staged and published from the kernel's position on is delivered. -/
theorem delivers_staged {r : Ring SimulatedKernel} {rings : SimulatedRings} {entries : List Sqe}
    (hlayout : r.HasLayout rings.entries) (hrings : r.kernel.rings = some rings)
    (hslots : rings.Slotted) (hlength : entries.length ≤ rings.entries.toNat) :
    let tail := rings.consumed + UInt32.ofNat entries.length
    ((r.stageAll rings.consumed entries).publishTail tail).kernel.Delivers rings.consumed entries
      0 := by
  intro tail
  have hstage := stageAll_eq_kernel hlayout hrings hslots.depth rings.consumed entries
  have hlayout' : (r.stageAll rings.consumed entries).HasLayout rings.entries :=
    hstage ▸ ⟨hlayout.sq_eq, hlayout.cq_eq⟩
  have hstaged : (r.stageAll rings.consumed entries).kernel.rings =
      some (rings.stageAll rings.consumed entries) := hstage ▸ rfl
  rw [publishTail_eq hlayout' hstaged tail]
  exact ⟨_, rfl, SimulatedRings.delivers_publish hslots hlength⟩

/-- **Entries arrive as they were staged.** A batch that fits into the ring is staged at the
positions from `start` on, which is where the kernel has come to, and its end is published.
Then the kernel consumes again and again, each time up to a limit.

All that it is handed, put together, is the batch in order, up to the sum of the limits.
Each time it is handed the next entries, as many as the limit allows or as are left,
performs just these, returns their number and publishes the position after them. When the
batch is used up, it takes none. -/
theorem handed_as_staged {r : Ring SimulatedKernel} {rings : SimulatedRings} {start : UInt32}
    {entries : List Sqe} (hlayout : r.HasLayout rings.entries)
    (hrings : r.kernel.rings = some rings) (hslots : rings.Slotted)
    (hstart : rings.consumed = start) (hlength : entries.length ≤ rings.entries.toNat)
    (limits : List UInt32) (limit : UInt32) :
    let tail := start + UInt32.ofNat entries.length
    let k := ((r.stageAll start entries).publishTail tail).kernel
    let k' := k.consumeAll limits
    let taken := min entries.length (limits.map UInt32.toNat).sum
    let handed := (entries.drop taken).take limit.toNat
    let performed := SimulatedKernel.performAll k'.file k'.injected handed
    let consumed := k'.consume limit
    (k.handouts limits).flatten = entries.take taken ∧
      k'.offer limit = handed ∧
      consumed.1.toNat = min limit.toNat (entries.length - taken) ∧
      (consumed.2.1 = performed.2.1 ∧
        consumed.2.2.pending = k'.pending ++ k'.reported performed.1 ∧
        consumed.2.2.injected = performed.2.2) ∧
      consumed.2.2.word? .submissionRing 0 =
        some (start + UInt32.ofNat (taken + consumed.1.toNat)) ∧
      (taken = entries.length → consumed.1 = 0) := by
  intro tail k k' taken handed performed consumed
  subst hstart
  -- the entries stand in their slots, and each call of the kernel takes the next few of them
  have hdelivers := delivers_staged hlayout hrings hslots hlength
  have hrun := hdelivers.consumeAll limits
  have hall := hdelivers.flatten_handouts limits
  rw [Nat.zero_add] at hrun
  obtain ⟨hoffer, hcount, htransfers, hpending, hinjected, hhead⟩ := hrun.consume_eq limit
  have hlengthHanded : handed.length = min limit.toNat (entries.length - taken) := by
    rw [List.length_take, List.length_drop]
  have hlt : handed.length < UInt32.size := by
    rw [hlengthHanded]
    exact Nat.lt_of_le_of_lt (Nat.min_le_left ..) limit.toNat_lt
  have hnumber : consumed.1.toNat = handed.length := by
    rw [hcount]
    exact UInt32.toNat_ofNat_of_lt' hlt
  refine ⟨?_, hoffer, hnumber.trans hlengthHanded, ⟨htransfers, hpending, hinjected⟩, ?_, ?_⟩
  · rw [hall, List.drop_zero, List.take_eq_take_iff]
    omega
  · rw [hnumber]
    exact hhead
  · intro hend
    rw [← UInt32.toNat_inj, hnumber, hlengthHanded, hend]
    simp

/-- Four empty slots, two positions before the wrap. The kernel has come to where the tail
is. -/
def ringsAtWrap : SimulatedRings :=
  { entries := 4, sqHead := 4294967294, sqTail := 4294967294, consumed := 4294967294 }

/-- A batch of three goes out in two parts, of which the second lies behind the wrap in
part. Then there is nothing left. -/
theorem handed_across_wrap :
    ∃ r, create ({ file := SimulatedKernel.patternedFile 4 8 } : SimulatedKernel) 3 = .ok r ∧
      let r := { r with kernel := { r.kernel with rings := some ringsAtWrap } }
      let k := ((r.stageAll 4294967294 (firstReads 3)).publishTail 1).kernel
      (k.handouts [1, 5]).flatten = firstReads 3 ∧
        k.offer 1 = (firstReads 3).take 1 ∧ (k.consume 1).1.toNat = 1 ∧
        (k.consumeAll [1, 5]).offer 7 = [] ∧ ((k.consumeAll [1, 5]).consume 7).1 = 0 := by
  obtain ⟨r, hr⟩ :
      ∃ r, create ({ file := SimulatedKernel.patternedFile 4 8 } : SimulatedKernel) 3 = .ok r :=
    ⟨_, rfl⟩
  let r' := { r with kernel := { r.kernel with rings := some ringsAtWrap } }
  have hlayout : r'.HasLayout ringsAtWrap.entries := by
    cases hr
    exact ⟨rfl, rfl⟩
  have hslots : ringsAtWrap.Slotted := ⟨⟨2, rfl⟩, rfl, rfl⟩
  have hfits : (firstReads 3).length ≤ ringsAtWrap.entries.toNat := by decide
  have hfirst := handed_as_staged hlayout rfl hslots rfl hfits [] 1
  have hlast := handed_as_staged hlayout rfl hslots rfl hfits [1, 5] 7
  exact ⟨r, hr, hlast.1, hfirst.2.1, hfirst.2.2.1, hlast.2.1, hlast.2.2.2.2.2 rfl⟩

end Ring

end RingRead
