import Mathlib.Data.List.Perm.Subperm
import RingRead.Proofs.Backlog.Window
import RingRead.Proofs.Simulation.Submitting

/-!
# What a simulated kernel owes

A read that was published goes through the kernel in three places: its entry waits, its
completion is pending, its completion is posted. `SimulatedKernel.tags` lists the tags of
all reads that are in one of them. A kernel makes none up by itself: consuming an entry
moves its tag from the first place to the second, posting moves it to the third, and a
completion that finds the ring full is dropped.

`k.Backlog n entries` says that a kernel has rings of `n` entries in which `entries` wait.
Unlike `Queues` it allows for a kernel that takes only a part of what it is offered.
Entering such a kernel takes the first so many of the waiting entries (`Backlog.enter`).
-/

namespace RingRead.SimulatedKernel

variable {k k' k'' : SimulatedKernel} {n limit : UInt32} {entries batch : List Sqe}
variable {rings : SimulatedRings} {m : Nat}

/-- The number of entries between the submission head and the tail. The kernel keeps the
head, and the engine never looks at it: the engine has its own count of reads in flight, in
which the entries of a failed submission are missing. -/
def unconsumed (k : SimulatedKernel) : Nat :=
  match k.rings with
  | none => 0
  | some rings => (rings.sqTail - rings.sqHead).toNat

/-- The entries that a kernel has not consumed yet, oldest first. -/
def waiting (k : SimulatedKernel) : List Sqe :=
  match k.rings with
  | none => []
  | some rings => rings.waiting

/-- The position that a kernel has come to. It runs on and wraps around, as the indices of a
queue do. -/
def position (k : SimulatedKernel) : UInt32 :=
  match k.rings with
  | none => 0
  | some rings => rings.consumed

/-- The entries that a kernel has consumed since a position, as they stand in their slots.
They are read back from there after the fact, so that an entry that was overwritten before
it was consumed is seen as what it was overwritten with. -/
def passedSince (k : SimulatedKernel) (position : UInt32) : List Sqe :=
  match k.rings with
  | none => []
  | some rings => rings.entriesFrom (rings.consumed - position).toNat position

/-- The tags of the reads that were published and not taken back: of the entries that wait,
and of the completions that are posted or pending. -/
def tags (k : SimulatedKernel) : List UInt64 :=
  k.waiting.map Sqe.userData ++ k.queued.map Cqe.userData

/-- Nothing was consumed since a kernel was where it is. -/
theorem passedSince_position (k : SimulatedKernel) : k.passedSince k.position = [] := by
  rw [passedSince, position]
  split
  · rfl
  · rw [UInt32.sub_self]
    rfl

theorem tags_of_rings (h : k.rings = some rings) :
    k.tags = rings.waiting.map Sqe.userData ++ (rings.unread ++ k.pending).map Cqe.userData := by
  rw [tags, waiting, queued, h]

/-- A kernel has rings of `n` entries in which `entries` wait, and no more unread
completions than there is room for. It says nothing of what the entries are; this is for
`Tracks`, which knows the pool as well. -/
def Backlog (k : SimulatedKernel) (n : UInt32) (entries : List Sqe) : Prop :=
  ∃ rings, k.rings = some rings ∧ rings.entries = n ∧ rings.Waits entries ∧
    rings.unread.length ≤ rings.cqEntries.toNat

theorem Backlog.waiting_eq (h : k.Backlog n entries) : k.waiting = entries := by
  obtain ⟨rings, hrings, -, hwaits, -⟩ := h
  rw [waiting, hrings]
  exact hwaits.waiting_eq

theorem Backlog.unconsumed_eq (h : k.Backlog n entries) : k.unconsumed = entries.length := by
  obtain ⟨rings, hrings, -, hwaits, -⟩ := h
  simp only [unconsumed, hrings, hwaits.sqHead_eq]
  exact hwaits.published_eq

theorem Backlog.length_le (h : k.Backlog n entries) : entries.length ≤ n.toNat := by
  obtain ⟨rings, -, rfl, hwaits, -⟩ := h
  exact hwaits.length_le

/-- Rings that differ in the completions alone have the same entries waiting. -/
theorem waits_of_completions (h : rings.Waits entries) {cqHead cqTail : UInt32}
    {completions : Array Cqe} (hsize : completions.size = rings.cqEntries.toNat) :
    { rings with cqHead, cqTail, completions }.Waits entries := by
  have hwf := h.wellFormed
  refine ⟨⟨hwf.depth, hwf.entries_le, hwf.size_index, hwf.size_table, hsize⟩, h.sqHead_eq,
    h.published_eq, h.length_le, fun i e he => ?_⟩
  obtain ⟨hindex, htable⟩ := h.staged i e he
  exact ⟨hindex, htable⟩

/-! ## Staging and publishing

Staged entries are in memory, and published ones are in the kernel's sight. Between the two
lies one store, of the tail. -/

/-- Entries that are staged and not published change nothing that is outstanding, as long as
they have slots of their own. -/
theorem Backlog.stageAll (h : k.Backlog n entries) (hrings : k.rings = some rings)
    (hroom : entries.length + batch.length ≤ n.toNat) :
    let k' := { k with rings := some (rings.stageAll rings.sqTail batch) }
    k'.Backlog n entries ∧ k'.tags = k.tags ∧ k'.position = k.position := by
  intro k'
  have hwaiting := h.waiting_eq
  obtain ⟨rings', hrings', rfl, hwaits, hlength⟩ := h
  obtain rfl : rings' = rings := Option.some.inj (hrings'.symm.trans hrings)
  have hwaits' := hwaits.stageAll hroom
  obtain ⟨index, table, hstaged⟩ := rings'.stageAll_eq rings'.sqTail batch
  have hbacklog : k'.Backlog rings'.entries entries := by
    refine ⟨_, rfl, ?_, hwaits', ?_⟩
    · rw [hstaged]
    · rw [hstaged]
      exact hlength
  refine ⟨hbacklog, ?_, ?_⟩
  · rw [tags, tags, hbacklog.waiting_eq, hwaiting]
    simp only [queued, k', hrings, hstaged]
    rfl
  · simp only [position, k', hrings, hstaged]

/-- A batch that is staged and published waits behind the other entries. The slots that it
is written to are free, because both together are no longer than the ring. -/
theorem Backlog.publish (h : k.Backlog n entries) (hrings : k.rings = some rings)
    (hroom : entries.length + batch.length ≤ n.toNat) :
    let published := { rings.stageAll rings.sqTail batch with
      sqTail := rings.sqTail + UInt32.ofNat batch.length }
    let k' := { k with rings := some published }
    k'.Backlog n (entries ++ batch) ∧
      k'.tags.Perm (batch.map Sqe.userData ++ k.tags) ∧ k'.position = k.position := by
  intro published k'
  have hwaiting := h.waiting_eq
  obtain ⟨rings', hrings', rfl, hwaits, hlength⟩ := h
  obtain rfl : rings' = rings := Option.some.inj (hrings'.symm.trans hrings)
  have hwaits' := hwaits.publish hroom
  obtain ⟨index, table, hstaged⟩ := rings'.stageAll_eq rings'.sqTail batch
  have hbacklog : k'.Backlog rings'.entries (entries ++ batch) := by
    refine ⟨_, rfl, ?_, hwaits', ?_⟩
    · simp only [published, hstaged]
    · simp only [published, hstaged]
      exact hlength
  have hqueued : k'.queued = k.queued := by
    simp only [queued, k', published, hrings, hstaged]
    rfl
  refine ⟨hbacklog, ?_, ?_⟩
  · rw [tags, tags, hbacklog.waiting_eq, hwaiting, hqueued, List.map_append, List.append_assoc]
    exact List.perm_append_comm_assoc ..
  · simp only [position, k', published, hrings, hstaged]

/-! ## Posting

A completion that is posted moves from the pending ones to the unread ones. If the queue is
full it is dropped, and its read is never heard of again: it is owed no longer, but its
block is still on loan. -/

/-- Posting is done in the completion queue alone. -/
theorem postAll_eq (cs : List Cqe) (rings : SimulatedRings) (counters : SimulationCounters) :
    ∃ cqTail completions,
      (postAll cs rings counters).1 = { rings with cqTail, completions } := by
  refine postAll_induction (P := fun r => ∃ cqTail completions,
    r = { rings with cqTail, completions }) ?_ ⟨rings.cqTail, rings.completions, rfl⟩ cs counters
  rintro r c ⟨cqTail, completions, rfl⟩
  exact ⟨_, _, rfl⟩

/-- What is unread after posting are completions that were unread before or that were given,
in this order. No more of them are kept than there is room for, and the others are
dropped. -/
theorem unread_postAll_sublist (h : rings.WellFormed)
    (hlength : rings.unread.length ≤ rings.cqEntries.toNat) (cs : List Cqe)
    (counters : SimulationCounters) :
    let posted := (postAll cs rings counters).1
    posted.WellFormed ∧ posted.unread.length ≤ posted.cqEntries.toNat ∧
      posted.unread.Sublist (rings.unread ++ cs) := by
  induction cs generalizing rings counters with
  | nil =>
    refine ⟨h, hlength, ?_⟩
    rw [List.append_nil]
    exact List.Sublist.refl _
  | cons c rest ih =>
    rw [postAll]
    split
    -- the ring is full and the completion is dropped
    · obtain ⟨hwf, hle, hsublist⟩ :=
        ih h hlength { counters with overflowed := counters.overflowed + 1 }
      exact ⟨hwf, hle, hsublist.trans ((List.sublist_cons_self c rest).append_left rings.unread)⟩
    · next hroom =>
      have hunread := SimulatedRings.unread_post h hroom c
      have hless : rings.unread.length < rings.cqEntries.toNat := by
        rw [SimulatedRings.length_unread]
        exact UInt32.lt_iff_toNat_lt.mp (UInt32.not_le.mp hroom)
      have hroom' : (rings.post c).unread.length ≤ (rings.post c).cqEntries.toNat := by
        rw [hunread, List.length_append]
        exact hless
      obtain ⟨hwf, hle, hsublist⟩ :=
        ih (h.post c) hroom' { counters with completed := counters.completed + 1 }
      refine ⟨hwf, hle, ?_⟩
      rw [hunread, List.append_assoc] at hsublist
      exact hsublist

/-- `k'` is `k` after the first `m` of the entries that waited were consumed. Completions
may have been posted and dropped, so the tags that are left are some of those that there
were. -/
structure Passes (k : SimulatedKernel) (n : UInt32) (entries : List Sqe) (m : Nat)
    (k' : SimulatedKernel) : Prop where
  backlog : k'.Backlog n (entries.drop m)
  passed_eq : k'.passedSince k.position = entries.take m
  position_eq : k'.position = k.position + UInt32.ofNat m
  tags_subperm : k'.tags.Subperm k.tags
  acceptLimit_eq : k'.acceptLimit = k.acceptLimit

theorem Passes.refl (h : k.Backlog n entries) : k.Passes n entries 0 k :=
  ⟨h, passedSince_position k, (Position.add_ofNat_zero _).symm, List.Subperm.refl _, rfl⟩

/-- Posting consumes nothing. -/
theorem position_flush (k : SimulatedKernel) : k.flush.position = k.position := by
  rw [flush]
  split
  · rfl
  · cases hrings : k.rings with
    | none => simp only [position, hrings]
    | some rings =>
      obtain ⟨cqTail, completions, hposted⟩ := postAll_eq k.pending rings k.counters
      simp only [position, hrings, hposted]

@[inherit_doc position_flush]
theorem passedSince_flush (k : SimulatedKernel) (position : UInt32) :
    k.flush.passedSince position = k.passedSince position := by
  rw [flush]
  split
  · rfl
  · cases hrings : k.rings with
    | none => simp only [passedSince, hrings]
    | some rings =>
      obtain ⟨cqTail, completions, hposted⟩ := postAll_eq k.pending rings k.counters
      simp only [passedSince, hrings, hposted]
      exact SimulatedRings.entriesFrom_congr rings { rings with cqTail, completions } rfl rfl rfl ..

/-- Posting leaves the waiting entries alone, and completions that were pending are posted
or dropped. -/
theorem Backlog.flush (h : k.Backlog n entries) :
    k.flush.Backlog n entries ∧ k.flush.tags.Subperm k.tags ∧
      k.flush.acceptLimit = k.acceptLimit := by
  have hbacklog := h
  obtain ⟨rings, hrings, rfl, hwaits, hlength⟩ := h
  rw [SimulatedKernel.flush]
  split
  · exact ⟨hbacklog, List.Subperm.refl _, rfl⟩
  · obtain ⟨hwf, hle, hsublist⟩ :=
      unread_postAll_sublist hwaits.wellFormed hlength k.pending k.counters
    obtain ⟨cqTail, completions, hposted⟩ := postAll_eq k.pending rings k.counters
    rw [hposted] at hwf hle hsublist
    have hwaits' : { rings with cqTail, completions }.Waits entries :=
      waits_of_completions hwaits hwf.size_completions
    simp only [hrings, hposted]
    refine ⟨⟨_, rfl, rfl, hwaits', hle⟩, ?_, trivial⟩
    rw [tags_of_rings rfl, tags_of_rings hrings, hwaits'.waiting_eq, hwaits.waiting_eq,
      List.append_nil]
    exact ((hsublist.map Cqe.userData).append_left _).subperm

theorem Passes.flush (h : k.Passes n entries m k') : k.Passes n entries m k'.flush := by
  obtain ⟨hbacklog, hsubperm, hlimit⟩ := h.backlog.flush
  exact ⟨hbacklog, (passedSince_flush k' k.position).trans h.passed_eq,
    (position_flush k').trans h.position_eq, hsubperm.trans h.tags_subperm,
    hlimit.trans h.acceptLimit_eq⟩

/-! ## Consuming

To consume an entry is to move the head past it, to perform its read, and to put its
completion among the pending ones. All of it is done in one go for a number of entries. -/

/-- The completion of an operation has its tag. This is all that ties a completion to the
entry that it answers, and the kernel is trusted with it. -/
theorem userData_perform (file : Bytes) (injected : List Int32) (e : Sqe) :
    (perform file injected e).1.userData = e.userData := by
  rw [perform.eq_def]
  dsimp only
  split
  · rfl
  · split
    · cases injected with
      | nil => rfl
      | cons res rest =>
        dsimp only
        split
        · rfl
        · rfl
    · rfl

theorem userData_performAll (file : Bytes) (injected : List Int32) (entries : List Sqe) :
    (performAll file injected entries).1.map Cqe.userData = entries.map Sqe.userData := by
  induction entries generalizing injected with
  | nil => rfl
  | cons e rest ih => exact congr (congrArg List.cons (userData_perform file injected e)) (ih _)

/-- The kernel consumes the first of the waiting entries, as many as it is limited to, and
their completions are pending. What results they carry makes no difference here. -/
theorem Backlog.consume (h : k.Backlog n entries) (limit : UInt32) :
    (k.consume limit).1.toNat = min entries.length limit.toNat ∧
      k.Passes n entries (min entries.length limit.toNat) (k.consume limit).2.2 := by
  obtain ⟨rings, hrings, rfl, hwaits, hlength⟩ := h
  obtain ⟨hcount, htaken, hwaits'⟩ := hwaits.consume limit
  have hpassed := hwaits.passed_consume limit
  have htags := userData_performAll k.file k.injected (rings.consume limit).2.1
  have hunread : (rings.consume limit).2.2.unread = rings.unread := rfl
  simp only [SimulatedKernel.consume, hrings]
  refine ⟨hcount, ⟨_, rfl, rfl, hwaits', hlength⟩, ?_, ?_, ?_, rfl⟩
  · simp only [passedSince, position, hrings]
    exact hpassed
  · simp only [position, hrings]
    rw [← hcount, UInt32.ofNat_toNat]
    rfl
  · rw [tags_of_rings rfl, tags_of_rings hrings, hwaits'.waiting_eq, hwaits.waiting_eq, hunread]
    -- what was consumed leaves the entries in front and comes back as completions at the end
    generalize min entries.length limit.toNat = m at htaken hpassed
    have hreported : ((k.reported (performAll k.file k.injected (rings.consume limit).2.1).1).map
        Cqe.userData).Perm ((entries.take m).map Sqe.userData) := by
      rw [← htaken, ← htags]
      exact (k.reported_perm _).map _
    have hall : (entries.take m).map Sqe.userData ++ (entries.drop m).map Sqe.userData =
        entries.map Sqe.userData := by
      rw [← List.map_append, List.take_append_drop]
    have hmoved := List.perm_append_comm.trans (hreported.append_right
      ((entries.drop m).map Sqe.userData ++ (rings.unread ++ k.pending).map Cqe.userData))
    rw [← hall]
    simpa only [reported, List.map_append, List.append_assoc] using hmoved.subperm

/-! ## Entering

A kernel that is entered consumes what it may, and then posts what is pending, unless it
defers that or the wait is interrupted. Only the consuming takes entries. -/

/-- How many entries a kernel is limited to that is asked to take so many. A limit of its
own may be smaller, and never makes it take more. -/
def limitTo (k : SimulatedKernel) (toSubmit : UInt32) : UInt32 :=
  match k.acceptLimit with
  | none => toSubmit
  | some limit => min limit toSubmit

/-- A kernel that is entered consumes what its limit allows, and then answers. -/
theorem enter_eq_respond_limitTo (k : SimulatedKernel) (toSubmit flags : UInt32) :
    k.enter toSubmit flags = respond flags (k.entered.consume (k.limitTo toSubmit)) := rfl

/-- How a kernel answers takes nothing more from the entries that wait. So an enter that
fails after it has consumed is treated like one that succeeds. -/
theorem Passes.respond {taken flags : UInt32} {transfers : List Transfer}
    (h : k.Passes n entries m k') :
    k.Passes n entries m (SimulatedKernel.respond flags (taken, transfers, k')).kernel := by
  have hwaited : k.Passes n entries m k'.waited :=
    ⟨h.backlog, h.passed_eq, h.position_eq, h.tags_subperm, h.acceptLimit_eq⟩
  rw [SimulatedKernel.respond]
  split
  · split
    · exact hwaited.flush
    · exact ⟨h.backlog, h.passed_eq, h.position_eq, h.tags_subperm, h.acceptLimit_eq⟩
  · split
    · exact h
    · exact h.flush

/-- A kernel that answers with a number answers with the number of entries that it consumed.
It may also answer with an error, after it has consumed them. -/
theorem eq_of_respond {taken taken' flags : UInt32} {transfers : List Transfer}
    (h : (respond flags (taken, transfers, k)).answer = .ok taken') : taken' = taken := by
  rw [SimulatedKernel.respond] at h
  split at h
  · split at h
    · exact (Except.ok.inj h).symm
    · cases h
  · split at h
    · exact (Except.ok.inj h).symm
    · exact (Except.ok.inj h).symm

/-- A kernel that is entered consumes the first of the entries that wait, and no more of
them than it is asked to. If it answers with a number, it consumes that many, and without a
limit of its own it consumes as many as it is asked to. -/
theorem Backlog.enter (h : k.Backlog n entries) (toSubmit flags : UInt32) :
    ∃ m ≤ toSubmit.toNat,
      (∀ taken, (k.enter toSubmit flags).answer = .ok taken → m = taken.toNat) ∧
      (k.acceptLimit = none → m = min entries.length toSubmit.toNat) ∧
      k.Passes n entries m (k.enter toSubmit flags).kernel := by
  have hlimit : (k.limitTo toSubmit).toNat ≤ toSubmit.toNat := by
    rw [limitTo]
    split
    · exact Nat.le_refl _
    · exact (UInt32.toNat_min ..).trans_le (Nat.min_le_right ..)
  have hentered : k.entered.Backlog n entries := h
  obtain ⟨hcount, hconsumed⟩ := hentered.consume (k.limitTo toSubmit)
  -- only what is consumed matters for the backlog: the answer is decided afterwards
  rw [enter_eq_respond_limitTo]
  generalize k.entered.consume (k.limitTo toSubmit) = consumed at hcount hconsumed ⊢
  rcases consumed with ⟨count, transfers, k'⟩
  have hpasses : k.Passes n entries (min entries.length (k.limitTo toSubmit).toNat) k' :=
    ⟨hconsumed.backlog, hconsumed.passed_eq, hconsumed.position_eq, hconsumed.tags_subperm,
      hconsumed.acceptLimit_eq⟩
  refine ⟨min entries.length (k.limitTo toSubmit).toNat, (Nat.min_le_right ..).trans hlimit, ?_, ?_,
    hpasses.respond⟩
  · intro taken hanswer
    rw [eq_of_respond hanswer]
    exact hcount.symm
  · intro hnone
    rw [limitTo, hnone]

end RingRead.SimulatedKernel
