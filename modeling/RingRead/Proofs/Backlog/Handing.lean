import Mathlib.Data.List.Nodup
import RingRead.Proofs.Backlog.Tracking

/-!
# Batches behind a backlog

A submission on an engine in which entries wait that were published before. If there is a
slot for each of them and for each entry of the batch, the batch comes to wait behind them,
and the kernel takes the first so many of all (`Tracks.hands`). No entry is overwritten, and
those that are taken name blocks on loan.
-/

namespace RingRead

namespace Engine

variable {κ π : Type} [OffsetPolicy π] {e : Engine κ} {target : ReadTarget}
variable {requested count : UInt32} {policy : π}

/-! ## What is staged

A batch is staged in the slots behind the tail. Whether these are free is not for the ring
to know: it counts the reads in flight, and an entry that was published and not taken is not
one of them. So every result here has a hypothesis that there are slots enough. -/

/-- The entries that are staged of a batch: those for which there are blocks. If an
allocation fails on the way, these are the reads that came before it, and they are staged
without being handed over. -/
def stagedEntries (e : Engine κ) (target : ReadTarget) (count : UInt32) (policy : π) : List Sqe :=
  (Pool.loanReads (target.blocks e.blockSize) count.toNat e.pool policy).2.1.map
    (·.entry target e.blockSize)

/-- The tags of a batch are all different, and none of them names a block that was on
loan. -/
theorem nodup_tags_stagedEntries (h : e.pool.Sound) {tags : List UInt64} (hnodup : tags.Nodup)
    (hloaned : ∀ tag ∈ tags, e.pool.state? tag.toNat = some .loaned) :
    ((e.stagedEntries target count policy).map Sqe.userData ++ tags).Nodup := by
  have hloans := Pool.loans_loanReads h (target.blocks e.blockSize) count.toNat policy
  have htags : (e.stagedEntries target count policy).map Sqe.userData =
      ((Pool.loanReads (target.blocks e.blockSize) count.toNat e.pool policy).2.1.map
        Read.block).map UInt32.toUInt64 := by
    rw [stagedEntries, List.map_map, List.map_map]
    rfl
  rw [htags]
  refine List.nodup_append.mpr ⟨?_, hnodup, ?_⟩
  · refine List.Nodup.map (fun id id' heq => UInt32.toNat_inj.mp ?_) hloans.nodup
    rw [← UInt32.toNat_toUInt64 id, heq, UInt32.toNat_toUInt64]
  · rintro _ hmem tag htag rfl
    obtain ⟨id, hid, rfl⟩ := List.mem_map.mp hmem
    have hnot := hloans.state?_ne (s := .loaned) (by decide) (List.mem_map_of_mem hid)
    exact hnot ((congrArg _ (UInt32.toNat_toUInt64 id)).symm.trans (hloaned _ htag))

variable [Kernel κ]

/-- The number of entries that a submission goes to stage. The target must have a block, and
then it is the smaller one of what was requested and of the slots that are left. -/
def staging (e : Engine κ) (target : ReadTarget) (requested : UInt32) : Nat :=
  if target.blocks e.blockSize = 0 then 0 else (min requested e.ring.available).toNat

/-- The engine on which a submission enters the kernel: the batch is staged and published.
From here on the kernel can see the entries, whether or not it takes them. -/
def published (e : Engine κ) (target : ReadTarget) (count : UInt32) (policy : π) : Engine κ :=
  let staged := e.staged target count policy
  { staged with ring := staged.ring.publishTail (e.ring.submissionTail.1 + count) }

/-- A batch that is handed over is published and the kernel is entered. Its answer decides
whether the batch was submitted, and changes the number of reads in flight alone. -/
theorem handOver_eq (e : Engine κ) (target : ReadTarget) (count : UInt32) (policy : π) :
    let published := e.published target count policy
    let entered := Kernel.enter published.ring.kernel count 0 0
    let handed := (e.staged target count policy).handOver count (e.ring.submissionTail.1 + count)
    (∀ answer, handed.1 = .ok answer → entered.answer = .ok count) ∧
      ∃ inFlight, handed.2 =
        ⟨{ published.ring with kernel := entered.kernel, inFlight },
          published.pool.receiveAll entered.transfers⟩ := by
  intro published entered handed
  rcases henter : published.enter count 0 0 with ⟨err | accepted, e'⟩
  all_goals
    have hanswer : entered.answer = _ := congrArg Prod.fst henter
    have hengine : _ = e' := congrArg Prod.snd henter
  · have hhanded : handed = _ := handOver_of_refused henter
    rw [hhanded, ← hengine]
    exact ⟨nofun, published.ring.inFlight, rfl⟩
  · have hhanded : handed = _ := handOver_of_accepted henter
    rw [hhanded, ← hengine]
    refine ⟨fun answer hok => ?_, _, rfl⟩
    split at hok
    · next heq => rw [hanswer, heq]
    · cases hok

/-- The engine that a submission leaves behind: nothing was staged, or a batch was staged
for which there were not enough blocks, or it was staged and handed over. -/
theorem submitReads_cases (h : e.pool.Sound) (target : ReadTarget) (requested : UInt32)
    (policy : π) :
    let submitted := e.submitReads target requested policy
    let count := min requested e.ring.available
    submitted.2.1 = e ∨ target.blocks e.blockSize ≠ 0 ∧ count ≠ 0 ∧
      (submitted.2.1 = e.staged target count policy ∨
        (Pool.loanReads (target.blocks e.blockSize) count.toNat e.pool policy).1 = .ok () ∧
          (submitted.1, submitted.2.1) =
            (e.staged target count policy).handOver count (e.ring.submissionTail.1 + count)) := by
  intro submitted count
  by_cases hcount : count = 0
  · exact Or.inl (by simp only [submitted, submitReads_of_full hcount])
  by_cases hblocks : target.blocks e.blockSize = 0
  · exact Or.inl (by simp only [submitted, submitReads_of_small hcount hblocks])
  refine Or.inr ⟨hblocks, hcount, ?_⟩
  have hsubmit := submitReads_of_room h (rfl : _ = count) hcount hblocks policy
  rcases hloan : (Pool.loanReads (target.blocks e.blockSize) count.toNat e.pool policy).1
    with err | _
  · rw [hloan] at hsubmit
    exact Or.inl (congrArg Prod.snd hsubmit)
  · rw [hloan] at hsubmit
    exact Or.inr ⟨rfl, hsubmit⟩

/-- The entries of a batch name the blocks that went on loan for it, by their tags and by
their addresses. -/
theorem names_of_mem_stagedEntries {s : Sqe} (h : e.pool.Sound)
    (hs : s ∈ e.stagedEntries target count policy) :
    ∃ id, s.Names id ∧
      (e.staged target count policy).pool.state? id.toNat = some .loaned := by
  have hloans := Pool.loans_loanReads h (target.blocks e.blockSize) count.toNat policy
  obtain ⟨r, hr, rfl⟩ := List.mem_map.mp hs
  have hloaned := hloans.moves.state_of_mem _ (List.mem_map_of_mem (List.mem_map_of_mem hr))
  exact ⟨r.block, ⟨rfl, rfl⟩, hloaned⟩

/-- The blocks that were on loan before a batch was staged still are. A batch takes blocks
that are free or new. -/
theorem loaned_staged {id : Nat} (h : e.pool.Sound) (hid : e.pool.state? id = some .loaned) :
    (e.staged target count policy).pool.state? id = some .loaned := by
  have hloans := Pool.loans_loanReads h (target.blocks e.blockSize) count.toNat policy
  refine (hloans.moves.state_of_not_mem id fun hmem => ?_).trans hid
  exact hloans.state?_ne (by decide) hmem hid

variable [Relay κ] {e' : Engine κ} {n : UInt32} {entries batch : List Sqe} {m : Nat}

/-- Of the entries that waited and of a batch behind them the first `m` were consumed. All
had a slot, and those of the batch name blocks on loan. -/
structure Hands (e e' : Engine κ) (n : UInt32) (entries batch : List Sqe) (m : Nat) : Prop where
  length_le : (entries ++ batch).length ≤ n.toNat
  tracks : e'.Tracks n ((entries ++ batch).drop m)
  passed_eq : e.passed e' = (entries ++ batch).take m
  loaned : ∀ s ∈ batch, ∃ id, s.Names id ∧ e'.pool.state? id.toNat = some .loaned
  keeps : ∀ id, e.pool.state? id = some .loaned → e'.pool.state? id = some .loaned
  acceptLimit_eq : e'.behind.ring.kernel.acceptLimit = e.behind.ring.kernel.acceptLimit
  owes : e.Owes → e'.Owes

/-- Where nothing is consumed and no block comes back, it is an empty batch that is handed
over. So a submission that comes to nothing is no case of its own. -/
theorem Rests.hands (h : e.Rests e' n entries)
    (hkeeps : ∀ id, e.pool.state? id = some .loaned → e'.pool.state? id = some .loaned) :
    e.Hands e' n entries [] 0 := by
  refine ⟨?_, ?_, h.passed_eq, nofun, hkeeps, h.acceptLimit_eq, h.owes⟩
  · rw [List.append_nil]
    exact h.tracks.backlog.length_le
  · rw [List.append_nil]
    exact h.tracks

/-- Staging is done at the tail of the rings of the kernel behind. What is staged there is
the same whether the engine is on the relay or on the kernel itself, since stores go
through. -/
theorem Tracks.kernel_staged (h : e.Tracks n entries) {rings : SimulatedRings}
    (hrings : e.behind.ring.kernel.rings = some rings) (target : ReadTarget) (count : UInt32)
    (policy : π) :
    (e.staged target count policy).behind.ring.kernel =
        { e.behind.ring.kernel with
          rings := some (rings.stageAll rings.sqTail (e.stagedEntries target count policy)) } ∧
      e.ring.submissionTail.1 = rings.sqTail := by
  obtain ⟨rings', hrings', hn, hwaits, -⟩ := id h.backlog
  obtain rfl : rings' = rings := Option.some.inj (hrings'.symm.trans hrings)
  have hlayout : e.behind.ring.HasLayout rings'.entries := hn ▸ h.layout
  have htail := Ring.submissionTail_eq hlayout hrings
  constructor
  · rw [← behind_staged]
    exact congrArg (fun e => e.ring.kernel)
      (staged_on_simulated hlayout hrings hwaits.wellFormed target count policy)
  · have hbehind := e.ring.behind_submissionTail
    exact congrArg Prod.fst (hbehind.symm.trans htail)

/-- Staging moves no part of the ring, neither of the engine's nor of the kernel's. -/
theorem Tracks.layout_staged (h : e.Tracks n entries) (target : ReadTarget) (count : UInt32)
    (policy : π) : (e.staged target count policy).ring.behind.HasLayout n := by
  rw [ring_staged]
  exact ⟨h.layout.sq_eq, h.layout.cq_eq⟩

/-- A batch for which there were not enough blocks is staged behind the entries that wait,
and is not published. -/
theorem Tracks.rests_staged (h : e.Tracks n entries) (target : ReadTarget) (policy : π)
    (hfits : entries.length + count.toNat ≤ n.toNat) :
    e.Rests (e.staged target count policy) n entries := by
  obtain ⟨rings, hrings, -, -, -⟩ := id h.backlog
  obtain ⟨hle, -⟩ := Pool.length_loanReads e.pool (target.blocks e.blockSize) count.toNat policy
  obtain ⟨lent, -, hlends, -⟩ := lends_staged h.balanced.sound target count policy
  have hflight : (e.staged target count policy).inFlight = e.inFlight := by
    unfold inFlight
    rw [ring_staged]
  obtain ⟨hkernel, -⟩ := h.kernel_staged hrings target count policy
  have hroom : entries.length + (e.stagedEntries target count policy).length ≤ n.toNat := by
    rw [stagedEntries, List.length_map]
    omega
  obtain ⟨hbacklog, htags, hposition⟩ := h.backlog.stageAll hrings hroom
  rw [← hkernel] at hbacklog htags hposition
  refine ⟨⟨⟨?_, h.layout_staged target count policy, hbacklog, h.named⟩, hposition, ?_⟩,
    fun howes => ⟨htags ▸ howes.nodup, fun tag htag => ?_⟩⟩
  · exact hlends.balanced_of_inFlight_eq h.balanced hflight
  · rw [hkernel]
  · exact loaned_staged h.balanced.sound (howes.loaned tag (htags ▸ htag))

/-- A published batch waits behind the other entries. This needs room for it beside them,
and no more: nothing is said of the order in which the kernel has been entered before. -/
theorem Tracks.backlog_published (h : e.Tracks n entries) (target : ReadTarget) (policy : π)
    (hfits : entries.length + count.toNat ≤ n.toNat)
    (hlength : (e.stagedEntries target count policy).length = count.toNat) :
    let batch := e.stagedEntries target count policy
    let kernel := (e.published target count policy).behind.ring.kernel
    kernel.Backlog n (entries ++ batch) ∧
      kernel.tags.Perm (batch.map Sqe.userData ++ e.behind.ring.kernel.tags) ∧
      kernel.position = e.behind.ring.kernel.position ∧
      kernel.acceptLimit = e.behind.ring.kernel.acceptLimit := by
  intro batch kernel
  obtain ⟨rings, hrings, -, -, -⟩ := id h.backlog
  obtain ⟨hstaged, htail⟩ := h.kernel_staged hrings target count policy
  have hring : (e.staged target count policy).ring.behind.kernel.rings =
      some (rings.stageAll rings.sqTail batch) := congrArg SimulatedKernel.rings hstaged
  have hpublish := Ring.publishTail_eq (h.layout_staged target count policy) hring
    (e.ring.submissionTail.1 + count)
  let published : SimulatedRings :=
    { rings.stageAll rings.sqTail batch with sqTail := rings.sqTail + count }
  have hkernel : kernel = { e.behind.ring.kernel with rings := some published } := by
    change ((e.staged target count policy).ring.publishTail _).behind.kernel = _
    rw [← Ring.behind_publishTail, hpublish, htail]
    exact congrArg (fun kernel => { kernel with rings := some published }) hstaged
  obtain ⟨hbacklog, htags, hposition⟩ := h.backlog.publish hrings (hlength ▸ hfits)
  rw [hlength, UInt32.ofNat_toNat, ← hkernel] at hbacklog htags hposition
  exact ⟨hbacklog, htags, hposition, hkernel ▸ rfl⟩

/-- Each read of a published batch is owed a block of its own as well. -/
theorem Owes.published (h : e.Owes) (hsound : e.pool.Sound)
    (htags : (e.published target count policy).behind.ring.kernel.tags.Perm
      ((e.stagedEntries target count policy).map Sqe.userData ++ e.behind.ring.kernel.tags)) :
    (e.published target count policy).Owes := by
  refine ⟨htags.nodup_iff.mpr (nodup_tags_stagedEntries hsound h.nodup h.loaned), ?_⟩
  intro tag htag
  rcases List.mem_append.mp (htags.mem_iff.mp htag) with hnew | hold
  · obtain ⟨s, hs, rfl⟩ := List.mem_map.mp hnew
    obtain ⟨id, ⟨htag, -⟩, hloaned⟩ := names_of_mem_stagedEntries hsound hs
    rw [htag, UInt32.toNat_toUInt64]
    exact hloaned
  · exact loaned_staged hsound (h.loaned tag hold)

/-- A batch that is handed over waits behind the other entries, of which the kernel then
takes the first so many. A clear kernel takes at least as many as the batch has if it has no
limit or if the batch was submitted. -/
theorem Tracks.hands_handOver (h : e.Tracks n entries) (target : ReadTarget) (policy : π)
    (hfits : entries.length + count.toNat ≤ n.toNat)
    (hok : (Pool.loanReads (target.blocks e.blockSize) count.toNat e.pool policy).1 = .ok ())
    {result : Except Error UInt32}
    (hhand : (result, e') =
      (e.staged target count policy).handOver count (e.ring.submissionTail.1 + count))
    (hbalanced : e'.Balanced) :
    ∃ m, e.Hands e' n entries (e.stagedEntries target count policy) m ∧
      (Relay.Clear κ →
        e.behind.ring.kernel.acceptLimit = none ∨ (∃ answer, result = .ok answer) →
          count.toNat ≤ m) := by
  have hsound := h.balanced.sound
  have hlength : (e.stagedEntries target count policy).length = count.toNat := by
    rw [stagedEntries, List.length_map]
    exact (Pool.length_loanReads e.pool (target.blocks e.blockSize) count.toNat policy).2 hok
  obtain ⟨hbacklog, htags, hposition, hlimit⟩ := h.backlog_published target policy hfits hlength
  -- what the kernel behind the relay does with the batch; the relay only decides the answer
  obtain ⟨m, -, hclearly, hpasses⟩ := Relay.passes_enter hbacklog count 0 0
  obtain ⟨hanswer, inFlight, hengine⟩ := handOver_eq e target count policy
  rw [← hhand] at hanswer hengine
  obtain rfl := hengine
  have hlayout := h.layout_staged target count policy
  refine ⟨m, ⟨?_, ⟨hbalanced, ⟨hlayout.sq_eq, hlayout.cq_eq⟩, hpasses.backlog, fun s hs => ?_⟩, ?_,
    fun s hs => ?_, fun id hid => ?_, ?_, fun howes => ?_⟩, fun hclear hall => ?_⟩
  · rw [List.length_append, hlength]
    exact hfits
  · rcases List.mem_append.mp (List.mem_of_mem_drop hs) with hold | hnew
    · exact h.named s hold
    · obtain ⟨id, hid, -⟩ := names_of_mem_stagedEntries hsound hnew
      exact ⟨id, hid⟩
  · rw [passed, ← hposition]
    exact hpasses.passed_eq
  · obtain ⟨id, hid, hloaned⟩ := names_of_mem_stagedEntries hsound hs
    exact ⟨id, hid, (Pool.state?_receiveAll ..).trans hloaned⟩
  · exact (Pool.state?_receiveAll ..).trans (loaned_staged hsound hid)
  · exact hpasses.acceptLimit_eq.trans hlimit
  -- a tag that the kernel takes leaves the backlog, so nothing new is owed
  · exact (howes.published hsound htags).of_subperm hpasses.tags_subperm fun tag _ =>
      Pool.state?_receiveAll ..
  · obtain ⟨htaken, hmin⟩ := hclearly hclear
    rcases hall with hnone | ⟨answer, hsubmitted⟩
    · rw [hmin (hlimit.trans hnone), List.length_append, hlength]
      omega
    · exact Nat.le_of_eq (htaken count (hanswer answer hsubmitted)).symm

/-- Whatever becomes of a submission whose entries all have a slot, a batch comes to wait
behind the other entries, and the kernel takes the first so many of all. -/
theorem Tracks.hands (h : e.Tracks n entries) (target : ReadTarget) (requested : UInt32)
    (policy : π) (hfits : entries.length + e.staging target requested ≤ n.toNat) :
    ∃ batch m, e.Hands (e.submitReads target requested policy).2.1 n entries batch m ∧
      (e.staging target requested = 0 → batch = [] ∧ m = 0) ∧
      (Relay.Clear κ → e.behind.ring.kernel.acceptLimit = none ∨
          (∃ answer, (e.submitReads target requested policy).1 = .ok answer) →
        batch.length ≤ m) := by
  have hbalanced := h.balanced.submitReads target requested policy
  rcases submitReads_cases h.balanced.sound target requested policy with
    hsame | ⟨hblocks, hcount, hstaged⟩
  -- nothing was staged: no slots are left, or the target has no blocks
  · rw [hsame]
    have hhands := (Rests.refl h).hands fun _ hid => hid
    exact ⟨[], 0, hhands, fun _ => ⟨rfl, rfl⟩, fun _ _ => Nat.le_refl 0⟩
  · have hstaging : e.staging target requested = (min requested e.ring.available).toNat :=
      if_neg hblocks
    have hne : e.staging target requested ≠ 0 := fun hzero =>
      hcount (UInt32.toNat_inj.mp (hstaging.symm.trans hzero))
    rw [hstaging] at hfits
    rcases hstaged with hstaged | ⟨hok, hhand⟩
    -- an allocation has failed: entries are staged behind the old tail, where nobody looks
    · rw [hstaged]
      have hhands := (h.rests_staged target policy hfits).hands fun _ =>
        loaned_staged h.balanced.sound
      exact ⟨[], 0, hhands, fun hzero => absurd hzero hne, fun _ _ => Nat.le_refl 0⟩
    · obtain ⟨m, hhands, hall⟩ := h.hands_handOver target policy hfits hok hhand hbalanced
      have hlength := (Pool.length_loanReads e.pool (target.blocks e.blockSize)
        (min requested e.ring.available).toNat policy).1
      refine ⟨_, m, hhands, fun hzero => absurd hzero hne, fun hclear htaken => ?_⟩
      rw [stagedEntries, List.length_map]
      exact hlength.trans (hall hclear htaken)

end Engine

end RingRead
