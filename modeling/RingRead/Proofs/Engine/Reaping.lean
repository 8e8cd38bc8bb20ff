import RingRead.Proofs.Engine.Upkeep
import RingRead.Proofs.Pool.Inventory

/-!
# What one reap does

A reap looks at the two indices of the completion queue. If they say that there is an entry,
it takes that entry and finishes it, whatever the kernel has put there.

* **Looking.** Indices that are further apart than there are entries are reported, and
  nothing was done but read them (`Ring.take_of_desync`). Otherwise the entry at the head is
  read and the head is moved past it (`Ring.take_of_ready`). Neither enters the kernel.
* **The block.** A block comes back from loan as it is (`Pool.Returns`). If its read failed
  it goes on top of the free stack with its mark (`Pool.Retires`); the token that it just
  came back with gives a right to that, so the failure of the read is what is reported.
* **Ending.** `Engine.TakenEnds` lists the ways in which a reap can end that takes an entry,
  and `Engine.reap_of_indices` says that there are no others.
-/

namespace RingRead

/-! ## Blocks that come back

What a block goes through when its read is over, as two changes of the pool. Each names all
that it changes, so that whatever is not named is as before. -/

namespace Pool

variable {p p' p'' : Pool} {n : UInt32} {tag : UInt64}

/-- `p'` is `p` after a block came back from loan: it is held, with its bytes as they were.
Statistics, free stack and all other blocks are as before, so this is all that a reap does
to a pool if the read was a good one. -/
structure Returns (p : Pool) (n : UInt32) (p' : Pool) : Prop where
  moves : p.Moves [n.toNat] .held p'
  bytes_eq : p'.bytes? n.toNat = p.bytes? n.toNat
  free_eq : p'.free = p.free
  stats_eq : p'.stats = p.stats
  size_eq : p'.size = p.size

/-- `p'` is `p` after a block went on top of the free stack, with its mark. It is what a
reap does to a pool if the read was not a good one: the block is taken back and released
before the reap fails, so it is not lost. -/
structure Retires (p : Pool) (n : UInt32) (p' : Pool) : Prop where
  moves : p.Moves [n.toNat] .free p'
  bytes_eq : p'.bytes? n.toNat = (p.bytes? n.toNat).map (·.setFirstWord canary)
  mark_eq : p'.firstWord n.toNat = canary
  free_eq : p'.free = n :: p.free
  stats_eq : p'.stats = p.stats.recordRelease
  size_eq : p'.size = p.size

/-- A tag that names a block on loan is the number of that block. Tags have 64 bits and
block numbers 32, but no tag beyond that range names a block. -/
theorem Sound.tag_eq (h : p.Sound) (hloaned : p.state? tag.toNat = some .loaned) :
    tag = tag.toUInt32.toUInt64 := by
  rw [← UInt64.toNat_inj, UInt32.toNat_toUInt64]
  exact (h.toNat_toUInt32 hloaned).symm

/-- A block on loan that is reclaimed comes back as it is. -/
theorem returns_reclaim (h : p.Sound) (hloaned : p.state? tag.toNat = some .loaned) :
    p.Returns tag.toUInt32 (p.reclaim tag).2 := by
  have hid : tag.toUInt32.toNat = tag.toNat := h.toNat_toUInt32 hloaned
  obtain ⟨-, -, hbytes⟩ := reclaim_loaned hloaned
  have hfree : (p.reclaim tag).2.free = p.free := by
    rw [reclaim, if_pos hloaned]
    rfl
  refine ⟨?_, ?_, hfree, stats_reclaim p tag, size_reclaim hloaned⟩
  · rw [hid]
    exact moves_reclaim hloaned
  · rw [hid]
    exact hbytes

/-- A block that has come back is put on the free stack as if it went there at once. -/
theorem Returns.retires (h : p.Returns n p') (huniform : p.Uniform)
    (hvalid : p.config.fault? = none) (hcheck : p'.check (p'.issue n) = .ok ()) :
    p.Retires n (p'.release (p'.issue n)).2 := by
  obtain ⟨-, hfree, -, hbytes⟩ := release_ok hcheck
  change (p'.release (p'.issue n)).2.bytes? n.toNat = _ at hbytes
  have hmarked : (p'.release (p'.issue n)).2.bytes? n.toNat =
      (p.bytes? n.toNat).map (·.setFirstWord canary) := by
    rw [hbytes, ← h.bytes_eq]
    rfl
  refine ⟨h.moves.again (moves_release hcheck), hmarked, ?_, ?_, ?_, ?_⟩
  · -- the block is there, and it is long enough for a mark
    obtain ⟨b, hb, -⟩ := Option.map_eq_some_iff.mp (check_eq_ok_iff.mp hcheck).1
    have hold : p.bytes? n.toNat = some b.bytes := by
      rw [← h.bytes_eq, bytes?, show p'.blocks[n.toNat]? = some b from hb]
      rfl
    have hlong : 8 ≤ b.bytes.size := by
      rw [huniform.size_bytes hold]
      exact (blockSize_bounds hvalid).1
    rw [firstWord_eq, hmarked, hold]
    exact Bytes.firstWord_setFirstWord _ _ hlong
  · rw [hfree, h.free_eq]
    rfl
  · rw [stats_release hcheck, h.stats_eq]
  · rw [size_release hcheck, h.size_eq]

end Pool

/-! ## Looking for an entry

A ring that is in step has an entry at its head if the tail is somewhere else, and the
distance of the two is computed in 32 bits. The lemmas follow the reads of the indices one
after the other, since a kernel may change its state with each. -/

namespace Ring

variable {κ : Type}

/-- What is asked to look at the completion queue: its two indices, the head first. -/
def lookingOperations (r : Ring κ) : List Operation :=
  [.access (.load .completionRing r.cq.headAt), .access (.load .completionRing r.cq.tailAt)]

/-- What is asked to take the entry at position `head`: the entry, and a head past it. -/
def takingOperations (r : Ring κ) (head : UInt32) : List Operation :=
  [.access (.loadEntry (r.completionOffset head)),
    .access (.store .completionRing r.cq.headAt (head + 1))]

variable [Kernel κ] {r r₁ r₂ r₃ : Ring κ} {head tail : UInt32} {c : Cqe}

/-- Reading the indices changes the kernel's memory alone, if it changes that. -/
theorem eq_of_indices (hhead : r.completionHead = (head, r₁))
    (htail : r₁.completionTail = (tail, r₂)) : r₂ = { r with kernel := r₂.kernel } := by
  have hfirst : r.completionHead.2 = r₁ := congrArg Prod.snd hhead
  have hsecond : r₁.completionTail.2 = r₂ := congrArg Prod.snd htail
  rw [← hsecond, ← hfirst]
  rfl

/-- Indices that are further apart than the queue has entries are an error, which names both
of them. -/
theorem take_of_desync (hhead : r.completionHead = (head, r₁))
    (htail : r₁.completionTail = (tail, r₂)) (h : r.cq.entries < tail - head) :
    r.take = (.error (.ringDesync head tail r.cq.entries), r₂) := by
  have hcq : r₂.cq = r.cq := by rw [eq_of_indices hhead htail]
  have hne : tail - head ≠ 0 := by
    intro hzero
    rw [hzero] at h
    exact absurd h UInt32.not_lt_zero
  simp only [take, hhead, htail, hcq, hne, h, if_false, if_true]

/-- If there is an entry, the one at the head is taken, and the head is moved past it before
anybody looks at what the entry says. -/
theorem take_of_ready (hhead : r.completionHead = (head, r₁))
    (htail : r₁.completionTail = (tail, r₂)) (hentry : r₂.entry head = (c, r₃))
    (hne : tail - head ≠ 0) (hle : tail - head ≤ r.cq.entries) :
    r.take = (.ok (some c), r₃.publishHead (head + 1)) := by
  have hcq : r₂.cq = r.cq := by rw [eq_of_indices hhead htail]
  have hnot : ¬r.cq.entries < tail - head := UInt32.not_lt.mpr hle
  simp only [take, hhead, htail, hentry, hcq, hne, hnot, if_false]

/-- Looking for an entry is reading the indices, and taking one if there is one. -/
theorem operations_take (r : Ring (Traced κ)) :
    let head := r.completionHead.1
    let ready := r.completionHead.2.completionTail.1 - head
    r.take.2.kernel.operations = r.kernel.operations ++ r.lookingOperations ++
      if ready = 0 ∨ r.cq.entries < ready then [] else r.takingOperations head := by
  intro head ready
  have hlooked : r.completionHead.2.completionTail.2.kernel.operations =
      r.kernel.operations ++ r.lookingOperations := List.append_assoc ..
  rw [← hlooked]
  by_cases hnone : ready = 0 ∨ r.cq.entries < ready
  · have htake : r.take.2 = r.completionHead.2.completionTail.2 := by
      rcases hnone with hzero | hdesync
      · exact congrArg Prod.snd (if_pos hzero)
      · exact congrArg Prod.snd (take_of_desync rfl rfl hdesync)
    rw [htake, if_pos hnone, List.append_nil]
  · obtain ⟨hne, hle⟩ := not_or.mp hnone
    rw [take_of_ready rfl rfl rfl hne (UInt32.not_lt.mp hle), if_neg hnone]
    exact List.append_assoc ..

end Ring

/-! ## Ending

An entry can say anything: its tag need not be one that was ever given to the kernel, and
its result any 32-bit number. So the cases are taken from the entry and the pool, and none
of them from what the kernel ought to do. -/

namespace Engine

variable {κ : Type} {e : Engine κ}

/-- How a reap ends that takes the completion entry `c`: its answer, and the engine after
it. The ways exclude each other, by what the tag and the result of the entry are. -/
inductive TakenEnds (e : Engine κ) (c : Cqe) :
    Except (Abort Error) (Option Completion) → Engine κ → Prop
  /-- The entry names no block on loan. -/
  | unknown {e'} (hunknown : e.pool.state? c.userData.toNat ≠ some .loaned)
      (hpool : e'.pool = e.pool) (hflight : e'.inFlight = e.inFlight) :
      TakenEnds e c (.error (.failed (.unknownTag c.userData))) e'
  /-- The read brought a whole block. -/
  | completed {n e'} (htag : c.userData = n.toUInt64)
      (hloaned : e.pool.state? n.toNat = some .loaned)
      (hflight : e'.inFlight.toNat = e.inFlight.toNat - 1)
      (hres : c.res.toInt = e.blockSize) (hreturns : e.pool.Returns n e'.pool) :
      TakenEnds e c (.ok (some ⟨e.pool.issue n, e.blockSize⟩)) e'
  /-- The read failed, and the error number is the negative of the result. -/
  | failed {n e' errno} (htag : c.userData = n.toUInt64)
      (hloaned : e.pool.state? n.toNat = some .loaned)
      (hflight : e'.inFlight.toNat = e.inFlight.toNat - 1)
      (hres : c.res < 0) (hsmallest : c.res ≠ Int32.minValue)
      (herrno : errno.toInt = -c.res.toInt) (hretires : e.pool.Retires n e'.pool) :
      TakenEnds e c (.error (.failed (.completionFailed c.userData errno))) e'
  /-- The read failed, and the result is the smallest number, which has no negative. -/
  | overflowed {n e'} (htag : c.userData = n.toUInt64)
      (hloaned : e.pool.state? n.toNat = some .loaned)
      (hflight : e'.inFlight.toNat = e.inFlight.toNat - 1)
      (hres : c.res = Int32.minValue) (hretires : e.pool.Retires n e'.pool) :
      TakenEnds e c (.error (.overflow .negation)) e'
  /-- The read brought less than a block, or more. -/
  | short {n e'} {bytes : Nat} (htag : c.userData = n.toUInt64)
      (hloaned : e.pool.state? n.toNat = some .loaned)
      (hflight : e'.inFlight.toNat = e.inFlight.toNat - 1)
      (hres : c.res.toInt = bytes) (hbytes : bytes ≠ e.blockSize)
      (hretires : e.pool.Retires n e'.pool) :
      TakenEnds e c (.error (.failed (.shortRead c.userData e.blockSize bytes))) e'

/-- Every negative result but the smallest number is the negative of an error number. -/
theorem toInt_neg_res {res : Int32} (h : res ≠ Int32.minValue) : (-res).toInt = -res.toInt := by
  have hlower := res.le_toInt
  have hupper := res.toInt_lt
  have hne : res.toInt ≠ Int32.minValue.toInt := mt Int32.toInt_inj.mp h
  rw [Int32.toInt_minValue] at hne
  rw [Int32.toInt_neg]
  apply Int.bmod_eq_of_le
  · omega
  · omega

/-- However an entry is finished, it is finished in one of these ways. There is no way in
which the block comes back and giving it up fails. -/
theorem takenEnds_finish (hsound : e.pool.Sound) (huniform : e.pool.Uniform)
    (hvalid : e.pool.config.fault? = none) (c : Cqe) :
    e.TakenEnds c ((e.finish c).1.map some) (e.finish c).2 := by
  by_cases hloaned : e.pool.state? c.userData.toNat = some .loaned
  · have htag := hsound.tag_eq hloaned
    have hnumber : e.pool.state? c.userData.toUInt32.toNat = some .loaned := by
      rw [hsound.toNat_toUInt32 hloaned]
      exact hloaned
    have hflight := e.toNat_inFlight_returned c
    -- the block comes back whatever the result says; what follows decides who gets it
    have hreturns : e.pool.Returns c.userData.toUInt32 (e.returned c).pool :=
      Pool.returns_reclaim hsound hloaned
    have hissue : (e.returned c).pool.issue c.userData.toUInt32 =
        e.pool.issue c.userData.toUInt32 :=
      Pool.issue_of_serial_eq hreturns.moves.serial_eq _
    have hcheck := check_returned hsound hloaned
    rw [← hissue] at hcheck
    have hretires := hreturns.retires huniform hvalid hcheck
    rw [hissue] at hretires
    rw [finish_of_loaned hsound hloaned, verdict]
    by_cases hneg : c.res < 0
    · rw [if_pos hneg]
      rcases c.refusal_cases with ⟨hres, hrefusal⟩ | ⟨hres, hrefusal⟩
      · rw [hrefusal]
        exact .failed htag hnumber hflight hneg hres (toInt_neg_res hres) hretires
      · rw [hrefusal]
        exact .overflowed htag hnumber hflight hres hretires
    · have hnonneg : 0 ≤ c.res.toInt :=
        Int.not_lt.mp fun hlt => hneg (Int32.lt_iff_toInt_lt.mpr hlt)
      have hres : c.res.toInt = (c.res.toInt.toNat : Int) := (Int.toNat_of_nonneg hnonneg).symm
      rw [if_neg hneg]
      by_cases hbytes : c.res.toInt.toNat = e.blockSize
      · rw [if_neg (not_not.mpr hbytes), hbytes]
        exact .completed htag hnumber hflight (hbytes ▸ hres) hreturns
      · rw [if_pos hbytes]
        exact .short htag hnumber hflight hres hbytes hretires
  · rw [finish_of_unknown hloaned]
    exact .unknown hloaned rfl rfl

/-- However the reap of a negative result for a block on loan ends, the block is free
again. -/
theorem TakenEnds.retires {c : Cqe} {answer : Except (Abort Error) (Option Completion)}
    {e' : Engine κ} (h : e.TakenEnds c answer e')
    (hloaned : e.pool.state? c.userData.toNat = some .loaned) (hneg : c.res < 0) :
    ∃ n : UInt32, c.userData = n.toUInt64 ∧ e.pool.Retires n e'.pool := by
  have hres : c.res.toInt < 0 := Int32.lt_iff_toInt_lt.mp hneg
  cases h with
  | unknown hunknown hpool hflight => exact absurd hloaned hunknown
  | completed htag _ hflight hwhole hreturns => omega
  | failed htag _ hflight hres hsmallest herrno hretires => exact ⟨_, htag, hretires⟩
  | overflowed htag _ hflight hres hretires => exact ⟨_, htag, hretires⟩
  | short htag _ hflight hshort hbytes hretires => omega

/-- What has happened to the ring before makes no difference, as long as the number of reads
in flight is the same. -/
theorem TakenEnds.of_ring {r : Ring κ} {c : Cqe}
    {answer : Except (Abort Error) (Option Completion)}
    {e' : Engine κ} (hflight : r.inFlight = e.ring.inFlight)
    (h : TakenEnds ⟨r, e.pool⟩ c answer e') : e.TakenEnds c answer e' := by
  have hsame : (⟨r, e.pool⟩ : Engine κ).inFlight = e.inFlight := hflight
  cases h with
  | unknown hunknown hpool hkept => exact .unknown hunknown hpool (hkept.trans hsame)
  | completed htag hloaned hless hres hreturns =>
    rw [hsame] at hless
    exact .completed htag hloaned hless hres hreturns
  | failed htag hloaned hless hres hsmallest herrno hretires =>
    rw [hsame] at hless
    exact .failed htag hloaned hless hres hsmallest herrno hretires
  | overflowed htag hloaned hless hres hretires =>
    rw [hsame] at hless
    exact .overflowed htag hloaned hless hres hretires
  | short htag hloaned hless hres hbytes hretires =>
    rw [hsame] at hless
    exact .short htag hloaned hless hres hbytes hretires

/-- A block that has just come back can be given up: the token is of this pool and names a
held block. -/
theorem release_reclaimed (h : e.pool.Sound) {tag : UInt64} {token : Token}
    (hok : (e.pool.reclaim tag).1 = .ok token) :
    ((e.pool.reclaim tag).2.release token).1 = .ok () := by
  by_cases hloaned : e.pool.state? tag.toNat = some .loaned
  · rw [(Pool.reclaim_loaned hloaned).1] at hok
    cases hok
    rw [Pool.release_answer]
    exact check_returned (c := { userData := tag }) h hloaned
  · rw [Pool.reclaim_unknown hloaned] at hok
    cases hok

variable [Kernel κ]

/-- An engine whose ring comes to an entry, or fails to, does not wait. This holds in either
mode. -/
theorem takeOrWait_of_take {r : Ring κ} {answer : Except Error (Option Cqe)}
    (h : e.ring.take = (answer, r)) (hanswer : answer ≠ .ok none) (mode : ReapMode) :
    e.takeOrWait mode = (answer, ⟨r, e.pool⟩) := by
  rw [takeOrWait, take, h]
  rcases answer with err | _ | c
  · rfl
  · exact absurd rfl hanswer
  · rfl

/-- Where the ring comes to an entry, or fails to, a reap leaves it so but for the number of
reads in flight. -/
theorem ring_reap_of_take {r : Ring κ} {answer : Except Error (Option Cqe)} (h : e.pool.Sound)
    (htake : e.ring.take = (answer, r)) (hanswer : answer ≠ .ok none) (mode : ReapMode) :
    ∃ inFlight, (e.reap mode).2.ring = { r with inFlight } := by
  have hlooked := takeOrWait_of_take htake hanswer mode
  rcases e.reap_looked mode with hsame | ⟨c, hfinished⟩
  · rw [hsame, hlooked]
    exact ⟨r.inFlight, rfl⟩
  · have hsound : (⟨r, e.pool⟩ : Engine κ).pool.Sound := h
    rw [hfinished, hlooked]
    exact ring_finish hsound c

/-- What a reap asks of the kernel where the ring comes to an entry, or fails to: the
indices and, if they fit, the entry. -/
theorem operations_reap (h : e.pool.Sound) (hanswer : e.ring.take.1 ≠ .ok none)
    (mode : ReapMode) :
    let head := e.ring.completionHead.1
    let ready := e.ring.completionHead.2.completionTail.1 - head
    (e.trace.reap mode).2.ring.kernel.operations = e.ring.lookingOperations ++
      if ready = 0 ∨ e.ring.cq.entries < ready then [] else e.ring.takingOperations head := by
  have hpaired : e.trace.ring.Paired (fun w k => w.kernel = k) e.ring := ⟨e.ring.kernel, rfl, rfl⟩
  obtain ⟨hsame, -⟩ := lockstep_traced.takeEntry hpaired
  rcases htake : e.trace.ring.take with ⟨answer, r⟩
  rw [← hsame, htake] at hanswer
  obtain ⟨inFlight, hring⟩ := ring_reap_of_take (e := e.trace) h htake hanswer mode
  have hoperations := e.trace.ring.operations_take
  rw [htake] at hoperations
  rw [hring]
  exact hoperations

/-- **The effect of one reap on any completion.** The engine is in any state that calls have
led to, on any kernel. The indices of the completion queue are read as `head` and `tail`,
and `c` is what the kernel has put at the head.

Indices that are further apart than the queue has entries are reported; nothing has changed.
If they are not, and not equal, the head is moved by one, and the reap ends in one of the
ways of `TakenEnds`. The block that came back could be given back, so no other error takes
the place of that of the read.

All that is asked of the kernel, which is not entered, is to read and write the completion
queue. -/
theorem reap_of_indices (h : e.Reachable) (mode : ReapMode) {head tail : UInt32}
    {r₁ r₂ r₃ : Ring κ} {c : Cqe} (hhead : e.ring.completionHead = (head, r₁))
    (htail : r₁.completionTail = (tail, r₂)) (hentry : r₂.entry head = (c, r₃)) :
    let ready := tail - head
    let entries := e.ring.cq.entries
    let reaped := e.reap mode
    let traced := e.trace.reap mode
    reaped = (traced.1, traced.2.untrace) ∧
      (entries < ready →
        reaped = (.error (.failed (.ringDesync head tail entries)), ⟨r₂, e.pool⟩) ∧
          r₂ = { e.ring with kernel := r₂.kernel } ∧
          traced.2.ring.kernel.operations = e.ring.lookingOperations) ∧
      (1 ≤ ready → ready ≤ entries →
        e.TakenEnds c reaped.1 reaped.2 ∧
          (∃ inFlight, reaped.2.ring = { r₃.publishHead (head + 1) with inFlight }) ∧
          r₃ = { e.ring with kernel := r₃.kernel } ∧
          traced.2.ring.kernel.operations =
            e.ring.lookingOperations ++ e.ring.takingOperations head ∧
          ∀ token, (e.pool.reclaim c.userData).1 = .ok token →
            ((e.pool.reclaim c.userData).2.release token).1 = .ok ()) := by
  intro ready entries reaped traced
  have hsound := h.balanced.sound
  have hdrifted := Ring.eq_of_indices hhead htail
  have hasked := e.operations_reap hsound
  rw [hhead] at hasked
  simp only [htail] at hasked
  refine ⟨e.untrace_reap mode, fun hdesync => ?_, fun hpos hle => ?_⟩
  -- more ready entries than there are slots: nothing is read, and the head stays
  · have htake := Ring.take_of_desync hhead htail hdesync
    refine ⟨?_, hdrifted, ?_⟩
    · exact reap_of_error (takeOrWait_of_take htake nofun mode)
    · rw [hasked (by rw [htake]; nofun) mode, if_pos (Or.inr hdesync), List.append_nil]
  · have hne : tail - head ≠ 0 := by
      intro hzero
      rw [show ready = 0 from hzero] at hpos
      exact absurd hpos (by decide)
    have htake := Ring.take_of_ready hhead htail hentry hne hle
    have hread : r₃ = { e.ring with kernel := r₃.kernel } := by
      have hentered : (r₂.entry head).2 = r₃ := congrArg Prod.snd hentry
      rw [← hentered, hdrifted]
      rfl
    have hflight : (r₃.publishHead (head + 1)).inFlight = e.ring.inFlight := by
      rw [hread]
      rfl
    -- the entry was taken and the head moved before its result is looked at
    have hreap := reap_of_taken (takeOrWait_of_take htake nofun mode)
    have hends := takenEnds_finish (e := ⟨r₃.publishHead (head + 1), e.pool⟩) hsound h.uniform
      h.valid c
    refine ⟨?_, ring_reap_of_take hsound htake nofun mode, hread, ?_, fun token =>
      release_reclaimed hsound⟩
    · rw [show reaped = _ from hreap]
      exact hends.of_ring hflight
    · rw [hasked (by rw [htake]; nofun) mode, if_neg (not_or.mpr ⟨hne, UInt32.not_lt.mpr hle⟩)]

/-- Two reads are in flight. The kernel has posted the failure of the second one in the last
slot, at the last position there is, and moved the tail on to position 0. -/
theorem reap_at_last_position :
    ∃ e₀ : Engine SimulatedKernel,
      create { file := SimulatedKernel.patternedFile 4 8, deferred := true } 4 7
        { blockSize := 8, alignment := 8 } = .ok e₀ ∧
        let submitted := e₀.performAll [.submitReads ⟨3, 32⟩ 2 ({} : Walker)]
        let kernel := submitted.ring.kernel
        let rings := kernel.rings.map fun r => { r with
          cqHead := 4294967295, cqTail := 0,
          completions := r.completions.set! 7 { userData := 1, res := -5 } }
        let e := submitted.onto { kernel with rings }
        e.ring.cq.entries = 8 ∧
          e.TakenEnds { userData := 1, res := -5 } (.error (.failed (.completionFailed 1 5)))
            (e.reap .blocking).2 ∧
          (e.reap .blocking).2.ring.completionHead.1 = 0 ∧
          (e.trace.reap .blocking).2.ring.kernel.operations =
            e.ring.lookingOperations ++ e.ring.takingOperations 4294967295 := by
  obtain ⟨e₀, hcreate⟩ : ∃ e₀ : Engine SimulatedKernel,
      create { file := SimulatedKernel.patternedFile 4 8, deferred := true } 4 7
        { blockSize := 8, alignment := 8 } = .ok e₀ := ⟨_, rfl⟩
  refine ⟨e₀, hcreate, ?_⟩
  intro submitted kernel rings e
  have hreachable : e.Reachable :=
    ((Reachable.created hcreate).performAll _).drifted ⟨{ kernel with rings }, [], rfl⟩
  have hentries : e.ring.cq.entries = 8 := by
    cases hcreate
    decide +kernel
  have hhead : e.ring.completionHead.1 = 4294967295 := by
    cases hcreate
    decide +kernel
  have htail : e.ring.completionHead.2.completionTail.1 = 0 := by
    cases hcreate
    decide +kernel
  have hentry : (e.ring.completionHead.2.completionTail.2.entry 4294967295).1 =
      { userData := 1, res := -5 } := by
    cases hcreate
    decide +kernel
  have hanswer : (e.reap .blocking).1 = .error (.failed (.completionFailed 1 5)) := by
    cases hcreate
    decide +kernel
  have hmoved : (e.reap .blocking).2.ring.completionHead.1 = 0 := by
    cases hcreate
    decide +kernel
  -- from here on only the facts above are needed, and `e` must not be evaluated again
  clear_value e
  obtain ⟨-, -, htaken⟩ := reap_of_indices hreachable .blocking (Prod.ext hhead rfl)
    (Prod.ext htail rfl) (Prod.ext hentry rfl)
  obtain ⟨hends, -, -, hasked, -⟩ := htaken (by decide) (by rw [hentries]; decide)
  rw [hanswer] at hends
  exact ⟨hentries, hends, hmoved, hasked⟩

end Engine

end RingRead
