import RingRead.Engine.Reap
import RingRead.Engine.Submit
import RingRead.Proofs.Pool.Batch
import RingRead.Proofs.Ring.Positions

/-!
# The steps of an engine

What the steps of a submission and of a reap do to ring and pool, on any kernel.

* **Submitting.** `submitReads_of_room` takes a submission apart: the pool loans a batch of
  blocks, the entries of its reads are staged one after the other, and the batch is handed
  over.
* **Waiting.** `e.Drifts e'` says that only the kernel went on and bytes arrived from
  outside. That is all that taking entries and waiting do (`drifts_of_takeOrWait`).
* **Finishing.** `finish_of_loaned` says what becomes of a completion entry that names a
  loaned block: the block comes back, and unless the read succeeded it is given up at once.
-/

namespace RingRead

variable {κ π : Type}

/-- A refusal carries the result with its sign turned, unless it is the smallest one. That
one has no negative counterpart in 32 bits, and turning its sign is an overflow. -/
theorem Cqe.refusal_cases (c : Cqe) :
    (c.res ≠ Int32.minValue ∧ c.refusal = .failed (.completionFailed c.userData (-c.res))) ∨
      (c.res = Int32.minValue ∧ c.refusal = .overflow .negation) := by
  rw [Cqe.refusal, checkedNeg]
  by_cases hsmallest : c.res = Int32.minValue
  · rw [if_pos hsmallest]
    exact Or.inr ⟨hsmallest, rfl⟩
  · rw [if_neg hsmallest]
    exact Or.inl ⟨hsmallest, rfl⟩

/-! ## Drifting

Between two steps of the engine the kernel takes its turn. It consumes entries, posts others
and delivers bytes, and none of this is seen in what the ring and the pool keep for
themselves. -/

namespace Engine

variable {e e' e'' : Engine κ} {c : Cqe}

/-- Only the kernel went on, and bytes arrived from outside. The pool has the same blocks in
the same states, and its free stack and counters are as they were. -/
def Drifts (e e' : Engine κ) : Prop :=
  ∃ kernel transfers, e' = ⟨{ e.ring with kernel }, e.pool.receiveAll transfers⟩

/-- Nothing at all may have happened. -/
theorem Drifts.refl (e : Engine κ) : e.Drifts e := ⟨e.ring.kernel, [], rfl⟩

/-- One drift after another is a drift. The bytes of the second arrive after those of the
first. -/
theorem Drifts.trans (h : e.Drifts e') (h' : e'.Drifts e'') : e.Drifts e'' := by
  obtain ⟨kernel, transfers, rfl⟩ := h
  obtain ⟨kernel', transfers', rfl⟩ := h'
  refine ⟨kernel', transfers ++ transfers', ?_⟩
  rw [Pool.receiveAll_append]

/-! ## Finishing

An entry is finished in three parts: the tag is looked up among the loaned blocks, the
result is judged, and a block whose read failed is given up. The lemma for the whole,
`finish_of_loaned`, shows that the third part cannot fail after the first has succeeded. -/

/-- The engine after the block of a completion entry has come back. The number of reads in
flight goes down by one, but not below zero: an entry that was posted without a read to it
is not allowed to take the count with it. -/
def returned (e : Engine κ) (c : Cqe) : Engine κ where
  ring := { e.ring with inFlight := if e.ring.inFlight = 0 then 0 else e.ring.inFlight - 1 }
  pool := (e.pool.reclaim c.userData).2

/-- A block that came back is no longer in flight. -/
theorem toNat_inFlight_returned (c : Cqe) :
    (e.returned c).inFlight.toNat = e.inFlight.toNat - 1 := by
  change (if e.inFlight = 0 then 0 else e.inFlight - 1).toNat = _
  split
  · next hzero => rw [hzero, UInt32.toNat_zero]
  · next hpos =>
    have hne : e.inFlight.toNat ≠ 0 := fun hzero => hpos (UInt32.toNat_inj.mp hzero)
    have hone : 1 ≤ e.inFlight := UInt32.le_iff_toNat_le.mpr (Nat.pos_of_ne_zero hne)
    exact UInt32.toNat_sub_of_le _ _ hone

/-- What a completion entry says about its read. A negative result is a failure, and any
length but that of one block is a short read. The token is the one that the block will be
given back with. -/
def verdict (e : Engine κ) (c : Cqe) : Except (Abort Error) Completion :=
  if c.res < 0 then .error c.refusal
  else if c.res.toInt.toNat ≠ e.blockSize then
    .error (.failed (.shortRead c.userData e.blockSize c.res.toInt.toNat))
  else .ok ⟨e.pool.issue c.userData.toUInt32, c.res.toInt.toNat⟩

/-- A block that the token gives a right to is given up, and the failure is reported. So the
failure is not lost to another one on the way. -/
theorem giveUp_of_check {token : Token} (h : e.pool.check token = .ok ())
    (failure : Abort Error) :
    e.giveUp token failure =
      (.error failure, { e with pool := (e.pool.release token).2 }) := by
  have hrelease := (Pool.release_ok h).1
  rcases hpool : e.pool.release token with ⟨result, pool⟩
  rw [hpool] at hrelease
  simp only [giveUp, release, hpool, hrelease]

/-- An entry that names no loaned block is reported, and nothing changes. -/
theorem finish_of_unknown (h : e.pool.state? c.userData.toNat ≠ some .loaned) :
    e.finish c = (.error (.failed (.unknownTag c.userData)), e) := by
  simp only [finish, Pool.reclaim_unknown h]

/-- The block that came back can be given up by its token. -/
theorem check_returned (hsound : e.pool.Sound)
    (h : e.pool.state? c.userData.toNat = some .loaned) :
    (e.returned c).pool.check (e.pool.issue c.userData.toUInt32) = .ok () := by
  obtain ⟨-, hheld, -⟩ := Pool.reclaim_loaned h
  refine Pool.check_eq_ok_iff.mpr ⟨?_, (Pool.moves_reclaim h).serial_eq.symm⟩
  exact (congrArg _ (hsound.toNat_toUInt32 h)).trans hheld

/-- An entry that names a loaned block brings the block back. The block is held if the read
succeeded, and is given up at once if it failed. In both cases the answer is what the entry
says. -/
theorem finish_of_loaned (hsound : e.pool.Sound)
    (h : e.pool.state? c.userData.toNat = some .loaned) :
    e.finish c =
      match e.verdict c with
      | .error abort =>
        let pool := ((e.returned c).pool.release (e.pool.issue c.userData.toUInt32)).2
        (.error abort, { e.returned c with pool })
      | .ok completion => (.ok completion, e.returned c) := by
  have htoken : e.pool.reclaim c.userData =
      (.ok (e.pool.issue c.userData.toUInt32), (e.returned c).pool) :=
    Prod.ext (Pool.reclaim_loaned h).1 rfl
  have hgive := giveUp_of_check (check_returned hsound h)
  have hsize : (e.returned c).blockSize = e.blockSize :=
    congrArg PoolConfig.blockSize (Pool.moves_reclaim h).config_eq
  simp only [finish, htoken, verdict]
  change (if c.res < 0 then (e.returned c).giveUp _ _
    else if c.res.toInt.toNat ≠ (e.returned c).blockSize then
      (e.returned c).giveUp _ (.failed (.shortRead _ (e.returned c).blockSize _))
    else (.ok _, e.returned c)) = _
  rw [hgive, hgive, hsize]
  split
  · rfl
  · split
    · rfl
    · rfl

/-- Finishing a completion entry changes the ring in the number of reads in flight alone. -/
theorem ring_finish (h : e.pool.Sound) (c : Cqe) :
    ∃ inFlight, (e.finish c).2.ring = { e.ring with inFlight } := by
  by_cases hloaned : e.pool.state? c.userData.toNat = some .loaned
  · rw [finish_of_loaned h hloaned]
    cases e.verdict c with
    | error err => exact ⟨_, rfl⟩
    | ok completion => exact ⟨_, rfl⟩
  · rw [finish_of_unknown hloaned]
    exact ⟨e.ring.inFlight, rfl⟩

/-- Finishing a completion entry changes the state of no block but the one that it names. -/
theorem state?_finish_of_ne {c : Cqe} {id : Nat} (h : e.pool.Sound) (hne : id ≠ c.userData.toNat) :
    (e.finish c).2.pool.state? id = e.pool.state? id := by
  by_cases hloaned : e.pool.state? c.userData.toNat = some .loaned
  · have hnot : id ∉ [c.userData.toNat] := by simpa using hne
    have hreturned : (e.returned c).pool.state? id = e.pool.state? id :=
      (Pool.moves_reclaim hloaned).state_of_not_mem id hnot
    rw [finish_of_loaned h hloaned]
    cases e.verdict c with
    | error err =>
      -- the block that is given up is the one that came back
      have hrelease := Pool.moves_release (check_returned h hloaned)
      have htoken : (e.pool.issue c.userData.toUInt32).id.toNat = c.userData.toNat :=
        h.toNat_toUInt32 hloaned
      rw [htoken] at hrelease
      exact (hrelease.state_of_not_mem id hnot).trans hreturned
    | ok completion => exact hreturned
  · rw [finish_of_unknown hloaned]

end Engine

variable [Kernel κ] [OffsetPolicy π]

/-! ## Submitting

A submission is a loop in which the pool, the policy and the ring take turns. Here it is
pulled apart into a batch of loans (`Pool.loanReads`), a list of entries that are staged,
and one call of the kernel. Everything about submissions is shown from these three
equations. -/

/-- Stage entries at the ring positions from `tail` on. The tail is a 32-bit number and
wraps around, and nothing is published by this: the kernel sees the entries when the new
tail is written. -/
def Ring.stageAll (r : Ring κ) : (tail : UInt32) → List Sqe → Ring κ
  | _, [] => r
  | tail, entry :: rest => (r.stage tail entry).stageAll (tail + 1) rest

/-- Staging is done by the kernel's memory alone. -/
theorem Ring.stageAll_eq (r : Ring κ) (tail : UInt32) (entries : List Sqe) :
    r.stageAll tail entries = { r with kernel := (r.stageAll tail entries).kernel } := by
  induction entries generalizing r tail with
  | nil => rfl
  | cons entry rest ih => exact ih (r.stage tail entry) (tail + 1)

/-- Looking for a completion entry is done in the kernel's memory alone. -/
theorem Ring.take_eq (r : Ring κ) : r.take.2 = { r with kernel := r.take.2.kernel } := by
  rw [take]
  dsimp only
  split
  · rfl
  · split
    · rfl
    · rfl

namespace Engine

variable {e e' : Engine κ} {c : Cqe} {target : ReadTarget} {requested : UInt32} {policy : π}

/-- Staging a batch is loaning its blocks and staging the entries of its reads. In the
program the two are interleaved, one block and one entry at a time. They can be separated
because the blocks of a pool and the entries of a ring do not touch. -/
theorem stageReads_eq (h : e.pool.Sound) (target : ReadTarget) (blocks : UInt64) (count : Nat)
    (tail : UInt32) (policy : π) :
    stageReads target blocks count tail e policy =
      let (result, reads, pool, policy) := Pool.loanReads blocks count e.pool policy
      (result.map fun _ => tail + UInt32.ofNat count,
        ⟨e.ring.stageAll tail (reads.map (·.entry target e.blockSize)), pool⟩, policy) := by
  induction count generalizing tail e policy with
  | zero => simp [stageReads, Pool.loanReads, Ring.stageAll, Except.map]
  | succ count ih =>
    rcases halloc : e.pool.allocate with ⟨err | t, p⟩
    · rw [Pool.loanReads_of_error halloc]
      simp only [stageReads, halloc]
      rfl
    · have hallocates := Pool.allocates_of_ok h halloc
      have hsize : p.blockSize = e.blockSize :=
        congrArg PoolConfig.blockSize hallocates.moves.config_eq
      rw [Pool.loanReads_of_ok halloc]
      have hnext := Position.succ_add_ofNat tail count
      have hloaned (r : Ring κ) : (⟨r, (p.loan t).2⟩ : Engine κ).blockSize = e.blockSize := hsize
      simp only [stageReads, halloc, loanRead]
      rw [ih hallocates.sound_loan]
      simp only [hloaned, hsize, hnext, List.map_cons, Ring.stageAll, Read.entry_toNat]
      rfl

/-- The engine after a batch was staged, as far as blocks could be had for it. If they ran
out half way, the entries of the first half are in the kernel's memory, behind the tail that
it knows, and their blocks are on loan. -/
def staged (e : Engine κ) (target : ReadTarget) (count : UInt32) (policy : π) : Engine κ :=
  let loan := Pool.loanReads (target.blocks e.blockSize) count.toNat e.pool policy
  let entries := loan.2.1.map (·.entry target e.blockSize)
  ⟨e.ring.submissionTail.2.stageAll e.ring.submissionTail.1 entries, loan.2.2.1⟩

/-- Staging a batch leaves the ring as it is but for the kernel's memory. -/
theorem ring_staged (e : Engine κ) (target : ReadTarget) (count : UInt32) (policy : π) :
    (e.staged target count policy).ring =
      { e.ring with kernel := (e.staged target count policy).ring.kernel } :=
  (Ring.stageAll_eq ..).trans rfl

/-- A batch that the kernel refuses is published and stays so. The tail is written before
the call, and no read counts as in flight. -/
theorem handOver_of_refused {count tail : UInt32} {err : SystemError}
    (h : ({ e with ring := e.ring.publishTail tail } : Engine κ).enter count 0 0 =
      (.error err, e')) :
    e.handOver count tail = (.error (.enter err), e') := by
  simp only [handOver, h]

/-- Of a batch that the kernel accepts, as many reads are in flight as it took. If that is
not the whole batch, more or less, the submission fails with this number. -/
theorem handOver_of_accepted {count tail accepted : UInt32}
    (h : ({ e with ring := e.ring.publishTail tail } : Engine κ).enter count 0 0 =
      (.ok accepted, e')) :
    e.handOver count tail =
      (if accepted = count then .ok count else .error (.partialSubmit count accepted),
        { e' with ring.inFlight := e'.ring.inFlight + min accepted count }) := by
  simp only [handOver, h]
  split
  · rfl
  · rfl

/-- Without room for a read nothing happens. The target is not looked at, and the policy is
not asked. -/
theorem submitReads_of_full (h : min requested e.ring.available = 0) :
    e.submitReads target requested policy = (.ok 0, e, policy) := by
  simp only [submitReads, h, if_true]

/-- A target without a whole block is refused before anything is done. -/
theorem submitReads_of_small (h : min requested e.ring.available ≠ 0)
    (hblocks : target.blocks e.blockSize = 0) :
    e.submitReads target requested policy =
      (.error (.fileTooSmall target.size.toNat e.blockSize), e, policy) := by
  simp only [submitReads, h, hblocks, if_true, if_false]

/-- A submission is a staged batch, which is handed over if it is complete. What can go
wrong before the handing over is an allocation, and then the failure is the answer and the
batch stays as it is. -/
theorem submitReads_of_room {count : UInt32} (hsound : e.pool.Sound)
    (hcount : min requested e.ring.available = count) (hne : count ≠ 0)
    (hblocks : target.blocks e.blockSize ≠ 0) (policy : π) :
    ((e.submitReads target requested policy).1, (e.submitReads target requested policy).2.1) =
      match (Pool.loanReads (target.blocks e.blockSize) count.toNat e.pool policy).1 with
      | .error err => (.error err, e.staged target count policy)
      | .ok () =>
        (e.staged target count policy).handOver count (e.ring.submissionTail.1 + count) := by
  have hstage := stageReads_eq (e := ⟨e.ring.submissionTail.2, e.pool⟩) hsound target
    (target.blocks e.blockSize) count.toNat e.ring.submissionTail.1 policy
  have hsize : (⟨e.ring.submissionTail.2, e.pool⟩ : Engine κ).blockSize = e.blockSize := rfl
  rw [hsize] at hstage
  simp only [submitReads, hcount, hne, hblocks, if_false, hstage, staged]
  rcases Pool.loanReads (target.blocks e.blockSize) count.toNat e.pool policy
    with ⟨err | _, reads, pool, policy'⟩
  · rfl
  · simp only [Except.map, UInt32.ofNat_toNat]

/-! ## Waiting

A reap looks for an entry, may enter the kernel to wait for one, and looks again. Whatever
each of these does, an invariant of both is an invariant of the whole, so that no later
proof has to follow the control flow. -/

/-- What every single wait keeps, a wait with its repetitions keeps. A wait is repeated when
a signal interrupts it. -/
theorem waitWithin_invariant {P : Engine κ → Prop}
    (henter : ∀ e, P e → P (e.enter 0 1 enterGetEvents).2) (h : P e) (retries : Nat) :
    P (waitWithin retries e).2 := by
  induction retries generalizing e with
  | zero =>
    have hentered := henter e h
    rw [waitWithin]
    rcases hanswer : e.enter 0 1 enterGetEvents with ⟨err | taken, e'⟩
    all_goals rw [hanswer] at hentered
    · cases hinterrupted : err.isInterrupted
      all_goals simpa only [hinterrupted] using hentered
    · exact hentered
  | succ retries ih =>
    have hentered := henter e h
    rw [waitWithin]
    rcases hanswer : e.enter 0 1 enterGetEvents with ⟨err | taken, e'⟩
    all_goals rw [hanswer] at hentered
    · cases hinterrupted : err.isInterrupted with
      | true => simpa only [hinterrupted] using ih hentered
      | false => simpa only [hinterrupted] using hentered
    · exact hentered

/-- What looking for an entry and waiting for one keep, is kept however a reap comes to an
entry or to none. -/
theorem takeOrWait_invariant {P : Engine κ → Prop} (htake : ∀ e, P e → P e.take.2)
    (henter : ∀ e, P e → P (e.enter 0 1 enterGetEvents).2) (h : P e) (mode : ReapMode) :
    P (e.takeOrWait mode).2 := by
  have htaken := htake e h
  rw [takeOrWait]
  rcases hfirst : e.take with ⟨err | _ | c, e₁⟩
  all_goals rw [hfirst] at htaken
  · exact htaken
  · dsimp only
    split
    · have hwaited : P e₁.wait.2 := waitWithin_invariant henter htaken _
      rcases hwait : e₁.wait with ⟨err | _, e₂⟩
      all_goals rw [hwait] at hwaited
      · exact hwaited
      · have hagain := htake e₂ hwaited
        rcases hsecond : e₂.take with ⟨err | _ | c, e₃⟩
        all_goals simpa only [hsecond] using hagain
    · exact htaken
  · exact htaken

/-- An entry that a reap comes to was found by looking, on an engine that has what looking
and waiting keep. -/
theorem take_of_takeOrWait {P : Engine κ → Prop} (htake : ∀ e, P e → P e.take.2)
    (henter : ∀ e, P e → P (e.enter 0 1 enterGetEvents).2) (h : P e) {mode : ReapMode}
    (htaken : e.takeOrWait mode = (.ok (some c), e')) :
    ∃ e₁, P e₁ ∧ e₁.take = (.ok (some c), e') := by
  have hlooked := htake e h
  rw [takeOrWait] at htaken
  rcases hfirst : e.take with ⟨err | _ | c₁, e₁⟩
  all_goals rw [hfirst] at htaken hlooked
  · cases htaken
  · dsimp only at htaken
    split at htaken
    -- the completion was found by the second look, behind the wait
    · have hwaited : P e₁.wait.2 := waitWithin_invariant henter hlooked _
      rcases hwait : e₁.wait with ⟨err | _, e₂⟩
      all_goals rw [hwait] at htaken hwaited
      · cases htaken
      · rcases hsecond : e₂.take with ⟨err | _ | c₂, e₃⟩
        all_goals simp only [hsecond] at htaken
        · cases htaken
        · cases htaken
        · cases htaken
          exact ⟨e₂, hwaited, hsecond⟩
    · cases htaken
  · cases htaken
    exact ⟨e, h, hfirst⟩

/-- Entering the kernel changes nothing but the kernel and the bytes that it delivers. -/
theorem drifts_of_enter {toSubmit minComplete flags : UInt32} {answer : Except SystemError UInt32}
    (h : e.enter toSubmit minComplete flags = (answer, e')) : e.Drifts e' := by
  obtain ⟨-, rfl⟩ := Prod.mk.inj h
  exact ⟨_, _, rfl⟩

/-- Whether or not there is an entry to take, looking for one is done in the kernel's
memory. -/
theorem drifts_of_take {result : Except Error (Option Cqe)} (h : e.take = (result, e')) :
    e.Drifts e' := by
  obtain ⟨-, rfl⟩ := Prod.mk.inj h
  refine ⟨e.ring.take.2.kernel, [], ?_⟩
  rw [← e.ring.take_eq]
  rfl

/-- However a reap comes to an entry or to none, ring and pool only drift meanwhile. -/
theorem drifts_of_takeOrWait {mode : ReapMode} {result : Except Error (Option Cqe)}
    (h : e.takeOrWait mode = (result, e')) : e.Drifts e' := by
  have hdrifts : e.Drifts (e.takeOrWait mode).2 := by
    apply takeOrWait_invariant
    · intro e₁ hdrifts
      exact hdrifts.trans (drifts_of_take rfl)
    · intro e₁ hdrifts
      exact hdrifts.trans (drifts_of_enter rfl)
    · exact .refl e
  rw [h] at hdrifts
  exact hdrifts

/-! ## Reaping and draining

Reaps differ in how they come to an entry, and drains in how many reaps they make. What they
do with an entry is always the same. -/

/-- A reap that comes to an entry finishes it. -/
theorem reap_of_taken {mode : ReapMode} (h : e.takeOrWait mode = (.ok (some c), e')) :
    e.reap mode = ((e'.finish c).1.map some, (e'.finish c).2) := by
  simp only [reap, h]
  rcases e'.finish c with ⟨err | completion, e''⟩
  · rfl
  · rfl

/-- The answer of a reap that comes to the entry of a block on loan is what the entry
says. -/
theorem reap_answer_of_loaned {mode : ReapMode} (hsound : e'.pool.Sound)
    (h : e.takeOrWait mode = (.ok (some c), e'))
    (hloaned : e'.pool.state? c.userData.toNat = some .loaned) :
    (e.reap mode).1 = (e'.verdict c).map some := by
  rw [reap_of_taken h, finish_of_loaned hsound hloaned]
  cases e'.verdict c with
  | error err => rfl
  | ok completion => rfl

/-- A reap that comes to no entry takes nothing back. -/
theorem reap_of_none {mode : ReapMode} (h : e.takeOrWait mode = (.ok none, e')) :
    e.reap mode = (.ok none, e') := by
  simp only [reap, h]

/-- A reap that fails on the way to an entry has taken nothing back either. -/
theorem reap_of_error {mode : ReapMode} {err : Error}
    (h : e.takeOrWait mode = (.error err, e')) : e.reap mode = (.error (.failed err), e') := by
  simp only [reap, h]

/-- A reap that brings a read has come to its entry and finished it. -/
theorem reap_eq_some {mode : ReapMode} {completion : Completion}
    (h : e.reap mode = (.ok (some completion), e'')) :
    ∃ c e', e.takeOrWait mode = (.ok (some c), e') ∧ e'.finish c = (.ok completion, e'') := by
  rcases hentry : e.takeOrWait mode with ⟨err | _ | c, e'⟩
  · rw [reap_of_error hentry] at h
    cases h
  · rw [reap_of_none hentry] at h
    cases h
  · rw [reap_of_taken hentry] at h
    rcases hfinish : e'.finish c with ⟨abort | completion', e₂⟩
    all_goals
      rw [hfinish] at h
      cases h
    exact ⟨c, e', rfl, hfinish⟩

/-- A reap that succeeds without one has come to no entry. -/
theorem reap_eq_none {mode : ReapMode} (h : e.reap mode = (.ok none, e')) :
    e.takeOrWait mode = (.ok none, e') := by
  rcases hentry : e.takeOrWait mode with ⟨err | _ | c, e₁⟩
  · rw [reap_of_error hentry] at h
    cases h
  · rw [reap_of_none hentry] at h
    cases h
    rfl
  · rw [reap_of_taken hentry] at h
    rcases hfinish : e₁.finish c with ⟨abort | completion, e₂⟩
    all_goals
      rw [hfinish] at h
      cases h

/-- A reap leaves the engine that has looked for an entry, or what that becomes when an
entry is finished. -/
theorem reap_looked (e : Engine κ) (mode : ReapMode) :
    (e.reap mode).2 = (e.takeOrWait mode).2 ∨
      ∃ c, (e.reap mode).2 = ((e.takeOrWait mode).2.finish c).2 := by
  rcases htake : e.takeOrWait mode with ⟨err | _ | c, e'⟩
  · exact Or.inl (congrArg Prod.snd (reap_of_error htake))
  · exact Or.inl (congrArg Prod.snd (reap_of_none htake))
  · exact Or.inr ⟨c, congrArg Prod.snd (reap_of_taken htake)⟩

/-- The answers of several reaps, one after the other, and the engine after them. Each is
made whatever the one before has answered. -/
def reapAll :
    List ReapMode → Engine κ → List (Except (Abort Error) (Option Completion)) × Engine κ
  | [], e => ([], e)
  | mode :: modes, e =>
    ((e.reap mode).1 :: (reapAll modes (e.reap mode).2).1, (reapAll modes (e.reap mode).2).2)

/-- The reaps by which at most `rounds` more reads are collected: they go on while reads
come. None of them waits. -/
def collectModes : (rounds : Nat) → Engine κ → List ReapMode
  | 0, _ => []
  | rounds + 1, e =>
    .nonBlocking :: match e.reap .nonBlocking with
      | (.ok (some _), e) => collectModes rounds e
      | _ => []

/-- The reaps by which an engine is drained. The first one may wait, as the caller has
asked. If it brings a read, the ready ones are collected behind it, in one round for each
block on loan and one more. -/
def drainModes (e : Engine κ) (mode : ReapMode) : List ReapMode :=
  mode :: match e.reap mode with
    | (.ok (some _), e) => collectModes (e.pool.count .loaned + 1) e
    | _ => []

/-- What several reaps have brought together, unless one of them failed. A failure is all
that is left of the answers then: the reads before it are not in it. -/
def gather :
    List (Except (Abort Error) (Option Completion)) → Except (Abort Error) (List Completion)
  | .error abort :: _ => .error abort
  | .ok (some completion) :: rest => (gather rest).map (completion :: ·)
  | .ok none :: _ => .ok []
  | [] => .ok []

/-- Collecting goes on with the list of reads that it was given, and puts the new ones
behind them. -/
theorem collect_eq_reapAll (rounds : Nat) (taken : List Completion) (e : Engine κ) :
    collect rounds taken e =
      ((gather (reapAll (collectModes rounds e) e).1).map (taken.reverse ++ ·),
        (reapAll (collectModes rounds e) e).2) := by
  induction rounds generalizing taken e with
  | zero => simp [collect, collectModes, reapAll, gather, Except.map]
  | succ rounds ih =>
    rcases hreap : e.reap .nonBlocking with ⟨err | (_ | completion), e'⟩
    · simp [collect, collectModes, reapAll, gather, Except.map, hreap]
    · simp [collect, collectModes, reapAll, gather, Except.map, hreap]
    · simp only [collect, collectModes, reapAll, gather, hreap, ih]
      rcases gather (reapAll (collectModes rounds e') e').1 with err | rest
      · rfl
      · simp [Except.map]

/-- Draining is a sequence of reaps. So what is known about reaps, one at a time, can be
used for it without another induction over its loop. -/
theorem drain_eq_reapAll (e : Engine κ) (mode : ReapMode) :
    e.drain mode =
      (gather (reapAll (e.drainModes mode) e).1, (reapAll (e.drainModes mode) e).2) := by
  rcases hreap : e.reap mode with ⟨err | (_ | completion), e'⟩
  · simp only [drain, drainModes, reapAll, gather, hreap]
  · simp only [drain, drainModes, reapAll, gather, hreap]
  · simp only [drain, drainModes, reapAll, gather, hreap, collect_eq_reapAll]
    rfl

/-- What every reap keeps, a drain keeps. -/
theorem drain_invariant {P : Engine κ → Prop} (hreap : ∀ e, P e → ∀ mode, P (e.reap mode).2)
    (h : P e) (mode : ReapMode) : P (e.drain mode).2 := by
  have hall (modes : List ReapMode) : ∀ e, P e → P (reapAll modes e).2 := by
    induction modes with
    | nil => exact fun _ h => h
    | cons mode modes ih => exact fun e h => ih _ (hreap e h mode)
  rw [drain_eq_reapAll]
  exact hall _ e h

end Engine

end RingRead
