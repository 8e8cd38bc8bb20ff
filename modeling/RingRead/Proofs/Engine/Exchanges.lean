import RingRead.Policy.Choice
import RingRead.Proofs.Engine.Accounting
import RingRead.Proofs.Pool.Circulation

/-!
# Exchanges with a kernel

What a submission and a drain do on any kernel when they succeed, on an engine whose blocks
on loan all belong to reads in flight.

* **Out.** `submits_of_ok`: as many reads go in flight as the answer says, and the policy
  was asked once for each of them.
* **Back.** `drains_of_ok`: each read that is drained was in flight, and it is drained once.
  A reap that may wait does not come back without an entry if there was one to wait for
  (`takeOrWait_ne_none`).
-/

namespace RingRead

/-! ## Policies that are asked

A policy is a state that makes one choice after the other. A batch asks for its offsets in
the order in which it loans blocks, one for each, and stops asking when it cannot have a
block. -/

namespace OffsetPolicy

variable {π : Type} [OffsetPolicy π]

/-- A policy after so many choices. The choices themselves are left out, since here only
their number matters. -/
def asked (policy : π) (blocks : UInt64) : (count : Nat) → π
  | 0 => policy
  | count + 1 => asked (next policy blocks).2 blocks count

/-- Asking twice in a row is asking for all choices at once. -/
theorem asked_add (policy : π) (blocks : UInt64) (m n : Nat) :
    asked policy blocks (m + n) = asked (asked policy blocks m) blocks n := by
  induction m generalizing policy with
  | zero => rw [Nat.zero_add, asked]
  | succ m ih =>
    rw [Nat.succ_add]
    exact ih (next policy blocks).2

/-- A policy that counts has counted every choice. -/
theorem calls_asked (policy : Counted π) (blocks : UInt64) (count : Nat) :
    (asked policy blocks count).calls = policy.calls + count := by
  induction count generalizing policy with
  | zero => rfl
  | succ count ih =>
    refine (ih (next policy blocks).2).trans ?_
    change policy.calls + 1 + count = _
    omega

end OffsetPolicy

namespace Pool

variable {π : Type} [OffsetPolicy π] {p : Pool} {blocks : UInt64} {count : Nat} {policy : π}

/-- For a complete batch the policy was asked once for each read. -/
theorem policy_loanReads (hok : (loanReads blocks count p policy).1 = .ok ()) :
    (loanReads blocks count p policy).2.2.2 = OffsetPolicy.asked policy blocks count := by
  induction count generalizing p policy with
  | zero => rfl
  | succ count ih =>
    obtain ⟨t, p', halloc⟩ := allocate_of_loanReads hok
    rw [loanReads_of_ok halloc] at hok ⊢
    exact ih hok

end Pool

namespace Engine

variable {κ : Type} {e e' e'' : Engine κ}

/-- Every block on loan belongs to a read in flight, and there are no more of these than
slots. A session works on settled engines as long as its submissions succeed. -/
structure Settled (e : Engine κ) : Prop where
  balanced : e.Balanced
  exact : e.Exact

theorem Balanced.of_drifts (h : e.Balanced) (hdrifts : e.Drifts e') : e'.Balanced :=
  ((Lends.refl h.sound).of_drifts hdrifts).balanced_of_inFlight_eq h (inFlight_of_drifts hdrifts)

theorem Settled.of_drifts (h : e.Settled) (hdrifts : e.Drifts e') : e'.Settled := by
  refine ⟨h.balanced.of_drifts hdrifts, ?_⟩
  have hloaned := ((Lends.refl h.balanced.sound).of_drifts hdrifts).loaned_eq
  exact (congrArg UInt32.toNat (inFlight_of_drifts hdrifts)).trans (h.exact.trans hloaned.symm)

/-- With no read in flight no block is on loan. -/
theorem Settled.state?_ne_loaned (h : e.Settled) (hidle : e.inFlight = 0) (id : Nat) :
    e.pool.state? id ≠ some .loaned := by
  have hzero : e.pool.count .loaned = 0 := h.exact.symm.trans (congrArg UInt32.toNat hidle)
  intro hloaned
  obtain ⟨b, hb, hstate⟩ := Option.map_eq_some_iff.mp hloaned
  obtain ⟨hlt, rfl⟩ := Array.getElem?_eq_some_iff.mp hb
  have hnot := Array.countP_eq_zero.mp hzero _ (Array.getElem_mem hlt)
  simp [hstate] at hnot

/-! ## What is exchanged

Both relations are about two engines, and say what the calls between them have exchanged
with the kernel, not which calls they were. So they compose, and a session can put a
submission and a drain together without looking into either. -/

/-- `e'` is `e` after `n` reads more went in flight. The blocks that were held are still
held, and no others are, and what was in circulation still is. -/
structure Submits (e : Engine κ) (n : Nat) (e' : Engine κ) : Prop where
  settled : e'.Settled
  capacity_eq : e'.capacity = e.capacity
  config_eq : e'.pool.config = e.pool.config
  inFlight_eq : e'.inFlight.toNat = e.inFlight.toNat + n
  held_iff : ∀ id, e'.pool.state? id = some .held ↔ e.pool.state? id = some .held
  circulates : ∀ id, e.pool.Circulates id → e'.pool.Circulates id

/-- `e'` is `e` after the reads in `done` were taken back, each of which was in flight.
Their blocks are held now and were on loan before, and no block is named by two of them. -/
structure Drains (e : Engine κ) (done : List Completion) (e' : Engine κ) : Prop where
  settled : e'.Settled
  capacity_eq : e'.capacity = e.capacity
  inFlight_eq : e'.inFlight.toNat + done.length = e.inFlight.toNat
  collects : e.pool.Collects (done.map Completion.token) e'.pool

theorem Drains.of_drifts (h : e.Settled) (hdrifts : e.Drifts e') : e.Drains [] e' := by
  have hsettled := h.of_drifts hdrifts
  obtain ⟨kernel, transfers, rfl⟩ := hdrifts
  exact ⟨hsettled, rfl, rfl, Pool.collects_receiveAll e.pool transfers⟩

theorem Drains.refl (h : e.Settled) : e.Drains [] e :=
  .of_drifts h ⟨e.ring.kernel, [], rfl⟩

/-- What two drains have taken back one after the other is taken back in that order. No
block comes twice: after the first drain it is not on loan any more. -/
theorem Drains.trans {done done' : List Completion} (h : e.Drains done e')
    (h' : e'.Drains done' e'') : e.Drains (done ++ done') e'' := by
  have hflight := h.inFlight_eq
  have hflight' := h'.inFlight_eq
  refine ⟨h'.settled, h'.capacity_eq.trans h.capacity_eq, ?_, ?_⟩
  · rw [List.length_append]
    omega
  · rw [List.map_append]
    exact h.collects.trans h'.collects

/-- A read that succeeded hands out the token of its block. -/
theorem token_of_verdict {c : Cqe} {completion : Completion}
    (h : e.verdict c = .ok completion) : completion.token = e.pool.issue c.userData.toUInt32 := by
  rw [verdict] at h
  split at h
  · cases h
  · split at h
    · cases h
    · cases h
      rfl

/-- An entry is finished successfully only if it names a block on loan. The block comes
back, and its token is handed out. -/
theorem finish_eq_ok {c : Cqe} {completion : Completion} (h : e.pool.Sound)
    (hok : e.finish c = (.ok completion, e')) :
    e.pool.state? c.userData.toNat = some .loaned ∧ e' = e.returned c ∧
      completion.token = e.pool.issue c.userData.toUInt32 := by
  by_cases hloaned : e.pool.state? c.userData.toNat = some .loaned
  · rw [finish_of_loaned h hloaned] at hok
    rcases hverdict : e.verdict c with err | completion'
    · rw [hverdict] at hok
      cases hok
    · rw [hverdict] at hok
      cases hok
      exact ⟨hloaned, rfl, token_of_verdict hverdict⟩
  · rw [finish_of_unknown hloaned] at hok
    cases hok

/-- What comes back with a read that succeeded is its block alone. -/
theorem collects_of_finish {c : Cqe} {completion : Completion} (h : e.pool.Sound)
    (hok : e.finish c = (.ok completion, e')) : e.pool.Collects [completion.token] e'.pool := by
  obtain ⟨hloaned, rfl, htoken⟩ := finish_eq_ok h hok
  rw [htoken]
  exact Pool.collects_reclaim h hloaned

/-- An entry that is finished successfully takes back one read: its block was on loan and is
held, and there is one read less in flight. -/
theorem drains_of_finish {c : Cqe} {completion : Completion} (h : e.Settled)
    (hok : e.finish c = (.ok completion, e')) : e.Drains [completion] e' := by
  have hsound := h.balanced.sound
  have hcollects := collects_of_finish hsound hok
  obtain ⟨hloaned, rfl, -⟩ := finish_eq_ok hsound hok
  -- a block was on loan, so a read was in flight
  have hcount : (e.returned c).loaned + 1 = e.loaned := Pool.count_reclaim hloaned
  have hflight : (e.returned c).inFlight.toNat = e.inFlight.toNat - 1 := toNat_inFlight_returned c
  have hexact : e.inFlight.toNat = e.loaned := h.exact
  have hcapacity := UInt32.le_iff_toNat_le.mp h.balanced.inFlight_le_capacity
  refine ⟨⟨⟨hsound.reclaim hloaned, ?_, by omega⟩, ?_⟩, rfl, ?_, hcollects⟩
  · exact UInt32.le_iff_toNat_le.mpr (hflight.trans_le ((Nat.sub_le ..).trans hcapacity))
  · rw [Exact]
    omega
  · rw [List.length_singleton]
    omega

variable [Kernel κ]

/-! ## Engines that calls have made

Results about one call are stated for any engine that calls have led to. The relation is
closed under drifts, because a kernel need not wait for the next call before it goes on. -/

/-- An engine that was created, after any calls. Between two calls the kernel may go on by
itself, post entries and deliver bytes. Results that are to hold for every engine that a
caller can have in hand ask for this and nothing more, on any kernel. -/
inductive Reachable : Engine κ → Prop
  | created {kernel : κ} {capacity serial : UInt32} {config : PoolConfig}
      {mappings : MappingAnswers} {e : Engine κ}
      (h : create kernel capacity serial config mappings = .ok e) : Reachable e
  | performed {e : Engine κ} (h : Reachable e) (call : Call) : Reachable (e.perform call)
  | drifted {e e' : Engine κ} (h : Reachable e) (hdrifts : e.Drifts e') : Reachable e'

/-- Such an engine is balanced. -/
theorem Reachable.balanced {e : Engine κ} (h : e.Reachable) : e.Balanced := by
  induction h with
  | created h => exact (balanced_create h).1
  | performed _ call ih => exact ih.perform call
  | drifted _ hdrifts ih => exact ih.of_drifts hdrifts

theorem Reachable.performAll {e : Engine κ} (h : e.Reachable) (calls : List Call) :
    (e.performAll calls).Reachable := by
  induction calls generalizing e with
  | nil => exact h
  | cons call rest ih => exact ih (h.performed call)

/-! ## Out

A submission that succeeds has put its batch in flight, and all of it. What it answers is
the number of reads in the batch. -/

section Out

variable {π : Type} [OffsetPolicy π]

/-- A submission changes nothing about the number of slots. -/
theorem capacity_submitReads (h : e.Balanced) (target : ReadTarget) (requested : UInt32)
    (policy : π) : (e.submitReads target requested policy).2.1.capacity = e.capacity := by
  have hends := submitReads_ends h target requested policy
  generalize (e.submitReads target requested policy).1 = answer at hends
  generalize (e.submitReads target requested policy).2.1 = e' at hends ⊢
  cases hends with
  | idle => rfl
  | unentered _ _ _ hlends => exact hlends.capacity_eq
  | refused _ _ _ hlends => exact hlends.capacity_eq
  | accepted _ _ _ _ hlends => exact hlends.capacity_eq

/-- A submission that ends well has put the whole batch in flight. -/
theorem SubmitEnds.eq_of_ok {count n : UInt32} (h : e.SubmitEnds count (.ok n) e') :
    n = count ∧ e'.inFlight.toNat = e.inFlight.toNat + n.toNat := by
  generalize hsame : Except.ok n = answer at h
  cases h with
  | idle hzero =>
    cases hsame
    exact ⟨hzero.symm, rfl⟩
  | unentered => cases hsame
  | refused => cases hsame
  | accepted _ _ _ hflight =>
    split at hsame
    · next haccepted =>
      cases hsame
      rw [haccepted, Nat.min_self] at hflight
      exact ⟨rfl, hflight⟩
    · cases hsame

/-- A submission puts no more reads in flight than it was asked for, however it ends. -/
theorem inFlight_submitReads_le (h : e.Balanced) (target : ReadTarget) (requested : UInt32)
    (policy : π) : (e.submitReads target requested policy).2.1.inFlight.toNat ≤
      e.inFlight.toNat + requested.toNat := by
  have hends := submitReads_ends h target requested policy
  have hcount : (min requested e.ring.available).toNat ≤ requested.toNat :=
    (UInt32.toNat_min ..).trans_le (Nat.min_le_left ..)
  generalize (e.submitReads target requested policy).1 = answer at hends
  generalize (e.submitReads target requested policy).2.1 = e' at hends ⊢
  cases hends with
  | idle => exact Nat.le_add_right ..
  | unentered _ _ hflight => exact hflight ▸ Nat.le_add_right ..
  | refused _ _ hflight => exact hflight ▸ Nat.le_add_right ..
  | accepted _ _ _ hflight => omega

/-- The policy that a submission with room for a batch leaves behind. It is the one that
loaning the batch has left, whatever the kernel then says about the batch. -/
theorem policy_submitReads {target : ReadTarget} {requested count : UInt32} (hsound : e.pool.Sound)
    (hcount : min requested e.ring.available = count) (hne : count ≠ 0)
    (hblocks : target.blocks e.blockSize ≠ 0) (policy : π) :
    (e.submitReads target requested policy).2.2 =
      (Pool.loanReads (target.blocks e.blockSize) count.toNat e.pool policy).2.2.2 := by
  have hstage := stageReads_eq (e := ⟨e.ring.submissionTail.2, e.pool⟩) hsound target
    (target.blocks e.blockSize) count.toNat e.ring.submissionTail.1 policy
  simp only [submitReads, hcount, hne, hblocks, if_false, hstage]
  rcases hloan : Pool.loanReads (target.blocks e.blockSize) count.toNat e.pool policy
    with ⟨err | _, reads, pool, policy'⟩
  · simp [Except.map]
  · simp [Except.map]

/-- The pool after a submission that had room for a batch and succeeded: the batch was
complete, and bytes arrived after that. -/
theorem pool_of_submitReads_ok {target : ReadTarget} {requested count n : UInt32} {policy : π}
    (hsound : e.pool.Sound) (hcount : min requested e.ring.available = count) (hne : count ≠ 0)
    (hblocks : target.blocks e.blockSize ≠ 0)
    (hok : (e.submitReads target requested policy).1 = .ok n) :
    (Pool.loanReads (target.blocks e.blockSize) count.toNat e.pool policy).1 = .ok () ∧
      ∃ transfers, (e.submitReads target requested policy).2.1.pool =
        (Pool.loanReads (target.blocks e.blockSize) count.toNat e.pool policy).2.2.1.receiveAll
          transfers := by
  have hsubmit := submitReads_of_room hsound hcount hne hblocks policy
  rcases hloan : (Pool.loanReads (target.blocks e.blockSize) count.toNat e.pool policy).1
    with err | _
  · rw [hloan] at hsubmit
    obtain ⟨hanswer, -⟩ := Prod.mk.inj hsubmit
    rw [hok] at hanswer
    cases hanswer
  · rw [hloan] at hsubmit
    -- an enter delivers bytes whether the kernel then accepts or refuses
    let published : Engine κ :=
      { e.staged target count policy with
        ring := (e.staged target count policy).ring.publishTail (e.ring.submissionTail.1 + count) }
    rcases henter : published.enter count 0 0 with ⟨source | accepted, e'⟩
    all_goals
      obtain ⟨kernel, transfers, heq⟩ := drifts_of_enter henter
      have hpool : e'.pool = published.pool.receiveAll transfers := congrArg Engine.pool heq
    · rw [handOver_of_refused henter] at hsubmit
      obtain ⟨-, hengine⟩ := Prod.mk.inj hsubmit
      rw [hengine]
      exact ⟨rfl, transfers, hpool⟩
    · rw [handOver_of_accepted henter] at hsubmit
      obtain ⟨-, hengine⟩ := Prod.mk.inj hsubmit
      rw [hengine]
      exact ⟨rfl, transfers, hpool⟩

/-- A submission that succeeds has put in flight as many reads as it answers, and no more
than it was asked for. It asked the policy once for each. The answer may be zero, and then
nothing was done. -/
theorem submits_of_ok {target : ReadTarget} {requested n : UInt32} {policy policy' : π}
    (h : e.Settled) (hok : e.submitReads target requested policy = (.ok n, e', policy')) :
    e.Submits n.toNat e' ∧ n ≤ requested ∧
      policy' = OffsetPolicy.asked policy (target.blocks e.blockSize) n.toNat := by
  have hanswer : (e.submitReads target requested policy).1 = .ok n := congrArg Prod.fst hok
  have hengine : (e.submitReads target requested policy).2.1 = e' := congrArg (·.2.1) hok
  have hpolicy : (e.submitReads target requested policy).2.2 = policy' := congrArg (·.2.2) hok
  by_cases hcount : min requested e.ring.available = 0
  · rw [submitReads_of_full hcount] at hok
    cases hok
    exact ⟨⟨h, rfl, rfl, rfl, fun _ => Iff.rfl, fun _ hid => hid⟩, UInt32.zero_le, rfl⟩
  by_cases hblocks : target.blocks e.blockSize = 0
  · rw [submitReads_of_small hcount hblocks] at hok
    cases hok
  generalize hdef : min requested e.ring.available = count at hcount
  obtain ⟨hcomplete, transfers, hpool⟩ :=
    pool_of_submitReads_ok h.balanced.sound hdef hcount hblocks hanswer
  have hsettled : e'.Settled := by
    rw [← hengine]
    exact ⟨h.balanced.submitReads .., h.exact.submitReads h.balanced hanswer⟩
  have hloans :=
    Pool.loans_loanReads h.balanced.sound (target.blocks e.blockSize) count.toNat policy
  -- `n` is the staged count: an answer that differs from it would have been a partial submission
  have hends := submitReads_ends h.balanced target requested policy
  rw [hanswer, hengine, hdef] at hends
  rw [hengine] at hpool
  obtain ⟨rfl, hflight⟩ := hends.eq_of_ok
  have hcapacity : e'.capacity = e.capacity := by
    rw [← hengine]
    exact capacity_submitReads h.balanced target requested policy
  refine ⟨⟨hsettled, hcapacity, ?_, hflight, fun id => ?_, fun id hid => ?_⟩, ?_, ?_⟩
  · rw [hpool, Pool.config_receiveAll, hloans.moves.config_eq]
  · rw [hpool, Pool.state?_receiveAll]
    exact hloans.held_iff id
  · rw [hpool]
    exact (Pool.circulates_loanReads h.balanced.sound hcomplete hid).receiveAll transfers
  · rw [← hdef]
    exact UInt32.le_iff_toNat_le.mpr ((UInt32.toNat_min ..).trans_le (Nat.min_le_left ..))
  · rw [← hpolicy, policy_submitReads h.balanced.sound hdef hcount hblocks,
      Pool.policy_loanReads hcomplete]

end Out

/-! ## Back

A reap takes back one read or none, and a drain takes back a list of them. That the list is
complete is not said here: it is the kernel that decides which reads are done. -/

/-- A reap that succeeds takes back one read, or nothing. -/
theorem drains_of_reap {mode : ReapMode} {completion : Option Completion} (h : e.Settled)
    (hok : e.reap mode = (.ok completion, e')) : e.Drains completion.toList e' := by
  cases completion with
  | none => exact .of_drifts h (drifts_of_takeOrWait (reap_eq_none hok))
  | some completion =>
    obtain ⟨c, e₁, hentry, hfinish⟩ := reap_eq_some hok
    have hdrifted := Drains.of_drifts h (drifts_of_takeOrWait hentry)
    exact hdrifted.trans (drains_of_finish hdrifted.settled hfinish)

/-- The reads that were taken before are passed on, and what is taken beside them is taken
from the engine. -/
theorem drains_of_collect {rounds : Nat} {taken done : List Completion} (h : e.Settled)
    (hok : collect rounds taken e = (.ok done, e')) :
    ∃ more, done = taken.reverse ++ more ∧ e.Drains more e' := by
  induction rounds generalizing taken e with
  | zero =>
    cases hok
    exact ⟨[], (List.append_nil _).symm, .refl h⟩
  | succ rounds ih =>
    rw [collect] at hok
    rcases hreap : e.reap .nonBlocking with ⟨err | (_ | completion), e₁⟩
    · rw [hreap] at hok
      cases hok
    · rw [hreap] at hok
      cases hok
      exact ⟨[], (List.append_nil _).symm, drains_of_reap h hreap⟩
    · rw [hreap] at hok
      have hfirst := drains_of_reap h hreap
      obtain ⟨more, hdone, hmore⟩ := ih hfirst.settled hok
      refine ⟨completion :: more, ?_, hfirst.trans hmore⟩
      rw [hdone, List.reverse_cons, List.append_assoc]
      rfl

/-- A drain that succeeds has taken back the reads that it answers. There are as many reads
less in flight, and the blocks of these reads are held and no others. -/
theorem drains_of_ok {mode : ReapMode} {done : List Completion} (h : e.Settled)
    (hok : e.drain mode = (.ok done, e')) : e.Drains done e' := by
  rw [drain] at hok
  rcases hreap : e.reap mode with ⟨err | (_ | completion), e₁⟩
  · rw [hreap] at hok
    cases hok
  · rw [hreap] at hok
    cases hok
    exact drains_of_reap h hreap
  · rw [hreap] at hok
    have hfirst := drains_of_reap h hreap
    obtain ⟨more, rfl, hmore⟩ := drains_of_collect hfirst.settled hok
    exact hfirst.trans hmore

/-- A reap that waits for reads in flight does not come back without one. After its wait it
looks once more, and a queue that is still empty then is an error of its own. -/
theorem takeOrWait_ne_none (h : 0 < e.inFlight) : e.takeOrWait .blocking ≠ (.ok none, e') := by
  rw [takeOrWait]
  rcases htake : e.take with ⟨err | (_ | c), e₁⟩
  · simp
  · -- nothing was ready, so it waits, and looks a second time
    have hflight : 0 < e₁.inFlight := (inFlight_of_drifts (drifts_of_take htake)).symm ▸ h
    simp only [hflight, and_self, if_true]
    rcases e₁.wait with ⟨err | _, e₂⟩
    · simp
    · rcases hagain : e₂.take with ⟨err | (_ | c), e₃⟩
      · simp [hagain]
      · simp [hagain]
      · simp [hagain]
  · simp

end Engine

end RingRead
