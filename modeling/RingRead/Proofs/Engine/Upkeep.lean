import RingRead.Proofs.Engine.Staging

/-!
# What an engine keeps of its pool

An engine uses its pool through five operations, and bytes arrive in between. What these
keep of a pool, the engine keeps.

* **Blocks that come back.** What is kept when a block comes back from loan and when one is
  given back (`Pool.KeptOnReturn`) is kept by reaps, drains and releases, however they end.
* **Operations that succeed.** What is also kept by the allocations and loans that succeed
  (`Pool.Kept`) is kept by submissions that succeed (`Engine.kept_submitReads`).
* **All operations.** A `Pool.Invariant` is also kept when an allocation finds a block
  damaged and leaves it out. It holds of every engine that calls can lead to if it holds of
  a new pool (`Engine.Reachable.of_invariant`), as that all blocks have the configured
  length.
-/

namespace RingRead

namespace Pool

/-- A property of sound pools that is kept when blocks come back and when bytes arrive, in
whatever block. Reaps, drains and releases do nothing else to a pool, so they keep it on any
kernel, also where they fail. -/
structure KeptOnReturn (P : Pool → Prop) : Prop where
  receive : ∀ {p}, P p → ∀ transfer, P (p.receive transfer)
  reclaim : ∀ {p tag}, P p → p.Sound → p.state? tag.toNat = some .loaned → P (p.reclaim tag).2
  release : ∀ {p t}, P p → p.Sound → p.check t = .ok () → P (p.release t).2

/-- A property that all operations of a pool keep when they succeed. Submissions keep it too
then, except where an allocation has failed half way through a batch. -/
structure Kept (P : Pool → Prop) : Prop extends KeptOnReturn P where
  allocate : ∀ {p t p'}, P p → p.Sound → p.allocate = (.ok t, p') → P p'
  loan : ∀ {p t}, P p → p.Sound → p.state? t.id.toNat = some .held → P (p.loan t).2

/-- A property that is also kept when a damaged block is left out, and when the system
refuses to map memory. These are the two things that a failed allocation can do to a pool,
so everything that an engine does keeps it. -/
structure Invariant (P : Pool → Prop) : Prop extends Kept P where
  leave : ∀ {p n rest}, P p → p.free = n :: rest → P { p with free := rest }
  refuse : ∀ {p}, P p → P p.refused

variable {π : Type} [OffsetPolicy π] {P : Pool → Prop} {p : Pool}

theorem KeptOnReturn.receiveAll (h : KeptOnReturn P) (hp : P p) (transfers : List Transfer) :
    P (p.receiveAll transfers) := by
  induction transfers generalizing p with
  | nil => exact hp
  | cons transfer rest ih => exact ih (h.receive hp transfer)

/-- An allocation that fails leaves a damaged block out, or nothing. If the system has
refused, its refusal is used up. -/
theorem Invariant.allocate_error {p' : Pool} {err : Error} (h : Invariant P) (hp : P p)
    (herror : p.allocate = (.error err, p')) : P p' := by
  rcases allocate_error_cases herror with
    ⟨-, -, -, rfl⟩ | ⟨refusal, -, -, -, -, rfl⟩ | ⟨n, rest, hfree, -, -, rfl⟩
  · exact hp
  · exact h.refuse hp
  · exact h.leave hp hfree

/-- Loaning a batch keeps it, if the batch is complete or the property is an invariant. A
batch that is not complete ends with an allocation that fails. -/
theorem Kept.loanReads {blocks : UInt64} {count : Nat} {policy : π} (h : Kept P) (hp : P p)
    (hsound : p.Sound)
    (hends : (loanReads blocks count p policy).1 = .ok () ∨ Invariant P) :
    P (loanReads blocks count p policy).2.2.1 := by
  induction count generalizing p policy with
  | zero => exact hp
  | succ count ih =>
    rcases halloc : p.allocate with ⟨err | t, p'⟩
    · rw [loanReads_of_error halloc] at hends ⊢
      rcases hends with hok | hinvariant
      · cases hok
      · exact hinvariant.allocate_error hp halloc
    · have hallocates := allocates_of_ok hsound halloc
      have hloaned := h.loan (h.allocate hp hsound halloc) hallocates.sound hallocates.held
      rw [loanReads_of_ok halloc] at hends ⊢
      exact ih hloaned hallocates.sound_loan hends

end Pool

namespace Engine

variable {κ π : Type} {P : Pool → Prop} {e e' : Engine κ}

/-! ## Blocks that come back

A reap takes a block from the kernel and may give it up, and a drain does so again and
again. No block is allocated on the way, so of the five operations only two matter, and
bytes that arrive. -/

/-- Between calls only bytes arrive. -/
theorem kept_of_drifts (h : Pool.KeptOnReturn P) (hp : P e.pool) (hdrifts : e.Drifts e') :
    P e'.pool := by
  obtain ⟨kernel, transfers, rfl⟩ := hdrifts
  exact h.receiveAll hp transfers

/-- An entry that is finished brings its block back, and gives it up if the read failed. One
without a block on loan changes nothing. -/
theorem kept_finish (h : Pool.KeptOnReturn P) (hp : P e.pool) (hsound : e.pool.Sound) (c : Cqe) :
    P (e.finish c).2.pool := by
  by_cases hloaned : e.pool.state? c.userData.toNat = some .loaned
  · have hreturned : P (e.returned c).pool := h.reclaim hp hsound hloaned
    rw [finish_of_loaned hsound hloaned]
    cases e.verdict c with
    | error err =>
      exact h.release hreturned (hsound.reclaim hloaned) (check_returned hsound hloaned)
    | ok completion => exact hreturned
  · rw [finish_of_unknown hloaned]
    exact hp

theorem kept_release (h : Pool.KeptOnReturn P) (hp : P e.pool) (hsound : e.pool.Sound)
    (token : Token) : P (e.release token).2.pool := by
  rcases hcheck : e.pool.check token with err | _
  · simp only [release, Pool.release_error hcheck]
    exact hp
  · exact h.release hp hsound hcheck

variable [Kernel κ] [OffsetPolicy π]

theorem kept_reap (h : Pool.KeptOnReturn P) (hp : P e.pool) (hsound : e.pool.Sound)
    (mode : ReapMode) : P (e.reap mode).2.pool := by
  have hdrifts : e.Drifts (e.takeOrWait mode).2 := drifts_of_takeOrWait rfl
  have hlooked := kept_of_drifts h hp hdrifts
  rcases e.reap_looked mode with hsame | ⟨c, hfinished⟩
  · rw [hsame]
    exact hlooked
  · rw [hfinished]
    exact kept_finish h hlooked (sound_of_drifts hsound hdrifts) c

theorem kept_drain (h : Pool.KeptOnReturn P) (hp : P e.pool) (hsound : e.pool.Sound)
    (mode : ReapMode) : P (e.drain mode).2.pool := by
  have hboth := drain_invariant (P := fun e => e.pool.Sound ∧ P e.pool)
    (fun _ h' mode => ⟨sound_of_reap h'.1 rfl, kept_reap h h'.2 h'.1 mode⟩) ⟨hsound, hp⟩ mode
  exact hboth.2

/-! ## Operations that succeed

Most properties of a pool that matter to a session speak of marks and are lost when a
damaged block is found. They are kept as long as the submissions succeed. -/

/-- A submission that succeeds has loaned a complete batch. No allocation has failed on the
way, so nothing has happened that `Kept` says nothing of. -/
theorem kept_submitReads {target : ReadTarget} {requested n : UInt32} {policy : π}
    (h : Pool.Kept P) (hp : P e.pool) (hsound : e.pool.Sound)
    (hok : (e.submitReads target requested policy).1 = .ok n) :
    P (e.submitReads target requested policy).2.1.pool := by
  by_cases hcount : min requested e.ring.available = 0
  · rw [submitReads_of_full hcount]
    exact hp
  by_cases hblocks : target.blocks e.blockSize = 0
  · rw [submitReads_of_small hcount hblocks] at hok
    cases hok
  obtain ⟨hcomplete, transfers, hpool⟩ := pool_of_submitReads_ok hsound rfl hcount hblocks hok
  rw [hpool]
  exact h.receiveAll (h.loanReads hp hsound (Or.inl hcomplete)) transfers

/-! ## All operations

A property that failed allocations keep, too, is kept by every call. If it holds of new
pools, then it holds of every pool that a program can come to have. -/

/-- However a submission ends, it has loaned a part of a batch. What ended it, if it was an
allocation, is one of the two things that an invariant is kept by. -/
theorem invariant_submitReads (h : Pool.Invariant P) (hp : P e.pool) (hsound : e.pool.Sound)
    (target : ReadTarget) (requested : UInt32) (policy : π) :
    P (e.submitReads target requested policy).2.1.pool := by
  have hstaged (count : UInt32) : P (e.staged target count policy).pool :=
    h.loanReads hp hsound (Or.inr h)
  rcases submitReads_cases hsound target requested policy with
    hsame | ⟨-, -, hsame | ⟨-, hhanded⟩⟩
  · rw [hsame]
    exact hp
  · rw [hsame]
    exact hstaged _
  · obtain ⟨-, inFlight, hengine⟩ := e.handOver_eq target (min requested e.ring.available) policy
    have hsubmit : (e.submitReads target requested policy).2.1 = _ :=
      (congrArg Prod.snd hhanded).trans hengine
    rw [hsubmit]
    exact h.receiveAll (hstaged _) _

/-- Every call is made of operations that keep it. -/
theorem invariant_perform (h : Pool.Invariant P) (hp : P e.pool) (hsound : e.pool.Sound)
    (call : Call) : P (e.perform call).pool := by
  cases call with
  | submitReads target requested policy =>
    exact invariant_submitReads h hp hsound target requested policy
  | reap mode => exact kept_reap h.toKeptOnReturn hp hsound mode
  | drain mode => exact kept_drain h.toKeptOnReturn hp hsound mode
  | release token => exact kept_release h.toKeptOnReturn hp hsound token

/-- An invariant that holds of new pools holds of the pool of every engine that calls lead
to. -/
theorem Reachable.of_invariant (h : Pool.Invariant P)
    (hnew : ∀ {serial config mappings p}, Pool.create serial config mappings = .ok p → P p)
    (he : e.Reachable) : P e.pool := by
  induction he with
  | created hcreate => exact hnew (create_eq_ok hcreate).1
  | performed he call ih => exact invariant_perform h ih he.balanced.sound call
  | drifted _ hdrifts ih => exact kept_of_drifts h.toKeptOnReturn ih hdrifts

/-! ## Lengths of blocks

The first use of the above: what is written to a block, by whomever, is cut to its length,
and a new block has the length that was configured. -/

/-- No operation of a pool changes the length of a block, not even one that fails. So all
blocks of an engine have the configured size. -/
theorem invariant_uniform : Pool.Invariant Pool.Uniform where
  receive h transfer := h.receiveAll [transfer]
  allocate h _ hok := by
    have hallocated := h.allocate
    rw [hok] at hallocated
    exact hallocated
  loan h _ _ := h.modify _ fun _ => rfl
  reclaim h _ hloaned := by
    rw [Pool.reclaim, if_pos hloaned]
    exact h.modify _ fun _ => rfl
  release h _ _ := h.release _
  leave h _ := h
  refuse h := h

/-- All blocks of an engine have the size that it was created with. -/
theorem Reachable.uniform (h : e.Reachable) : e.pool.Uniform :=
  h.of_invariant invariant_uniform fun hcreate => (Pool.intact_create hcreate).uniform

end Engine

end RingRead
