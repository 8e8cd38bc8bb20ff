import RingRead.Proofs.Engine.Upkeep
import RingRead.Proofs.Pool.Growth
import RingRead.Proofs.Session.Occupancy

/-!
# The footprint of a run

Between a drain and the release of what it brought, blocks are held that are neither on the
ring nor on the free stack. A session gives each of them back before it tops up again. So on
an engine with an empty pool the blocks in use after a round are those of the reads in
flight, and a batch puts no more of them in use than the session means to have in flight
(`Session.Footprint`).

* **A step.** Reaping gives blocks back and raises no peak (`Session.Footprint.reapReady`).
  The first batch is the largest: it is of all that is meant to be in flight when no read is
  completed, and the peak stays what it is then (`Session.Footprint.topUp`).
* **A run.** `Run.stopping_of_finished` carries what every round keeps to the point where a
  run stops. The blocks of the pool are as many as the reads of the first batch, and that
  number knows nothing of the kernel (`Engine.poolBlocks_of_finished`).
-/

namespace RingRead

/-! ## Pools

What is known about the books of a pool is carried over to the pool of an engine, through
the operations that an engine makes use of. -/

namespace Pool

/-- As long as no block is reported as damaged, the books stay as they are about those that
were. Each operation of a pool that succeeds is an event of its inventory. -/
theorem kept_frugal (damaged : List UInt32) :
    Kept fun p => Inventory.Frugal { pool := p, damaged } where
  receive {p} h transfer :=
    show (Inventory.step { pool := p, damaged } (.receive transfer)).Frugal from h.step trivial
  reclaim {p tag} h _ _ :=
    show (Inventory.step { pool := p, damaged } (.call (.reclaim tag))).Frugal from h.step trivial
  release {p t} h _ _ :=
    show (Inventory.step { pool := p, damaged } (.call (.release t))).Frugal from h.step trivial
  allocate h _ hok := by
    have hallocated := h.allocate
    simpa [Inventory.step, undergo, reported?, hok] using hallocated
  loan {p t} h _ hheld := by
    refine ⟨h.toBalanced.loan hheld, ?_⟩
    have hsize : (p.loan t).2.size = p.size := size_modify ..
    rw [hsize]
    exact h.size_le

/-- Every pool is frugal, with the damaged blocks that were left out. -/
theorem invariant_frugal :
    Invariant fun p => ∃ damaged, Inventory.Frugal { pool := p, damaged } where
  receive := by
    rintro p ⟨damaged, h⟩ transfer
    exact ⟨damaged, (kept_frugal damaged).receive h transfer⟩
  reclaim := by
    rintro p tag ⟨damaged, h⟩ hsound hloaned
    exact ⟨damaged, (kept_frugal damaged).reclaim h hsound hloaned⟩
  release := by
    rintro p t ⟨damaged, h⟩ hsound hcheck
    exact ⟨damaged, (kept_frugal damaged).release h hsound hcheck⟩
  allocate := by
    rintro p t p' ⟨damaged, h⟩ hsound hok
    exact ⟨damaged, (kept_frugal damaged).allocate h hsound hok⟩
  loan := by
    rintro p t ⟨damaged, h⟩ hsound hheld
    exact ⟨damaged, (kept_frugal damaged).loan h hsound hheld⟩
  -- a block that is left out is a damaged one from then on, hence the quantifier
  leave := by
    rintro p n rest ⟨damaged, h⟩ hfree
    exact ⟨n :: damaged, h.toBalanced.allocate_damaged hfree, Nat.le_succ_of_le h.size_le⟩
  refuse := by
    rintro p ⟨damaged, h⟩
    exact ⟨damaged, h.toBalanced.of_state_eq (fun _ => rfl) rfl rfl, h.size_le⟩

/-- No block that comes back raises the peak. -/
theorem kept_peakInUse (peak : Nat) : KeptOnReturn fun p => p.stats.peakInUse = peak where
  receive h _ := h
  reclaim h _ _ := by
    rw [stats_reclaim]
    exact h
  release h _ hcheck := by
    rw [stats_release hcheck]
    exact h

end Pool

/-- A pool without blocks is frugal, and was never in use. Whatever its engine has done
before has made no block. -/
theorem Engine.Reachable.frugal_of_empty {κ : Type} [Kernel κ] {e : Engine κ} (h : e.Reachable)
    (hempty : e.pool.size = 0) :
    Inventory.Frugal { pool := e.pool } ∧ e.pool.stats.peakInUse = 0 ∧ e.loaned = 0 ∧
      ∀ id, e.pool.state? id = none := by
  obtain ⟨damaged, hfrugal⟩ : ∃ damaged, Inventory.Frugal { pool := e.pool, damaged } :=
    h.of_invariant Pool.invariant_frugal fun hcreate => ⟨[], Inventory.frugal_create hcreate⟩
  have hall := hfrugal.toBalanced.size_eq
  have hpeak := hfrugal.peakInUse_le
  have hinUse := hfrugal.inUse_eq
  dsimp only at hall hpeak hinUse
  obtain rfl : damaged = [] := List.length_eq_zero_iff.mp (by omega)
  refine ⟨hfrugal, by omega, ?_, fun id => ?_⟩
  · change e.pool.count .loaned = 0
    omega
  · refine Option.not_isSome_iff_eq_none.mp fun hsome => ?_
    have hlt := Pool.state?_isSome_iff.mp hsome
    omega

/-- A configuration that breaks no rule does not limit the reads to none. -/
theorem SessionConfig.limit_ne_zero {config : SessionConfig} {limit : Nat}
    (hfault : config.fault? = none) (hlimit : config.maxReads = some limit) : limit ≠ 0 := by
  rintro rfl
  simp only [fault?, hlimit, if_true] at hfault
  split at hfault
  · cases hfault
  · split at hfault <;> cases hfault

namespace Session

variable {κ π : Type} {target : ReadTarget} {config : SessionConfig} {depth : UInt32}
  {s s' : Session κ π} {P : Pool → Prop}

/-! ## Sessions

In a round the number of blocks in use goes down and up again. It is highest after the
batch, and there it is the number of reads that are meant to be in flight. -/

/-- A session that is stopped by the read limit has one, and has completed so many reads. -/
theorem limit_of_stopReason {now : Nat} {stop : Bool}
    (hstop : s.stopReason? config now stop = some .readLimit) :
    ∃ limit, config.maxReads = some limit ∧ limit ≤ s.meter.totalReads := by
  rcases hlimit : config.maxReads with _ | limit
  · simp only [stopReason?, hlimit, Option.any_none, Bool.false_eq_true, if_false] at hstop
    split at hstop
    · cases hstop
    · split at hstop <;> cases hstop
  · exact ⟨limit, rfl, le_of_stopReason hlimit hstop⟩

variable [Kernel κ]

/-- A session reaps with calls that bring blocks back. -/
theorem kept_reapReady (h : Pool.KeptOnReturn P) (hp : P s.engine.pool)
    (hsound : s.engine.pool.Sound) : P s.reapReady.2.engine.pool := by
  suffices hboth : s.reapReady.2.engine.pool.Sound ∧ P s.reapReady.2.engine.pool from hboth.2
  apply reapReady_invariant (P := fun e => e.pool.Sound ∧ P e.pool)
  · rintro e ⟨he, hpe⟩ mode
    exact ⟨Engine.sound_of_reap he rfl, Engine.kept_reap h hpe he mode⟩
  · rintro e ⟨he, hpe⟩ token
    exact ⟨(Engine.lends_release he token).sound, Engine.kept_release h hpe he token⟩
  · exact ⟨hsound, hp⟩

variable [OffsetPolicy π]

theorem kept_topUp (h : Pool.Kept P) (hp : P s.engine.pool) (hsound : s.engine.pool.Sound)
    (hok : s.topUp target config depth = (.ok (), s')) : P s'.engine.pool := by
  rcases (topUp_ok hok).2 with ⟨-, rfl⟩ | ⟨-, count, engine, policy, hsubmit, rfl⟩
  · exact hp
  · have hsubmitted := Engine.kept_submitReads h hp hsound (congrArg Prod.fst hsubmit)
    rw [hsubmit] at hsubmitted
    exact hsubmitted

/-- The pool after a batch was submitted: all that was wanted was loaned, and bytes arrived
then. -/
theorem Steady.pool_topUp (h : s.Steady config depth) (hwant : s.wanted config depth ≠ 0)
    (hok : s.topUp target config depth = (.ok (), s')) :
    let loan := Pool.loanReads (target.blocks s.engine.blockSize) (s.wanted config depth).toNat
      s.engine.pool s.policy
    loan.1 = .ok () ∧ ∃ transfers, s'.engine.pool = loan.2.2.1.receiveAll transfers := by
  rcases (topUp_ok hok).2 with ⟨hnone, -⟩ | ⟨-, count, engine, policy, hsubmit, rfl⟩
  · exact absurd hnone hwant
  have hbatch : min (s.wanted config depth) s.engine.ring.available = s.wanted config depth :=
    h.batch_eq
  by_cases hblocks : target.blocks s.engine.blockSize = 0
  · rw [Engine.submitReads_of_small (hbatch.trans_ne hwant) hblocks] at hsubmit
    cases hsubmit
  have hpool := Engine.pool_of_submitReads_ok h.settled.balanced.sound hbatch hwant hblocks
    (congrArg Prod.fst hsubmit)
  rw [hsubmit] at hpool
  exact hpool

/-- A session as it is between the steps of a run on an engine with an empty pool. No block
is held, so those in use belong to reads in flight. They were never more than after the
first batch. -/
structure Footprint (config : SessionConfig) (depth : UInt32) (s : Session κ π) : Prop
    extends s.Steady config depth where
  frugal : Inventory.Frugal { pool := s.engine.pool }
  not_held : ∀ id, s.engine.pool.state? id ≠ some .held
  peakInUse_eq : s.engine.pool.stats.peakInUse =
    if s.accounted = 0 then 0 else occupancy config depth 0

namespace Footprint

omit [Kernel κ] [OffsetPolicy π] in
/-- The blocks in use are those of the reads in flight. -/
theorem inUse_eq (h : s.Footprint config depth) :
    s.engine.pool.stats.inUse = s.engine.inFlight.toNat := by
  have hheld : s.engine.pool.Lists .held [] := ⟨List.nodup_nil, by simpa using h.not_held⟩
  have hinUse := h.frugal.inUse_eq
  rw [hheld.count_eq, List.length_nil, Nat.zero_add] at hinUse
  exact hinUse.trans h.settled.exact.symm

omit [OffsetPolicy π] in
/-- Reaping keeps the footprint: what a drain has brought is given back in the same step. -/
theorem reapReady (h : s.Footprint config depth) (hok : s.reapReady = (.ok (), s')) :
    s'.Footprint config depth := by
  obtain ⟨done, engine, -, hdrains, hreleases⟩ := reapReady_ok h.settled hok
  have hsound := h.settled.balanced.sound
  have hfrugal := kept_reapReady (Pool.kept_frugal []).toKeptOnReturn h.frugal hsound
  have hpeak := kept_reapReady (Pool.kept_peakInUse _) h.peakInUse_eq hsound
  rw [hok] at hfrugal hpeak
  refine ⟨h.toSteady.reapReady hok, hfrugal, fun id hid => ?_, ?_⟩
  · exact h.not_held id ((hdrains.collects.held_iff hreleases.givesBack id).mp hid)
  · rw [accounted_reapReady h.settled hok]
    exact hpeak

/-- A batch makes the blocks in use as many as the reads that are meant to be in flight. -/
theorem peakInUse_topUp (h : s.Footprint config depth) (hwant : s.wanted config depth ≠ 0)
    (hok : s.topUp target config depth = (.ok (), s')) :
    s'.engine.pool.stats.peakInUse =
      max s.engine.pool.stats.peakInUse (occupancy config depth s.meter.totalReads) := by
  have hoccupied := inFlight_add_wanted h.inFlight_le h.limited
  obtain ⟨hcomplete, transfers, hpool⟩ := h.toSteady.pool_topUp hwant hok
  obtain ⟨-, hpeak⟩ := Pool.stats_loanReads h.frugal.inUse_le hcomplete
  dsimp only at hpeak
  rw [hpool, Pool.stats_receiveAll, hpeak, h.inUse_eq, hoccupied]

/-- Topping up keeps the footprint. The first batch makes the peak, and no later one gets
past it. -/
theorem topUp (h : s.Footprint config depth) (hok : s.topUp target config depth = (.ok (), s')) :
    s'.Footprint config depth := by
  have hfrugal := kept_topUp (Pool.kept_frugal []) h.frugal h.settled.balanced.sound hok
  have hadvances := advances_topUp h.settled hok
  refine ⟨h.toSteady.topUp hok, hfrugal, fun id hid => ?_, ?_⟩
  · exact h.not_held id ((hadvances.held_iff id).mp hid)
  · by_cases hwant : s.wanted config depth = 0
    · rw [topUp_of_le config h.inFlight_le, if_pos hwant] at hok
      cases hok
      exact h.peakInUse_eq
    · obtain ⟨hmeter, hflight⟩ := h.toSteady.inFlight_topUp hok
      have hpos : (s.wanted config depth).toNat ≠ 0 :=
        fun hzero => hwant (UInt32.toNat_inj.mp hzero)
      have haccounted : s'.accounted ≠ 0 := by
        rw [accounted]
        omega
      rw [h.peakInUse_topUp hwant hok, if_neg haccounted, h.peakInUse_eq]
      split
      · next hnone =>
        -- the first batch
        rw [accounted] at hnone
        rw [Nat.eq_zero_of_add_eq_zero_right hnone, Nat.zero_max]
      · exact Nat.max_eq_left (occupancy_le ..)

omit [Kernel κ] [OffsetPolicy π] in
/-- A look at the clock concerns neither blocks nor reads in flight. -/
theorem tick (h : s.Footprint config depth) (now : Nat) :
    (s.tick now).2.Footprint config depth := by
  refine ⟨h.toSteady.tick now, h.frugal, h.not_held, ?_⟩
  have haccounted : (s.tick now).2.accounted = s.accounted :=
    congrArg (· + s.engine.inFlight.toNat) (s.totalReads_tick now)
  rw [haccounted]
  exact h.peakInUse_eq

omit [Kernel κ] [OffsetPolicy π] in
/-- The pool has as many blocks as were in use after the first batch. -/
theorem size_eq (h : s.Footprint config depth) :
    s.engine.pool.size = s.engine.pool.stats.peakInUse := by
  have hle := h.frugal.size_le
  have hge := h.frugal.peakInUse_le
  dsimp only [List.length_nil] at hle hge
  omega

end Footprint

omit [OffsetPolicy π] in
/-- What reaping keeps, waiting for the reads in flight keeps. -/
theorem kept_shutDownWithin {P : Session κ π → Prop} {rounds : Nat}
    (hreap : ∀ {s s' : Session κ π}, P s → s.reapReady = (.ok (), s') → P s') (h : P s)
    (hok : shutDownWithin rounds s = (.ok (), s')) : P s' := by
  induction rounds generalizing s with
  | zero =>
    cases hok
    exact h
  | succ rounds ih =>
    rw [shutDownWithin] at hok
    split at hok
    · cases hok
      exact h
    · rcases hready : s.reapReady with ⟨abort | _, s₁⟩
      · rw [hready] at hok
        cases hok
      · rw [hready] at hok
        exact ih (hreap h hready) hok

end Session

/-! ## Runs

A run that has read at all has made a first batch, and this batch is as large as the depth
and the limit allow. After it the pool has all the blocks that it will ever have. -/

variable {κ π : Type} [Kernel κ] [OffsetPolicy π] {target : ReadTarget} {config : SessionConfig}
  {around : Surroundings π} {summary : RunSummary}

/-- A run that finishes stops at a session for which all holds that its rounds keep. It
waits for the reads in flight, and takes the summary of what is there then. -/
theorem Run.stopping_of_finished {P : Session κ π → Prop} {depth : UInt32} {allowed reading : Nat}
    {reports : List IntervalReport} {rounds : Nat} {s : Session κ π}
    (hround : ∀ {s reaped s' : Session κ π}, P s → s.reapReady = (.ok (), reaped) →
      reaped.topUp target config depth = (.ok (), s') → ∀ now, P (s'.tick now).2)
    (h : P s) (hfinished :
      (Run.loop around target config depth allowed reading reports rounds s).outcome =
        .finished summary) :
    ∃ stopping last now reason reading', P stopping ∧
      stopping.stopReason? config (around.clock reading')
        (around.stop stopping.policy reading') = some reason ∧
      stopping.shutDown = (.ok (), last) ∧ summary = last.summary depth now reason ∧
      (Run.loop around target config depth allowed reading reports rounds s).engine =
        last.engine := by
  induction allowed generalizing reading reports rounds s with
  | zero => cases hfinished
  | succ allowed ih =>
    rw [Run.loop_succ] at hfinished ⊢
    rcases hstop : s.stopReason? config (around.clock reading) (around.stop s.policy reading)
      with _ | reason
    · rw [hstop] at hfinished
      dsimp only at hfinished ⊢
      rcases hexchange : s.exchange target config depth with ⟨abort | _, s'⟩
      · rw [hexchange] at hfinished
        exact absurd hfinished (RunOutcome.ofAbort_ne_finished abort summary)
      · rw [hexchange] at hfinished
        obtain ⟨reaped, hreap, htop⟩ := Session.exchange_ok hexchange
        -- the property is carried over the round, whatever time it is
        exact ih (hround h hreap htop _) hfinished
    · rw [hstop] at hfinished
      dsimp only at hfinished ⊢
      rcases hshut : s.shutDown with ⟨abort | _, last⟩
      · rw [hshut] at hfinished
        exact absurd hfinished (RunOutcome.ofAbort_ne_finished abort summary)
      · rw [hshut] at hfinished
        exact ⟨s, last, _, reason, reading, h, hstop, hshut,
          (RunOutcome.finished.inj hfinished).symm, rfl⟩

namespace Engine

variable {e : Engine κ} {policy : π} {allowed : Nat}

@[inherit_doc Run.stopping_of_finished]
theorem stopping_of_finished {P : Session κ π → Prop}
    (hround : ∀ {s reaped s' : Session κ π}, P s → s.reapReady = (.ok (), reaped) →
      reaped.topUp target config (Session.depth config e) = (.ok (), s') →
      ∀ now, P (s'.tick now).2)
    (h : P (e.session config policy around))
    (hfinished : (e.run target config policy around allowed).outcome = .finished summary) :
    config.fault? = none ∧ ∃ stopping last now reason reading, P stopping ∧
      stopping.stopReason? config (around.clock reading)
        (around.stop stopping.policy reading) = some reason ∧
      stopping.shutDown = (.ok (), last) ∧
      summary = last.summary (Session.depth config e) now reason ∧
      (e.run target config policy around allowed).engine = last.engine := by
  rw [run] at hfinished ⊢
  rcases hfault : config.fault? with _ | fault
  · rw [hfault] at hfinished
    exact ⟨rfl, Run.stopping_of_finished hround h hfinished⟩
  · rw [hfault] at hfinished
    cases hfinished

omit [OffsetPolicy π] in
/-- A run on an engine with an empty pool starts with a session that keeps its footprint. -/
theorem footprint_session (h : e.Reachable) (hempty : e.pool.size = 0) (config : SessionConfig)
    (policy : π) (around : Surroundings π) :
    (e.session config policy around).Footprint config (Session.depth config e) := by
  obtain ⟨hfrugal, hpeak, hloaned, hnone⟩ := h.frugal_of_empty hempty
  have hidle : e.inFlight = 0 :=
    UInt32.toNat_inj.mp (Nat.le_zero.mp (hloaned ▸ h.balanced.inFlight_le_loaned))
  refine ⟨steady_session h hidle hloaned config policy around, hfrugal, fun id => ?_, ?_⟩
  · change e.pool.state? id ≠ some .held
    simp [hnone]
  · rw [accounted_session hidle, if_pos rfl]
    exact hpeak

/-- **The footprint of a run.** Whatever the kernel does, a run on an engine with an empty
pool that finishes leaves as many blocks behind as were in use at most. If it has read at
all, these are as many as the depth, or as the read limit if that is less. So the number
depends on neither the kernel nor the policy, and there are never more blocks than the
depth. -/
theorem poolBlocks_of_finished (h : e.Reachable) (hempty : e.pool.size = 0)
    (hfinished : (e.run target config policy around allowed).outcome = .finished summary) :
    let depth := Session.depth config e
    let pool := (e.run target config policy around allowed).engine.pool
    summary.poolBlocks = pool.size ∧ summary.poolBlocks = pool.stats.peakInUse ∧
      summary.poolBlocks = (if summary.reads = 0 then 0 else
        match config.maxReads with
        | none => depth.toNat
        | some limit => min depth.toNat limit) ∧
      summary.poolBlocks ≤ depth.toNat ∧
      (summary.stoppedBy = .readLimit →
        ∃ limit, config.maxReads = some limit ∧ summary.poolBlocks = min depth.toNat limit) := by
  intro depth pool
  have hround {s reaped s' : Session κ π} (hs : s.Footprint config depth)
      (hreap : s.reapReady = (.ok (), reaped))
      (htop : reaped.topUp target config depth = (.ok (), s')) (now : Nat) :
      (s'.tick now).2.Footprint config depth :=
    ((hs.reapReady hreap).topUp htop).tick now
  obtain ⟨hfault, stopping, last, now, reason, reading, hfootprint, hstop, hshut, rfl, hengine⟩ :=
    stopping_of_finished hround (footprint_session h hempty config policy around) hfinished
  -- the reads that are waited for were accounted for before
  obtain ⟨hlast, haccounted⟩ : last.Footprint config depth ∧ last.accounted = stopping.accounted :=
    Session.kept_shutDownWithin
      (P := fun s => s.Footprint config depth ∧ s.accounted = stopping.accounted)
      (fun hs hreap => ⟨hs.1.reapReady hreap,
        (Session.accounted_reapReady hs.1.settled hreap).trans hs.2⟩)
      ⟨hfootprint, rfl⟩ hshut
  obtain ⟨-, hidle⟩ : stopping.Advances target _ last ∧ _ :=
    Session.advances_shutDownWithin hfootprint.settled (Nat.le_refl _) hshut
  have hreads : last.accounted = last.meter.totalReads :=
    congrArg (last.meter.totalReads + ·) (congrArg UInt32.toNat hidle)
  have hpool : pool = last.engine.pool := congrArg Engine.pool hengine
  have hblocks : last.engine.pool.size =
      if last.meter.totalReads = 0 then 0 else Session.occupancy config depth 0 := by
    rw [hlast.size_eq, hlast.peakInUse_eq, hreads]
  rw [hpool]
  refine ⟨rfl, hlast.size_eq, hblocks, ?_, ?_⟩
  · change last.engine.pool.size ≤ depth.toNat
    rw [hblocks]
    split
    · exact Nat.zero_le _
    · exact Session.occupancy_le_depth config depth 0
  · rintro rfl
    obtain ⟨limit, hlimit, hreached⟩ := Session.limit_of_stopReason hstop
    have hpos : limit ≠ 0 := SessionConfig.limit_ne_zero hfault hlimit
    have hsome : last.meter.totalReads ≠ 0 := by
      rw [← hreads, haccounted, Session.accounted]
      omega
    refine ⟨limit, hlimit, hblocks.trans ?_⟩
    rw [if_neg hsome, Session.occupancy, hlimit]
    rfl

/-- Completions are held back and come in reverse order. Five reads are done with three
blocks. -/
theorem poolBlocks_after_reversal :
    ∃ e₀ : Engine SimulatedKernel,
      create { file := SimulatedKernel.patternedFile 4 8, deferred := true, reversed := true } 4 7
        { blockSize := 8, alignment := 8 } = .ok e₀ ∧
        let run := e₀.run ⟨3, 32⟩ { queueDepth := 3, maxReads := some 5 } ({} : Walker)
          { clock := id } 9
        e₀.pool.size = 0 ∧
          ∃ summary, run.outcome = .finished summary ∧ summary.stoppedBy = .readLimit ∧
            summary.poolBlocks = run.engine.pool.stats.peakInUse ∧
            summary.poolBlocks = min 3 5 := by
  obtain ⟨e₀, hcreate⟩ : ∃ e₀ : Engine SimulatedKernel,
      create { file := SimulatedKernel.patternedFile 4 8, deferred := true, reversed := true } 4 7
        { blockSize := 8, alignment := 8 } = .ok e₀ := ⟨_, rfl⟩
  refine ⟨e₀, hcreate, ?_⟩
  intro run
  have hreachable : e₀.Reachable := .created hcreate
  have hempty : e₀.pool.size = 0 := by
    cases hcreate
    rfl
  have hdepth : Session.depth { queueDepth := 3, maxReads := some 5 } e₀ = 3 := by
    cases hcreate
    decide +kernel
  have hfinished : run.outcome = .finished ⟨3, 8, none, 5, 8, 3, .readLimit⟩ := by
    cases hcreate
    decide +kernel
  clear hcreate
  obtain ⟨-, hpeak, -, -, hlimited⟩ :=
    poolBlocks_of_finished hreachable hempty hfinished
  rw [hdepth] at hlimited
  obtain ⟨limit, hlimit, hblocks⟩ := hlimited rfl
  obtain rfl : 5 = limit := Option.some.inj hlimit
  exact ⟨hempty, _, hfinished, rfl, hpeak, hblocks⟩

end Engine

end RingRead
