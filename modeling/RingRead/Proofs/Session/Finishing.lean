import Mathlib.Algebra.Order.Floor.Div
import RingRead.Proofs.Session.Footprint
import RingRead.Proofs.Simulation.Emptying

/-!
# Runs that reach the read limit

On a simulated kernel that withholds nothing, a run with a read limit ends. A blocking drain
takes all reads in flight, so each round starts a new batch with an empty ring. The batches
are as large as the depth but for the last one, and one more round takes the last one back.

* **A round.** `Session.Undisturbed` is what the rounds keep. Reaping takes everything
  (`Session.Undisturbed.reapReady`), and topping up succeeds as long as the pool has room
  for the batch (`Session.Undisturbed.topUp`). Each block that comes back makes room for
  another, so if there is room for the first batch there is for every later one
  (`Session.room_reapReady`).
* **A run.** `Run.loop_to_limit` counts the rounds that are left, by how many batches the
  reads make that are not accounted for. `Engine.finished_at_limit` does so from the start.
-/

namespace RingRead

/-- Blocks that come back are as many as before, and no memory is asked for meanwhile. -/
theorem Pool.kept_supply (size : Nat) (mappings : MappingAnswers) :
    KeptOnReturn fun p => p.size = size ∧ p.mappings = mappings where
  receive h _ := ⟨(size_receive ..).trans h.1, h.2⟩
  reclaim h _ hloaned := ⟨(size_reclaim hloaned).trans h.1, (mappings_reclaim ..).trans h.2⟩
  release h _ hcheck := ⟨(size_release hcheck).trans h.1, (mappings_release ..).trans h.2⟩

/-! ## Engines

What a run finds when it starts: an engine that has been used and is at rest again, and a
target that its kernel can read. With these, a submission has only one way to fail. -/

namespace Engine

variable {π : Type} [OffsetPolicy π] {e e' : Engine SimulatedKernel} {n : UInt32}
variable {reads : List Read} {target : ReadTarget} {policy : π}

/-- An engine with no read outstanding and no block on loan, whose kernel withholds nothing
and was told no results. Waits may be interrupted, and completions deferred or reversed. -/
structure Idle (e : Engine SimulatedKernel) : Prop where
  consistent : e.Consistent e.capacity []
  healthy : e.Healthy
  loaned_eq : e.loaned = 0

/-- A target with a whole block that lies in the kernel's file, on an engine whose blocks
are no longer than a result can say. -/
structure Admits (e : Engine SimulatedKernel) (target : ReadTarget) : Prop where
  blockSize_lt : e.blockSize < 2 ^ 31
  blockSize_le : e.blockSize ≤ target.size.toNat
  size_le : target.size.toNat ≤ e.ring.kernel.file.size

theorem Admits.of_eq (h : e.Admits target) (hsize : e'.blockSize = e.blockSize)
    (hfile : e'.ring.kernel.file = e.ring.kernel.file) : e'.Admits target := by
  refine ⟨?_, ?_, ?_⟩
  · rw [hsize]
    exact h.blockSize_lt
  · rw [hsize]
    exact h.blockSize_le
  · rw [hfile]
    exact h.size_le

/-- With no read outstanding, what is done to the pool alone keeps an engine in step with
its kernel. -/
theorem Consistent.of_ring_eq (h : e.Consistent n []) (hring : e'.ring = e.ring)
    (hintact : e'.pool.Intact) : e'.Consistent n [] := by
  obtain ⟨ring, pool⟩ := e'
  obtain rfl : ring = e.ring := hring
  refine ⟨h.layout, h.queues, h.acceptLimit_eq, hintact, List.nodup_nil, nofun, ?_, h.inFlight_eq,
    Nat.zero_le _⟩
  rw [h.queued_eq_nil]
  exact List.Forall₂.nil

/-- With an empty queue, a kernel that withholds nothing and was told no results is
healthy. -/
theorem Consistent.healthy (h : e.Consistent n []) (hinjected : e.ring.kernel.injected = [])
    (hstalled : e.ring.kernel.stalled = false) : e.Healthy := by
  refine ⟨hinjected, hstalled, ?_⟩
  rw [h.queued_eq_nil]
  exact nofun

/-- A batch that is handed over does not fail for want of blocks: they are all there by
then. -/
theorem handOver_ne_short (e : Engine SimulatedKernel) (count tail : UInt32) {p p' : Pool}
    {shortage : Error} (h : p.Short p' shortage) : (e.handOver count tail).1 ≠ .error shortage := by
  rw [handOver]
  dsimp only
  rcases ({ e with ring := e.ring.publishTail tail } : Engine SimulatedKernel).enter count 0 0
    with ⟨err | accepted, e₁⟩
  · rcases h with ⟨rfl, -⟩ | ⟨source, -, rfl⟩
    · simp
    · simp
  · dsimp only
    split
    · simp
    · rcases h with ⟨rfl, -⟩ | ⟨source, -, rfl⟩
      · simp
      · simp

/-- A batch for which there are slots is submitted if there is room for it in the pool, and
fails with the shortage of the pool if there is not. -/
theorem Consistent.submitReads_answer {requested : UInt32} (h : e.Consistent n reads)
    (hblocks : target.blocks e.blockSize ≠ 0) (hne : requested ≠ 0)
    (hfits : min requested e.ring.available = requested) (policy : π) :
    (e.submitReads target requested policy).1 = .ok requested ∧ requested.toNat ≤ e.pool.room ∨
      (e.submitReads target requested policy).1 = .error e.pool.shortage ∧
        e.pool.room < requested.toNat := by
  have hsubmit := submitReads_of_room h.intact.toSound hfits hne hblocks policy
  rcases h.intact.marked.loanReads_cases h.intact.toSound (target.blocks e.blockSize)
    requested.toNat policy with ⟨hok, hroom⟩ | ⟨herror, hroom⟩
  · rw [hok] at hsubmit
    dsimp only at hsubmit
    obtain ⟨reads', houtcome, -⟩ := submitReads_outcome h target requested policy
    rw [hfits] at houtcome
    generalize hanswer : (e.submitReads target requested policy).1 = answer at houtcome hsubmit ⊢
    generalize (e.submitReads target requested policy).2.1 = e₁ at houtcome hsubmit
    refine Or.inl ⟨?_, hroom⟩
    cases houtcome with
    | idle hzero => exact absurd hzero hne
    | small hnone => exact absurd hnone hblocks
    | exhausted hshort =>
      exact absurd (congrArg Prod.fst hsubmit.symm) (handOver_ne_short _ _ _ hshort)
    | submitted => rfl
  · rw [herror] at hsubmit
    exact Or.inr ⟨congrArg Prod.fst hsubmit, hroom⟩

end Engine

/-- Whatever an engine was used for, it is idle when nothing is in flight, no block is on
loan and no result is left that was given in advance. -/
theorem Ledger.idle_of_run {kernel : SimulatedKernel} {capacity serial : UInt32}
    {config : PoolConfig} {mappings : MappingAnswers} {e : Engine SimulatedKernel}
    (hcreate : Engine.create kernel capacity serial config mappings = .ok e)
    (hlimit : kernel.acceptLimit = none) (hpending : kernel.pending = [])
    (hstalled : kernel.stalled = false) (start : UInt32) (events : List Event) :
    let l := (opening e start).run events
    l.engine.inFlight = 0 → l.engine.loaned = 0 → l.engine.ring.kernel.injected = [] →
      l.engine.Idle := by
  intro l hidle hloaned hinjected
  obtain ⟨hopening, hleads⟩ := tracks_opening hcreate hlimit hpending start
  have htracks : l.Tracks (opening e start).engine e.capacity := tracks_run hopening events
  have hconsistent := htracks.consistent
  rw [hconsistent.inFlight_eq_zero_iff.mp hidle] at hconsistent
  refine ⟨?_, hconsistent.healthy hinjected ?_, hloaned⟩
  · rw [hconsistent.capacity_eq]
    exact hconsistent
  · exact htracks.settings.stalled_eq.trans (hleads.settings.stalled_eq.trans hstalled)

/-! ## Rounds

The room in a pool goes down with each batch and up with each drain. With the blocks of the
reads in flight it stays the same, so whether there is room for a batch can be seen from the
start of the run. -/

namespace Session

section Room

variable {κ π : Type} [Kernel κ] {target : ReadTarget} {config : SessionConfig} {depth : UInt32}
  {s s' : Session κ π}

/-- Each read that is reaped makes room for another one, and after as many blocks as before
there is the same shortage. -/
theorem room_reapReady (h : s.engine.Settled) (hok : s.reapReady = (.ok (), s')) :
    s'.engine.pool.room + s'.engine.inFlight.toNat =
        s.engine.pool.room + s.engine.inFlight.toNat ∧
      s'.engine.pool.shortage = s.engine.pool.shortage := by
  obtain ⟨done, engine, -, hdrains, hreleases⟩ := reapReady_ok h hok
  have hsupply := kept_reapReady (Pool.kept_supply _ _) ⟨rfl, rfl⟩ h.balanced.sound
  have hflight := hdrains.inFlight_eq
  have hring : s'.engine.inFlight = engine.inFlight := congrArg Ring.inFlight hreleases.ring_eq
  have hfree := congrArg List.length hreleases.givesBack.free_eq
  simp only [List.length_append, List.length_reverse, List.length_map,
    hdrains.collects.free_eq] at hfree
  rw [hok] at hsupply
  obtain ⟨hsize, hmappings⟩ := hsupply
  rw [Pool.room, Pool.room, Pool.shortage, Pool.shortage, hsize, hmappings, hfree, hring]
  exact ⟨by omega, rfl⟩

variable [OffsetPolicy π]

/-- Each read that is submitted takes room for one. -/
theorem room_topUp (h : s.Steady config depth) (hok : s.topUp target config depth = (.ok (), s')) :
    s'.engine.pool.room + s'.engine.inFlight.toNat =
        s.engine.pool.room + s.engine.inFlight.toNat ∧
      s'.engine.pool.shortage = s.engine.pool.shortage := by
  by_cases hwant : s.wanted config depth = 0
  · rw [topUp_of_le config h.inFlight_le, if_pos hwant] at hok
    cases hok
    exact ⟨rfl, rfl⟩
  · obtain ⟨hcomplete, transfers, hpool⟩ := h.pool_topUp hwant hok
    obtain ⟨hroom, hshortage⟩ := Pool.room_loanReads h.settled.balanced.sound hcomplete
    rw [hpool, Pool.room_receiveAll, Pool.shortage_receiveAll, (h.inFlight_topUp hok).2]
    exact ⟨by omega, hshortage⟩

end Room

/-! ## Sessions on a simulated kernel

A session that nothing disturbs comes to the same point in every round: all reads completed,
an empty ring, and a batch to be made of what is left under the limit. -/

variable {π : Type} {target : ReadTarget} {config : SessionConfig} {depth : UInt32} {start : Pool}
  {s s' : Session SimulatedKernel π}

/-- A session as it is between the steps of a run that nothing disturbs. With the blocks of
the reads in flight, there is always the same room in the pool as when the run has started,
and the same shortage after that. -/
structure Undisturbed (target : ReadTarget) (config : SessionConfig) (depth : UInt32) (start : Pool)
    (s : Session SimulatedKernel π) : Prop extends s.Steady config depth where
  consistent : ∃ reads, s.engine.Consistent s.engine.capacity reads
  healthy : s.engine.Healthy
  unmixed : s.engine.ring.kernel.Unmixed
  admits : s.engine.Admits target
  room_eq : s.engine.pool.room + s.engine.inFlight.toNat = start.room
  shortage_eq : s.engine.pool.shortage = start.shortage

/-- Reaping takes everything that is in flight. Nothing is withheld, so a wait makes the
kernel post all of it, and the drain then finds one completion after the other. -/
theorem Undisturbed.reapReady (h : s.Undisturbed target config depth start) :
    ∃ s', s.reapReady = (.ok (), s') ∧ s'.Undisturbed target config depth start ∧
      s'.engine.inFlight = 0 ∧ s'.meter.totalReads = s.accounted := by
  obtain ⟨reads, hconsistent⟩ := h.consistent
  obtain ⟨done, engine, hdrain, hcarries⟩ := h.healthy.drain_all hconsistent h.unmixed
  obtain ⟨s', hready, hdrains, hreleases⟩ := reapReady_of_drain h.settled hdrain
  have hring : s'.engine.ring = engine.ring := hreleases.ring_eq
  have hintact : s'.engine.pool.Intact := by
    have hreleased := releaseAll_invariant (s := { s with engine }) (P := fun e => e.pool.Intact)
      (fun _ he => Engine.intact_release he) hcarries.consistent.intact done
    have hready' : releaseAll done { s with engine } = (.ok (), s') := by
      rw [← hready, Session.reapReady, hdrain]
    rw [hready'] at hreleased
    exact hreleased
  -- giving the blocks back touches the pool alone
  have hempty : s'.engine.Consistent s.engine.capacity [] :=
    hcarries.consistent.of_ring_eq hring hintact
  have hhealthy := hcarries.healthy h.healthy
  have hidle : s'.engine.inFlight = 0 := hempty.inFlight_eq_zero_iff.mpr rfl
  have hreads : s'.accounted = s'.meter.totalReads :=
    congrArg (s'.meter.totalReads + ·) hempty.inFlight_eq
  refine ⟨s', hready, ⟨h.toSteady.reapReady hready, ⟨[], ?_⟩, ?_, ?_, ?_, ?_, ?_⟩, hidle,
    ?_⟩
  · rw [hempty.capacity_eq]
    exact hempty
  · apply hempty.healthy
    · rw [hring]
      exact hhealthy.injected_eq
    · rw [hring]
      exact hhealthy.stalled_eq
  · exact SimulatedKernel.unmixed_of_nil hempty.queued_eq_nil
  · apply h.admits.of_eq
    · exact congrArg PoolConfig.blockSize
        (hreleases.givesBack.config_eq.trans hdrains.collects.config_eq)
    · rw [hring]
      exact hcarries.keeps.settings.file_eq
  · exact (room_reapReady h.settled hready).1.trans h.room_eq
  · exact (room_reapReady h.settled hready).2.trans h.shortage_eq
  · exact hreads.symm.trans (accounted_reapReady h.settled hready)

/-- With an empty ring all that is meant to be in flight is wanted. -/
theorem Undisturbed.toNat_wanted (h : s.Undisturbed target config depth start)
    (hidle : s.engine.inFlight = 0) :
    (s.wanted config depth).toNat = occupancy config depth s.meter.totalReads := by
  have hwant := inFlight_add_wanted h.inFlight_le h.limited
  rw [hidle, UInt32.toNat_zero, Nat.zero_add] at hwant
  exact hwant

variable [OffsetPolicy π]

/-- What is wanted for an empty ring is submitted if there is room for it in the pool, and
otherwise the run fails. -/
theorem Undisturbed.topUp (h : s.Undisturbed target config depth start)
    (hidle : s.engine.inFlight = 0) :
    (occupancy config depth s.meter.totalReads ≤ start.room ∧
      ∃ s', s.topUp target config depth = (.ok (), s') ∧
        s'.Undisturbed target config depth start) ∨
      (start.room < occupancy config depth s.meter.totalReads ∧
        ∃ s', s.topUp target config depth =
          (.error (.failed ((Failure.ofError start.shortage).within "submitting reads")), s')) := by
  rw [← h.toNat_wanted hidle]
  by_cases hwant : s.wanted config depth = 0
  · rw [hwant, topUp_of_le config h.inFlight_le, if_pos hwant]
    exact Or.inl ⟨Nat.zero_le _, s, rfl, h⟩
  obtain ⟨reads, hconsistent⟩ := h.consistent
  obtain rfl := hconsistent.inFlight_eq_zero_iff.mp hidle
  have hblocks : target.blocks s.engine.blockSize ≠ 0 := by
    have hpos : 8 ≤ s.engine.blockSize := hconsistent.intact.blockSize_bounds.1
    exact ReadTarget.blocks_ne_zero (by omega) h.admits.blockSize_le
  -- with nothing in flight all that the pool could give at the start can be had again
  have hempty : s.engine.pool.room = start.room := by
    have hroom := h.room_eq
    rw [hidle] at hroom
    exact hroom
  rcases hconsistent.submitReads_answer hblocks hwant h.toSteady.batch_eq s.policy with
    ⟨hanswer, hroom⟩ | ⟨hanswer, hroom⟩
  · obtain ⟨reads', -, hconsistent', hkeeps, hhealthy⟩ :=
      Engine.submitReads_outcome hconsistent target (s.wanted config depth) s.policy
    -- there is room: the batch is submitted, and all that is kept has to be carried over
    have hunmixed := Engine.unmixed_submitReads hconsistent h.healthy target
      (s.wanted config depth) s.policy
    rcases hsubmit : s.engine.submitReads target (s.wanted config depth) s.policy
      with ⟨answer, engine, policy⟩
    rw [hsubmit] at hanswer hconsistent' hkeeps hhealthy hunmixed
    obtain rfl : answer = _ := hanswer
    have hok : s.topUp target config depth = (.ok (), { s with engine, policy }) := by
      rw [topUp_of_le config h.inFlight_le, if_neg hwant, hsubmit]
    refine Or.inl ⟨hempty ▸ hroom, _, hok, h.toSteady.topUp hok, ⟨reads', ?_⟩, ?_, hunmixed, ?_, ?_,
      ?_⟩
    · rw [hconsistent'.capacity_eq]
      exact hconsistent'
    · exact hhealthy h.healthy h.admits.blockSize_lt h.admits.size_le
    · exact h.admits.of_eq hkeeps.blockSize_eq hkeeps.settings.file_eq
    · exact (room_topUp h.toSteady hok).1.trans h.room_eq
    · exact (room_topUp h.toSteady hok).2.trans h.shortage_eq
  · refine Or.inr ⟨hempty ▸ hroom, ?_⟩
    rw [h.shortage_eq] at hanswer
    rw [topUp_of_le config h.inFlight_le, if_neg hwant]
    rcases hsubmit : s.engine.submitReads target (s.wanted config depth) s.policy
      with ⟨answer, engine, policy⟩
    rw [hsubmit] at hanswer
    obtain rfl : answer = _ := hanswer
    exact ⟨_, rfl⟩

/-- If there is room for the first batch, a round takes back all reads in flight, and then
submits as many as the depth and the limit admit. -/
theorem Undisturbed.exchange {limit : Nat} (h : s.Undisturbed target config depth start)
    (hlimit : config.maxReads = some limit) (hroom : min depth.toNat limit ≤ start.room) :
    ∃ s', s.exchange target config depth = (.ok (), s') ∧
      s'.Undisturbed target config depth start ∧ s'.meter.totalReads = s.accounted ∧
      s'.engine.inFlight.toNat = min depth.toNat (limit - s.accounted) := by
  obtain ⟨reaped, hreap, hreaped, hidle, hcounted⟩ := h.reapReady
  have hbatch (completed : Nat) :
      occupancy config depth completed = min depth.toNat (limit - completed) := by
    rw [occupancy, hlimit]
  rcases hreaped.topUp hidle with ⟨-, s', htop, htopped⟩ | ⟨hlacks, -⟩
  · obtain ⟨hmeter, -⟩ := hreaped.toSteady.inFlight_topUp htop
    have hcounted' : s'.meter.totalReads = s.accounted := by rw [hmeter, hcounted]
    refine ⟨s', ?_, htopped, hcounted', ?_⟩
    · rw [Session.exchange, hreap]
      exact htop
    · rw [hreaped.toSteady.inFlight_eq_occupancy htop, hbatch, hcounted']
  · -- no batch is larger than the first one
    rw [hbatch] at hlacks
    omega

omit [OffsetPolicy π] in
/-- A look at the clock disturbs nothing. -/
theorem Undisturbed.tick (h : s.Undisturbed target config depth start) (now : Nat) :
    (s.tick now).2.Undisturbed target config depth start :=
  ⟨h.toSteady.tick now, h.consistent, h.healthy, h.unmixed, h.admits, h.room_eq, h.shortage_eq⟩

omit [OffsetPolicy π] in
/-- Without a time limit and a signal, only the read limit stops a session. -/
theorem stopReason?_of_limit {limit now : Nat} (hduration : config.duration = none)
    (hlimit : config.maxReads = some limit) :
    s.stopReason? config now false =
      if limit ≤ s.meter.totalReads then some .readLimit else none := by
  simp [stopReason?, hduration, hlimit]

end Session

/-! ## Runs

The number of rounds is the number of batches, and one more for the last batch to come back.
It is found by induction on the rounds that are allowed, from any point of a run, and then
taken from its start. -/

/-- A first batch, and the batches that the rest makes. -/
theorem ceilDiv_eq_succ {n d : Nat} (hn : 0 < n) (hd : 0 < d) :
    n ⌈/⌉ d = (n - d) ⌈/⌉ d + 1 := by
  rw [Nat.ceilDiv_eq_add_pred_div, Nat.ceilDiv_eq_add_pred_div, ← Nat.add_div_right _ hd]
  rcases Nat.le_total d n with hle | hle
  · rw [Nat.sub_add_cancel hle]
    congr 1
    omega
  · have hone (m : Nat) (hlow : d ≤ m) (hhigh : m < 2 * d) : m / d = 1 :=
      Nat.div_eq_of_lt_le (by omega) (by omega)
    rw [hone _ (by omega) (by omega), hone _ (by omega) (by omega)]

namespace Run

variable {π : Type} [OffsetPolicy π] {around : Surroundings π} {target : ReadTarget}
  {config : SessionConfig} {depth : UInt32} {start : Pool} {limit reading rounds : Nat}
  {reports : List IntervalReport} {s : Session SimulatedKernel π}

/-- Where the limit is reached and nothing is in flight, a run has finished. -/
theorem loop_at_limit (hduration : config.duration = none) (hlimit : config.maxReads = some limit)
    (hnever : ∀ policy reading, around.stop policy reading = false)
    (hidle : s.engine.inFlight = 0) (hreads : s.meter.totalReads = limit) (allowed : Nat) :
    loop around target config depth (allowed + 1) reading reports rounds s =
      ending (.finished (s.summary depth (around.clock (reading + 1)) .readLimit)) s reports
        rounds := by
  rw [loop_succ, hnever, Session.stopReason?_of_limit hduration hlimit, if_pos hreads.ge]
  dsimp only
  rw [Session.shutDown, hidle]
  rfl

/-- From a session that has not reached the limit, a run that nothing disturbs takes a round
for each batch that the reads make that are not accounted for, and one more to take back the
last batch. -/
theorem loop_to_limit {allowed : Nat} (hduration : config.duration = none)
    (hlimit : config.maxReads = some limit)
    (hnever : ∀ policy reading, around.stop policy reading = false) (hdepth : 0 < depth.toNat)
    (hroom : min depth.toNat limit ≤ start.room) (h : s.Undisturbed target config depth start)
    (hreads : s.meter.totalReads < limit)
    (hallowed : (limit - s.accounted) ⌈/⌉ depth.toNat + 1 < allowed) :
    ∃ summary, (loop around target config depth allowed reading reports rounds s).outcome =
        .finished summary ∧ summary.stoppedBy = .readLimit ∧ summary.reads = limit ∧
      (loop around target config depth allowed reading reports rounds s).rounds =
        rounds + ((limit - s.accounted) ⌈/⌉ depth.toNat + 1) := by
  induction allowed generalizing reading reports rounds s with
  | zero => cases hallowed
  | succ allowed ih =>
    have hgoesOn : s.stopReason? config (around.clock reading) (around.stop s.policy reading) =
        none := by
      rw [hnever, Session.stopReason?_of_limit hduration hlimit, if_neg (Nat.not_le.mpr hreads)]
    obtain ⟨s', hexchange, hkept, hcounted, hflight⟩ := h.exchange hlimit hroom
    have hcounted' : (s'.tick (around.clock (reading + 1))).2.meter.totalReads = s.accounted :=
      (s'.totalReads_tick _).trans hcounted
    have hticked := hkept.tick (around.clock (reading + 1))
    have hwithin := h.limited limit hlimit
    rw [loop_succ, hgoesOn]
    dsimp only
    rw [hexchange]
    dsimp only
    rcases hwithin.lt_or_eq with hmore | hdone
    · -- the batch of this round is one of those that were left
      have haccounted : (s'.tick (around.clock (reading + 1))).2.accounted =
          s.accounted + min depth.toNat (limit - s.accounted) := by
        rw [Session.accounted, hcounted']
        exact congrArg (s.accounted + ·) hflight
      have hleft : limit - (s'.tick (around.clock (reading + 1))).2.accounted =
          limit - s.accounted - depth.toNat := by
        omega
      have hbatches := ceilDiv_eq_succ (Nat.sub_pos_of_lt hmore) hdepth
      rw [← hleft] at hbatches
      obtain ⟨summary, houtcome, hstopped, hall, hrounds⟩ :=
        ih hticked (hcounted'.trans_lt hmore) (by omega)
      refine ⟨summary, houtcome, hstopped, hall, ?_⟩
      rw [hrounds]
      omega
    · -- the last batch has come back, and there is none to follow
      rw [hdone, Nat.sub_self] at hflight hallowed ⊢
      rw [zero_ceilDiv] at hallowed ⊢
      obtain ⟨allowed, rfl⟩ := Nat.exists_eq_succ_of_ne_zero (n := allowed) (by omega)
      have hidle : (s'.tick (around.clock (reading + 1))).2.engine.inFlight = 0 :=
        UInt32.toNat_inj.mp (hflight.trans (Nat.min_zero _))
      rw [loop_at_limit hduration hlimit hnever hidle (hcounted'.trans hdone)]
      exact ⟨_, rfl, rfl, hcounted'.trans hdone, rfl⟩

/-- Without room for the first batch the run fails in its first round. -/
theorem loop_of_exhausted {allowed : Nat} (h : s.Undisturbed target config depth start)
    (hstop : s.stopReason? config (around.clock reading) (around.stop s.policy reading) = none)
    (hlacks : start.room < Session.occupancy config depth s.accounted) :
    (loop around target config depth (allowed + 1) reading reports rounds s).outcome =
        .failed ((Failure.ofError start.shortage).within "submitting reads") ∧
      (loop around target config depth (allowed + 1) reading reports rounds s).rounds = rounds := by
  obtain ⟨reaped, hreap, hreaped, hidle, hcounted⟩ := h.reapReady
  rw [← hcounted] at hlacks
  rcases hreaped.topUp hidle with ⟨hfits, -⟩ | ⟨-, s', htop⟩
  · exact absurd hfits (Nat.not_le.mpr hlacks)
  · rw [loop_succ, hstop]
    dsimp only
    rw [Session.exchange, hreap]
    dsimp only
    rw [htop]
    exact ⟨rfl, rfl⟩

end Run

namespace Engine

variable {π : Type} [OffsetPolicy π] {e : Engine SimulatedKernel} {target : ReadTarget}
  {config : SessionConfig} {policy : π} {around : Surroundings π} {limit : Nat}

omit [OffsetPolicy π] in
/-- Nothing disturbs a run on an idle engine whose kernel has the target. -/
theorem Idle.undisturbed (h : e.Idle) (hadmits : e.Admits target) (config : SessionConfig)
    (policy : π) (around : Surroundings π) :
    (e.session config policy around).Undisturbed target config (Session.depth config e)
      e.pool := by
  have hidle : e.inFlight = 0 := h.consistent.inFlight_eq_zero_iff.mpr rfl
  have hbalanced : e.Balanced := by
    refine ⟨h.consistent.intact.toSound, ?_, ?_⟩
    · exact hidle.trans_le UInt32.zero_le
    · rw [hidle]
      exact Nat.zero_le _
  refine ⟨steady_session_of_balanced hbalanced hidle h.loaned_eq config policy around,
    ⟨[], h.consistent⟩, h.healthy, SimulatedKernel.unmixed_of_nil h.consistent.queued_eq_nil,
    hadmits, ?_, rfl⟩
  change e.pool.room + e.inFlight.toNat = e.pool.room
  rw [hidle]
  rfl

/-- **A run that is limited ends.** The engine was created on a kernel that withholds
nothing, and has come to its state through any calls, results given in advance and
interrupted waits. Now it is idle: nothing is in flight, no block is on loan and no given
result is left. Then a run, with a target that the kernel can read and with neither a time
limit nor a signal, is stopped by its read limit. It has completed exactly so many reads,
and as many rounds as they make batches, and one more. The clock, the policy, the number of
waits that are interrupted, and whether completions are deferred or reversed make no
difference.

The one other way to end is that the pool has no room for the first batch. Then the run
fails in its first round, for one of two reasons: the block numbers run out, or the system
refuses to map the memory of a block. -/
theorem finished_at_limit {kernel : SimulatedKernel} {capacity serial start : UInt32}
    {blocks : PoolConfig} {mappings : MappingAnswers} {e₀ : Engine SimulatedKernel}
    {events : List Event}
    (hcreate : create kernel capacity serial blocks mappings = .ok e₀)
    (haccept : kernel.acceptLimit = none) (hpending : kernel.pending = [])
    (hstalled : kernel.stalled = false)
    (hevents : ((Ledger.opening e₀ start).run events).engine = e) (hidle : e.inFlight = 0)
    (hloaned : e.loaned = 0) (hinjected : e.ring.kernel.injected = []) (hadmits : e.Admits target)
    (hfault : config.fault? = none) (hlimit : config.maxReads = some limit)
    (hduration : config.duration = none)
    (hnever : ∀ policy reading, around.stop policy reading = false) (policy : π) :
    let depth := (Session.depth config e).toNat
    let rounds := limit ⌈/⌉ depth + 1
    let run := e.run target config policy around
    (min depth limit ≤ e.pool.room ∧ ∀ allowed > rounds, ∃ summary,
        (run allowed).outcome = .finished summary ∧ summary.stoppedBy = .readLimit ∧
          summary.reads = limit ∧ (run allowed).rounds = rounds) ∨
      (e.pool.room < min depth limit ∧
        (e.pool.shortage = .poolExhausted UInt32.size ∨
          ∃ source, some source ∈ e.pool.mappings ∧ e.pool.shortage = .alloc source) ∧
        ∀ allowed > 0,
          (run allowed).outcome =
              .failed ((Failure.ofError e.pool.shortage).within "submitting reads") ∧
            (run allowed).rounds = 0) := by
  intro depth rounds run
  have h : e.Idle := by
    subst hevents
    exact Ledger.idle_of_run hcreate haccept hpending hstalled start events hidle hloaned hinjected
  have hundisturbed : (e.session config policy around).Undisturbed target config _ _ :=
    h.undisturbed hadmits config policy around
  have hrun (allowed : Nat) : run allowed =
      Run.loop around target config (Session.depth config e) allowed 1 [] 0
        (e.session config policy around) := by
    simp only [run, Engine.run, hfault]
    rfl
  have hpos : 0 < limit := Nat.pos_of_ne_zero (SessionConfig.limit_ne_zero hfault hlimit)
  have hcapacity : 0 < e.capacity := by
    obtain ⟨rings, -, hentries, hwf, -⟩ := h.consistent.queues
    rw [← hentries]
    exact UInt32.lt_iff_toNat_lt.mpr hwf.depth.pos
  have hdepth : 0 < depth := UInt32.lt_iff_toNat_lt.mp (depth_pos_of_capacity hcapacity hfault)
  have hnone : (e.session config policy around).accounted = 0 :=
    accounted_session hidle config policy around
  rcases Nat.lt_or_ge e.pool.room (min depth limit) with hlacks | hroom
  -- no room for the first batch, which is the largest: the first round fails
  · refine Or.inr ⟨hlacks, e.pool.shortage_cases, fun allowed hallowed => ?_⟩
    obtain ⟨allowed, rfl⟩ := Nat.exists_eq_succ_of_ne_zero hallowed.ne'
    rw [hrun]
    apply Run.loop_of_exhausted hundisturbed
    · rw [hnever, Session.stopReason?_of_limit hduration hlimit]
      exact if_neg (Nat.not_le.mpr hpos)
    · rw [hnone, Session.occupancy, hlimit]
      exact hlacks
  · refine Or.inl ⟨hroom, fun allowed hallowed => ?_⟩
    have hleft : limit - (e.session config policy around).accounted = limit := by
      rw [hnone, Nat.sub_zero]
    have hfinished : ∃ summary, (Run.loop around target config (Session.depth config e) allowed 1 []
        0 (e.session config policy around)).outcome = .finished summary ∧ _ :=
      Run.loop_to_limit hduration hlimit hnever hdepth hroom hundisturbed hpos
        (by rw [hleft]; exact hallowed)
    rw [hleft, Nat.zero_add] at hfinished
    rw [hrun]
    exact hfinished

/-- Five reads were done in two batches, with waits interrupted and the blocks given back.
Then the same engine does five more, in batches of three, on a kernel that defers and
reverses completions. -/
theorem finished_at_limit_after_interrupt :
    ∃ e₀ : Engine SimulatedKernel,
      create { file := SimulatedKernel.patternedFile 4 8, deferred := true, reversed := true } 4 7
        { blockSize := 8, alignment := 8 } = .ok e₀ ∧
        let events : List Event :=
          [.call (.submitReads ⟨3, 32⟩ 2 ({} : Walker)), .interrupt, .call (.drain .blocking),
            .call (.release ⟨1, 7⟩), .interrupt]
        let e := ((Ledger.opening e₀ 4294967295).run events).engine
        let run := e.run ⟨3, 32⟩ { queueDepth := 3, maxReads := some 5 } ({} : Walker)
          { clock := id } 9
        e.ring.kernel.interrupts = 1 ∧ e.pool.free.length = 1 ∧
          ∃ summary, run.outcome = .finished summary ∧ summary.stoppedBy = .readLimit ∧
            summary.reads = 5 ∧ run.rounds = 3 := by
  obtain ⟨e₀, hcreate⟩ : ∃ e₀ : Engine SimulatedKernel,
      create { file := SimulatedKernel.patternedFile 4 8, deferred := true, reversed := true } 4 7
        { blockSize := 8, alignment := 8 } = .ok e₀ := ⟨_, rfl⟩
  refine ⟨e₀, hcreate, ?_⟩
  intro events e run
  have hinterrupts : e.ring.kernel.interrupts = 1 := by
    cases hcreate
    decide +kernel
  have hfree : e.pool.free.length = 1 := by
    cases hcreate
    decide +kernel
  have hidle : e.inFlight = 0 := by
    cases hcreate
    decide +kernel
  have hloaned : e.loaned = 0 := by
    cases hcreate
    decide +kernel
  have hinjected : e.ring.kernel.injected = [] := by
    cases hcreate
    decide +kernel
  have hadmits : e.Admits ⟨3, 32⟩ := by
    cases hcreate
    exact ⟨by decide +kernel, by decide +kernel, by decide +kernel⟩
  have hdepth : Session.depth { queueDepth := 3, maxReads := some 5 } e = 3 := by
    cases hcreate
    decide +kernel
  have hroom : 3 ≤ e.pool.room := by
    have hgranted : e.pool.mappings = [] := by
      cases hcreate
      decide +kernel
    rw [(Pool.room_of_granted (by simp [hgranted])).1, hfree]
    have hsize : e.pool.size = 2 := by
      cases hcreate
      decide +kernel
    rw [hsize]
    decide
  -- the types of the two `rfl` are given, or else the run would be evaluated to find them
  have hends := finished_at_limit hcreate rfl rfl rfl rfl hidle hloaned hinjected hadmits
    (rfl : SessionConfig.fault? { queueDepth := 3, maxReads := some 5 } = none) rfl rfl
    (fun policy reading =>
      (rfl : Surroundings.stop ({ clock := id } : Surroundings Walker) policy reading = false)) {}
  rw [hdepth] at hends
  rcases hends with ⟨-, hfinished⟩ | ⟨hlacks, -⟩
  · obtain ⟨summary, houtcome, hstopped, hreads, hrounds⟩ := hfinished 9 (by decide)
    exact ⟨hinterrupts, hfree, summary, houtcome, hstopped, hreads, hrounds⟩
  · exact absurd hlacks (Nat.not_lt.mpr hroom)

end Engine

end RingRead
