import RingRead.Proofs.Ring.Bounds
import RingRead.Proofs.Session.Failing
import RingRead.Proofs.Session.ReadLimit
import RingRead.Proofs.Session.Rounds

/-!
# Occupancy

A round takes back what has completed and tops up to the depth.

**Never beyond the depth.** What is wanted is the depth less the reads in flight, and if
more are in flight than the depth, there is no such number and the run breaks off. Reaping
puts nothing in flight, and topping up to the depth keeps it, so it is the first reap of a
run that decides: a run overflows just if that reap leaves more in flight than the depth
(`Run.overflowed_iff`). Either way nothing is submitted beyond the depth
(`Engine.within_depth_iff`).

**Always up to the depth.** On an engine that is idle when the run starts, a round whose
calls succeed ends with as many reads in flight as the depth and the read limit admit,
whatever the kernel does (`Steady.inFlight_eq_occupancy`), and it has reaped or submitted
one (`Steady.progress`).
-/

namespace RingRead

namespace Engine

variable {κ : Type} [Kernel κ] {e : Engine κ}

/-! ## Engines between calls

No call changes how many slots the ring has, and a reap, which takes completions out, never
raises the number of reads in flight.
-/

theorem capacity_reap (h : e.Balanced) (mode : ReapMode) :
    (e.reap mode).2.capacity = e.capacity := by
  cases reap_ends h.sound mode with
  | kept _ hlends => exact hlends.capacity_eq
  | taken _ _ hcapacity => exact hcapacity

theorem capacity_drain (h : e.Balanced) (mode : ReapMode) :
    (e.drain mode).2.capacity = e.capacity := by
  have hboth := drain_invariant (P := fun e' => e'.Balanced ∧ e'.capacity = e.capacity)
    (fun _ h mode => ⟨h.1.reap mode, (capacity_reap h.1 mode).trans h.2⟩) ⟨h, rfl⟩ mode
  exact hboth.2

theorem capacity_perform (h : e.Balanced) (call : Call) :
    (e.perform call).capacity = e.capacity := by
  cases call with
  | submitReads target requested policy => exact capacity_submitReads h target requested policy
  | reap mode => exact capacity_reap h mode
  | drain mode => exact capacity_drain h mode
  | release token => rfl

/-- A ring has a slot, and it keeps it. -/
theorem Reachable.capacity_pos (h : e.Reachable) : 0 < e.capacity := by
  induction h with
  | created h =>
    obtain ⟨-, hring⟩ := create_eq_ok h
    obtain ⟨⟨hone, hle, -⟩, -⟩ := Ring.depths_of_create hring
    exact UInt32.lt_of_lt_of_le (by decide) (UInt32.le_trans hone hle)
  | performed h call ih => exact capacity_perform h.balanced call ▸ ih
  | drifted _ hdrifts ih =>
    obtain ⟨kernel, transfers, rfl⟩ := hdrifts
    exact ih

/-- Reaping puts nothing in flight. -/
theorem inFlight_reap_le (h : e.pool.Sound) (mode : ReapMode) :
    (e.reap mode).2.inFlight ≤ e.inFlight := by
  cases reap_ends h mode with
  | kept hflight => exact hflight ▸ UInt32.le_refl _
  | taken hflight => exact UInt32.le_iff_toNat_le.mpr (hflight.trans_le (Nat.sub_le ..))

end Engine

namespace Session

variable {κ π : Type} {target : ReadTarget} {config : SessionConfig} {depth : UInt32}
  {s s' : Session κ π}

/-! ## What is wanted

A session wants what is missing under its depth and under its read limit. With what it
wants, as many reads are in flight as it means to have; these lemmas say so in natural
numbers, where nothing can overflow.
-/

/-- The number of reads that a session means to have in flight when so many are completed:
the depth, but no more than the read limit leaves. -/
def occupancy (config : SessionConfig) (depth : UInt32) (completed : Nat) : Nat :=
  match config.maxReads with
  | none => depth.toNat
  | some limit => min depth.toNat (limit - completed)

/-- The more reads are completed, the fewer are meant to be in flight. -/
theorem occupancy_le (config : SessionConfig) (depth : UInt32) (completed : Nat) :
    occupancy config depth completed ≤ occupancy config depth 0 := by
  simp only [occupancy]
  rcases config.maxReads with _ | limit
  · exact Nat.le_refl _
  · dsimp only
    omega

theorem occupancy_le_depth (config : SessionConfig) (depth : UInt32) (completed : Nat) :
    occupancy config depth completed ≤ depth.toNat := by
  simp only [occupancy]
  rcases config.maxReads with _ | limit
  · exact Nat.le_refl _
  · exact Nat.min_le_left ..

/-- No more reads are completed or in flight than the read limit, if there is one. A session
begins within its limit if nothing is in flight, and each round keeps it there. -/
def Limited (config : SessionConfig) (s : Session κ π) : Prop :=
  ∀ limit, config.maxReads = some limit → s.accounted ≤ limit

/-- Within the depth, what is wanted is what is missing. Nothing is lost where the number
that the limit leaves is cut down to 32 bits. -/
theorem toNat_wanted (hdepth : s.engine.inFlight ≤ depth) :
    (s.wanted config depth).toNat =
      match config.maxReads with
      | none => depth.toNat - s.engine.inFlight.toNat
      | some limit => min (depth.toNat - s.engine.inFlight.toNat) (limit - s.accounted) := by
  have hsub : (depth - s.engine.inFlight).toNat = depth.toNat - s.engine.inFlight.toNat :=
    UInt32.toNat_sub_of_le _ _ hdepth
  rw [(want_of_le config hdepth).2]
  rcases config.maxReads with _ | limit
  · exact hsub
  · have hlt := depth.toNat_lt
    have hsize : UInt32.size = 2 ^ 32 := rfl
    have hcut : (UInt32.ofNat (min (limit - s.accounted) (UInt32.size - 1))).toNat =
        min (limit - s.accounted) (UInt32.size - 1) :=
      UInt32.toNat_ofNat_of_lt' ((Nat.min_le_right ..).trans_lt (by decide))
    change (min _ (UInt32.ofNat (min (limit - s.accounted) (UInt32.size - 1)))).toNat =
      min _ (limit - s.accounted)
    rw [UInt32.toNat_min, hsub, hcut]
    omega

/-- What is wanted fits under the depth, beside the reads in flight. -/
theorem inFlight_add_wanted_le (hdepth : s.engine.inFlight ≤ depth) :
    s.engine.inFlight.toNat + (s.wanted config depth).toNat ≤ depth.toNat := by
  have hle := UInt32.le_iff_toNat_le.mp hdepth
  rw [toNat_wanted hdepth]
  rcases config.maxReads with _ | limit
  · dsimp only
    omega
  · dsimp only
    omega

/-- With what is wanted, as many reads are in flight as are meant to be. -/
theorem inFlight_add_wanted (hdepth : s.engine.inFlight ≤ depth) (hlimited : s.Limited config) :
    s.engine.inFlight.toNat + (s.wanted config depth).toNat =
      occupancy config depth s.meter.totalReads := by
  have hle := UInt32.le_iff_toNat_le.mp hdepth
  rw [toNat_wanted hdepth, occupancy]
  rcases hreads : config.maxReads with _ | limit
  · dsimp only
    omega
  · have haccounted := hlimited limit hreads
    rw [accounted] at haccounted ⊢
    dsimp only
    omega

/-- As long as something is missing under the depth and under the limit, something is
wanted. -/
theorem wanted_ne_zero (hdepth : s.engine.inFlight < depth)
    (hroom : ∀ limit, config.maxReads = some limit → s.accounted < limit) :
    s.wanted config depth ≠ 0 := by
  have hlt := UInt32.lt_iff_toNat_lt.mp hdepth
  intro hzero
  have hwant : (s.wanted config depth).toNat = _ := toNat_wanted (UInt32.le_of_lt hdepth)
  rw [hzero, UInt32.toNat_zero] at hwant
  rcases hreads : config.maxReads with _ | limit
  · rw [hreads] at hwant
    dsimp only at hwant
    omega
  · have hlimit := hroom limit hreads
    rw [hreads] at hwant
    dsimp only at hwant
    omega

/-- Where it is not time to stop, the limit is not reached. -/
theorem lt_of_stopReason {now limit : Nat} {stop : Bool} (hlimit : config.maxReads = some limit)
    (hstop : s.stopReason? config now stop = none) : s.meter.totalReads < limit := by
  rw [stopReason?] at hstop
  split at hstop
  · cases hstop
  · split at hstop
    · cases hstop
    · split at hstop
      · cases hstop
      · next hreached => simpa [hlimit] using hreached

/-! ## The depth is kept

A session that has no more reads in flight than its depth has no more after a round either.
So only the session that a run starts with can have more, and then its first round tells.
-/

variable [Kernel κ]

theorem balanced_reapReady (h : s.engine.Balanced) :
    s.reapReady.2.engine.Balanced ∧ s.reapReady.2.engine.inFlight ≤ s.engine.inFlight := by
  apply reapReady_invariant (P := fun e => e.Balanced ∧ e.inFlight ≤ s.engine.inFlight)
  · rintro e ⟨he, hflight⟩ mode
    exact ⟨he.reap mode, UInt32.le_trans (Engine.inFlight_reap_le he.sound mode) hflight⟩
  · rintro e ⟨he, hflight⟩ token
    exact ⟨he.release token, hflight⟩
  · exact ⟨h, UInt32.le_refl _⟩

variable [OffsetPolicy π]

/-- Topping up keeps the engine balanced, whether or not its submission succeeds. -/
theorem balanced_topUp (h : s.engine.Balanced) :
    (s.topUp target config depth).2.engine.Balanced := by
  rw [topUp]
  rcases s.want config depth with operation | want
  · exact h
  dsimp only
  split
  · exact h
  · have hbalanced := h.submitReads target want s.policy
    rcases hsubmit : s.engine.submitReads target want s.policy with ⟨err | count, engine, policy⟩
    all_goals
      rw [hsubmit] at hbalanced
      exact hbalanced

/-- Topping up keeps the depth, whether or not the submission succeeds. -/
theorem inFlight_topUp_le (h : s.engine.Balanced) (hdepth : s.engine.inFlight ≤ depth) :
    (s.topUp target config depth).2.engine.inFlight ≤ depth := by
  have hfits : s.engine.inFlight.toNat + (s.wanted config depth).toNat ≤ depth.toNat :=
    inFlight_add_wanted_le hdepth
  rw [topUp_of_le config hdepth]
  split
  · exact hdepth
  · have hflight := Engine.inFlight_submitReads_le h target (s.wanted config depth) s.policy
    have hkept := UInt32.le_iff_toNat_le.mpr (hflight.trans hfits)
    rcases hsubmit : s.engine.submitReads target (s.wanted config depth) s.policy
      with ⟨err | count, engine, policy⟩
    all_goals
      rw [hsubmit] at hkept
      exact hkept

/-- Topping up overflows just if more reads are in flight than the depth. Nothing is
submitted then. -/
theorem topUp_overflow_iff {operation : Overflow} :
    (s.topUp target config depth).1 = .error (.overflow operation) ↔
      operation = .subtraction ∧ depth < s.engine.inFlight := by
  by_cases hlt : depth < s.engine.inFlight
  · rw [topUp, (want_of_lt config hlt).1]
    constructor
    · intro heq
      cases heq
      exact ⟨rfl, hlt⟩
    · rintro ⟨rfl, -⟩
      rfl
  · rw [topUp_of_le config (UInt32.not_lt.mp hlt)]
    refine iff_of_false (fun heq => ?_) fun h => hlt h.2
    split at heq
    · cases heq
    · rcases hsubmit : s.engine.submitReads target (s.wanted config depth) s.policy
        with ⟨err | count, engine, policy⟩
      all_goals
        rw [hsubmit] at heq
        cases heq

/-- What is taken back does not overflow below zero, neither in a round nor at the end. -/
theorem reapReady_ne_subtraction (s : Session κ π) :
    s.reapReady.1 ≠ .error (.overflow .subtraction) := by
  intro heq
  have haborts : s.aborts ⟨0, 0⟩ s.reapDeeds = _ := s.aborts_reapDeeds
  rw [heq] at haborts
  have hmem : .overflow .subtraction ∈ s.aborts ⟨0, 0⟩ s.reapDeeds :=
    haborts ▸ List.mem_singleton_self _
  exact ne_subtraction_of_mem_aborts hmem rfl

theorem shutDown_ne_subtraction (s : Session κ π) :
    s.shutDown.1 ≠ .error (.overflow .subtraction) := by
  intro heq
  have haborts : s.aborts ⟨0, 0⟩ (shutDownDeeds s.engine.inFlight.toNat s) = _ :=
    s.aborts_shutDownDeeds _
  rw [show (shutDownWithin s.engine.inFlight.toNat s).1 = _ from heq] at haborts
  have hmem : .overflow .subtraction ∈ s.aborts ⟨0, 0⟩ (shutDownDeeds s.engine.inFlight.toNat s) :=
    haborts ▸ List.mem_singleton_self _
  exact ne_subtraction_of_mem_aborts hmem rfl

/-- A round overflows below zero just if more reads are left in flight than the depth after
what has completed was taken back. -/
theorem exchange_overflow_iff (target : ReadTarget) (config : SessionConfig) (depth : UInt32)
    (s : Session κ π) :
    (s.exchange target config depth).1 = .error (.overflow .subtraction) ↔
      ∃ reaped, s.reapReady = (.ok (), reaped) ∧ depth < reaped.engine.inFlight := by
  have hnone := s.reapReady_ne_subtraction
  rw [exchange]
  rcases hreap : s.reapReady with ⟨abort | _, reaped⟩
  · rw [hreap] at hnone
    exact iff_of_false hnone (by simp)
  · simp [topUp_overflow_iff]

/-- A round that succeeds ends within the depth, wherever it has begun: it could not have
topped up otherwise. -/
theorem exchange_keeps (h : s.engine.Balanced)
    (hok : s.exchange target config depth = (.ok (), s')) :
    s'.engine.Balanced ∧ s'.engine.inFlight ≤ depth := by
  obtain ⟨reaped, hreap, htop⟩ := exchange_ok hok
  have hbalanced := (balanced_reapReady h).1
  rw [hreap] at hbalanced
  have hkept : (reaped.topUp target config depth).2.engine.Balanced ∧
      (reaped.topUp target config depth).2.engine.inFlight ≤ depth :=
    ⟨balanced_topUp hbalanced, inFlight_topUp_le hbalanced (topUp_ok htop).1⟩
  rw [htop] at hkept
  exact hkept

/-! ## Filled up to the depth

On an idle engine the reads that are accounted for are those of the run alone. Then nothing
stands between the session and the occupancy that it means to have: the ring has free slots
for all that is wanted, and the read limit is counted down exactly.
-/

omit [OffsetPolicy π] in
/-- A read that is reaped is counted, so it stays accounted for. -/
theorem accounted_reapReady (h : s.engine.Settled) (hok : s.reapReady = (.ok (), s')) :
    s'.accounted = s.accounted := by
  obtain ⟨done, engine, -, hdrains, hreleases⟩ := reapReady_ok h hok
  have hreads : s'.meter.totalReads = s.meter.totalReads + done.length := hreleases.reads_eq
  have hflight := hdrains.inFlight_eq
  have hring : s'.engine.inFlight = engine.inFlight := congrArg Ring.inFlight hreleases.ring_eq
  rw [accounted, accounted, hring]
  omega

/-- A session as it is between the steps of a run on an engine that was idle: every block on
loan belongs to a read in flight, and depth and read limit are kept. -/
structure Steady (config : SessionConfig) (depth : UInt32) (s : Session κ π) : Prop where
  settled : s.engine.Settled
  depth_le : depth ≤ s.engine.capacity
  inFlight_le : s.engine.inFlight ≤ depth
  limited : s.Limited config

namespace Steady

omit [OffsetPolicy π] in
theorem reapReady (h : s.Steady config depth) (hok : s.reapReady = (.ok (), s')) :
    s'.Steady config depth := by
  obtain ⟨done, engine, -, hdrains, hreleases⟩ := reapReady_ok h.settled hok
  have hcapacity : s'.engine.capacity = engine.capacity :=
    congrArg Ring.capacity hreleases.ring_eq
  have hflight := (balanced_reapReady h.settled.balanced).2
  rw [hok] at hflight
  refine ⟨hreleases.settled, ?_, UInt32.le_trans hflight h.inFlight_le, fun limit hlimit => ?_⟩
  · rw [hcapacity, hdrains.capacity_eq]
    exact h.depth_le
  · rw [accounted_reapReady h.settled hok]
    exact h.limited limit hlimit

omit [Kernel κ] [OffsetPolicy π] in
/-- There are free slots for all that is wanted. -/
theorem batch_eq (h : s.Steady config depth) :
    min (s.wanted config depth) s.engine.ring.available = s.wanted config depth := by
  have hfits : s.engine.inFlight.toNat + (s.wanted config depth).toNat ≤ depth.toNat :=
    inFlight_add_wanted_le h.inFlight_le
  have hdepth := UInt32.le_iff_toNat_le.mp h.depth_le
  have hfree := h.settled.balanced.toNat_available
  refine UInt32.toNat_inj.mp ?_
  rw [UInt32.toNat_min]
  omega

/-- A submission that succeeds is of all that is wanted. -/
theorem submitReads_eq_ok {n : UInt32} {engine : Engine κ} {policy : π}
    (h : s.Steady config depth)
    (hok : s.engine.submitReads target (s.wanted config depth) s.policy =
      (.ok n, engine, policy)) :
    n = s.wanted config depth ∧
      engine.inFlight.toNat = s.engine.inFlight.toNat + (s.wanted config depth).toNat := by
  have hends := Engine.submitReads_ends h.settled.balanced target (s.wanted config depth) s.policy
  rw [hok, h.batch_eq] at hends
  obtain ⟨rfl, hflight⟩ := hends.eq_of_ok
  exact ⟨rfl, hflight⟩

/-- All that is wanted goes in flight when the submissions are topped up. -/
theorem inFlight_topUp (h : s.Steady config depth)
    (hok : s.topUp target config depth = (.ok (), s')) :
    s'.meter = s.meter ∧
      s'.engine.inFlight.toNat = s.engine.inFlight.toNat + (s.wanted config depth).toNat := by
  rcases (topUp_ok hok).2 with ⟨hwant, rfl⟩ | ⟨-, n, engine, policy, hsubmit, rfl⟩
  · rw [hwant]
    exact ⟨rfl, rfl⟩
  · exact ⟨rfl, (h.submitReads_eq_ok hsubmit).2⟩

theorem topUp (h : s.Steady config depth) (hok : s.topUp target config depth = (.ok (), s')) :
    s'.Steady config depth := by
  have hadvances := advances_topUp h.settled hok
  obtain ⟨hmeter, hflight⟩ := h.inFlight_topUp hok
  have hdepth : (s.topUp target config depth).2.engine.inFlight ≤ depth :=
    inFlight_topUp_le h.settled.balanced h.inFlight_le
  rw [hok] at hdepth
  refine ⟨hadvances.settled, ?_, hdepth, fun limit hlimit => ?_⟩
  · rw [hadvances.capacity_eq]
    exact h.depth_le
  · have hwant : (s.wanted config depth).toNat ≤ limit - s.accounted := wanted_le hlimit
    have hle := h.limited limit hlimit
    rw [accounted] at hwant hle ⊢
    rw [hmeter]
    omega

omit [Kernel κ] [OffsetPolicy π] in
theorem tick (h : s.Steady config depth) (now : Nat) : (s.tick now).2.Steady config depth := by
  refine ⟨h.settled, h.depth_le, h.inFlight_le, fun limit hlimit => ?_⟩
  have hle := h.limited limit hlimit
  rw [accounted] at hle ⊢
  rw [totalReads_tick]
  exact hle

/-- After topping up, as many reads are in flight as are meant to be. -/
theorem inFlight_eq_occupancy (h : s.Steady config depth)
    (hok : s.topUp target config depth = (.ok (), s')) :
    s'.engine.inFlight.toNat = occupancy config depth s'.meter.totalReads := by
  obtain ⟨hmeter, hflight⟩ := h.inFlight_topUp hok
  rw [hflight, hmeter]
  exact inFlight_add_wanted h.inFlight_le h.limited

/-- What is wanted is what the submission answers, if it succeeds. -/
theorem answer_topUp (h : s.Steady config depth) (hwant : s.wanted config depth ≠ 0)
    (hok : s.topUp target config depth = (.ok (), s')) :
    (s.engine.submitReads target (s.wanted config depth) s.policy).1 =
      .ok (s.wanted config depth) := by
  rcases (topUp_ok hok).2 with ⟨hnone, -⟩ | ⟨-, n, engine, policy, hsubmit, -⟩
  · exact absurd hnone hwant
  · rw [hsubmit]
    exact congrArg Except.ok (h.submitReads_eq_ok hsubmit).1

omit [OffsetPolicy π] in
/-- After a reap something is missing under the depth: a read was reaped, or none was in
flight. -/
theorem inFlight_reapReady_lt (h : s.Steady config depth) (hpos : 0 < depth)
    (hok : s.reapReady = (.ok (), s')) : s'.engine.inFlight < depth := by
  by_cases hidle : s.engine.inFlight = 0
  · have hflight := (balanced_reapReady h.settled.balanced).2
    rw [hok, hidle] at hflight
    exact UInt32.lt_of_le_of_lt hflight hpos
  · have hless := UInt32.lt_iff_toNat_lt.mpr (inFlight_lt_of_reapReady h.settled.balanced hidle hok)
    exact UInt32.lt_of_lt_of_le hless h.inFlight_le

/-- A round reaps a read or wants to submit one: with reads in flight it waits for one of
them, and with none there is room under the depth and, since it is not time to stop, under
the limit. -/
theorem progress {now : Nat} {stop : Bool} (h : s.Steady config depth) (hpos : 0 < depth)
    (hstop : s.stopReason? config now stop = none) (hok : s.reapReady = (.ok (), s')) :
    s.reaped target s.reapDeeds ≠ [] ∨ s'.wanted config depth ≠ 0 := by
  have haccounted := accounted_reapReady h.settled hok
  by_cases hidle : s.engine.inFlight = 0
  · refine Or.inr (wanted_ne_zero (h.inFlight_reapReady_lt hpos hok) fun limit hlimit => ?_)
    rw [haccounted, accounted, hidle]
    exact lt_of_stopReason hlimit hstop
  · have hless := inFlight_lt_of_reapReady h.settled.balanced hidle hok
    have hadvances : s.Advances target s.reapDeeds s' := advances_reapReady h.settled hok
    have hreads := hadvances.reads_eq
    refine Or.inl fun hnil => ?_
    rw [hnil, List.length_nil] at hreads
    rw [accounted, accounted] at haccounted
    omega

end Steady

end Session

variable {κ π : Type} [Kernel κ] [OffsetPolicy π] {target : ReadTarget} {config : SessionConfig}
  {depth : UInt32} {around : Surroundings π} {allowed reading : Nat}

/-! ## Runs

The first round is not like the others: what was in flight before the run may be more than
the depth. Its reap brings the number down, and its top-up overflows if that was not enough.
From then on every round begins within the depth. -/

namespace Run

variable {s : Session κ π}

/-- From within the depth no round overflows in its subtraction, since each of them keeps
within the depth. -/
theorem ne_subtraction {reports : List IntervalReport} {rounds : Nat} (h : s.engine.Balanced)
    (hdepth : s.engine.inFlight ≤ depth) :
    (loop around target config depth allowed reading reports rounds s).outcome ≠
      .overflowed .subtraction := by
  induction allowed generalizing reading reports rounds s with
  | zero => exact nofun
  | succ allowed ih =>
    rw [loop_succ]
    rcases s.stopReason? config (around.clock reading) (around.stop s.policy reading)
      with _ | reason
    · dsimp only
      have hround := Session.exchange_overflow_iff target config depth s
      rcases hexchange : s.exchange target config depth with ⟨abort | _, s'⟩
      · rw [hexchange] at hround
        intro heq
        obtain rfl := RunOutcome.ofAbort_eq_overflowed.mp heq
        -- reaping makes the reads in flight fewer, so they stay within the depth
        obtain ⟨reaped, hreap, hover⟩ := hround.mp rfl
        have hflight := (Session.balanced_reapReady h).2
        rw [hreap] at hflight
        exact absurd hover (UInt32.not_lt.mpr (UInt32.le_trans hflight hdepth))
      · obtain ⟨hbalanced, hwithin⟩ := Session.exchange_keeps h hexchange
        exact ih hbalanced hwithin
    · dsimp only
      have hnone := s.shutDown_ne_subtraction
      rcases hshut : s.shutDown with ⟨abort | _, last⟩
      · intro heq
        rw [hshut] at hnone
        exact hnone (congrArg Except.error (RunOutcome.ofAbort_eq_overflowed.mp heq))
      · exact nofun

/-- Rounds overflow in their subtraction just if the first reap leaves more reads in flight
than the depth. -/
theorem overflowed_iff {reports : List IntervalReport} {rounds : Nat} (h : s.engine.Balanced) :
    (loop around target config depth allowed reading reports rounds s).outcome =
        .overflowed .subtraction ↔
      ∃ first ∈ (history around target config depth allowed reading s).head?,
        depth < first.reaped.engine.inFlight := by
  cases allowed with
  | zero => simp [loop, history, ending]
  | succ allowed =>
    rw [loop_succ, history]
    rcases hstop : s.stopReason? config (around.clock reading) (around.stop s.policy reading)
      with _ | reason
    · dsimp only
      have hround := Session.exchange_overflow_iff target config depth s
      have hfirst : (∃ reaped, s.reapReady = (.ok (), reaped) ∧ depth < reaped.engine.inFlight) ↔
          ∃ first ∈ (history around target config depth (allowed + 1) reading s).head?,
            depth < first.reaped.engine.inFlight := by
        rw [history, hstop]
        rcases hreap : s.reapReady with ⟨abort | _, reaped⟩
        · simp
        · simp
      rw [history, hstop] at hfirst
      rw [← hfirst, ← hround]
      rcases hexchange : s.exchange target config depth with ⟨abort | _, s'⟩
      · exact RunOutcome.ofAbort_eq_overflowed.trans ⟨congrArg Except.error, Except.error.inj⟩
      -- the first round has come to its end, so the depth is kept from now on
      · obtain ⟨hbalanced, hwithin⟩ := Session.exchange_keeps h hexchange
        exact iff_of_false (ne_subtraction hbalanced hwithin) (by simp)
    · dsimp only
      have hnone := s.shutDown_ne_subtraction
      rcases hshut : s.shutDown with ⟨abort | _, last⟩
      · refine iff_of_false (fun heq => ?_) (by simp)
        rw [hshut] at hnone
        exact hnone (congrArg Except.error (RunOutcome.ofAbort_eq_overflowed.mp heq))
      · simp [ending]

/-- A round that finds more reads in flight than the depth is the last one. -/
theorem history_eq_singleton {first : Round κ π}
    (hfirst : (history around target config depth allowed reading s).head? = some first)
    (hgt : depth < first.reaped.engine.inFlight) :
    history around target config depth allowed reading s = [first] := by
  cases allowed with
  | zero => cases hfirst
  | succ allowed =>
    have hover : (first.reaped.topUp target config depth).1 = .error (.overflow .subtraction) :=
      Session.topUp_overflow_iff.mpr ⟨rfl, hgt⟩
    rw [history] at hfirst ⊢
    rcases hstop : s.stopReason? config (around.clock reading) (around.stop s.policy reading)
      with _ | reason
    all_goals rw [hstop] at hfirst
    · rcases hreap : s.reapReady with ⟨abort | _, reaped⟩
      all_goals
        rw [hreap] at hfirst
        cases hfirst
      rcases htop : reaped.topUp target config depth with ⟨abort | _, s'⟩
      · simp only [htop]
      · rw [htop] at hover
        cases hover
    · cases hfirst

/-- Every round begins with a steady session, if the first one does. -/
theorem steady_start (h : s.Steady config depth) :
    ∀ round ∈ history around target config depth allowed reading s,
      round.start.Steady config depth ∧ round.start.reapReady = (.ok (), round.reaped) ∧
        ∃ now stop, round.start.stopReason? config now stop = none :=
  forall_history
    (fun hs hreap htop now => ((hs.reapReady hreap).topUp htop).tick now) h

end Run

namespace Engine

variable {e : Engine κ} {policy : π}

omit [Kernel κ] in
theorem depth_le_capacity (e : Engine κ) (config : SessionConfig) :
    Session.depth config e ≤ e.capacity :=
  UInt32.le_iff_toNat_le.mpr ((UInt32.toNat_min ..).trans_le (Nat.min_le_right ..))

omit [Kernel κ] in
/-- The depth of a run on an engine with a slot is positive. -/
theorem depth_pos_of_capacity (hcapacity : 0 < e.capacity) (hfault : config.fault? = none) :
    0 < Session.depth config e := by
  have hslot := UInt32.lt_iff_toNat_lt.mp hcapacity
  have hqueue : config.queueDepth ≠ 0 := by
    intro hzero
    rw [SessionConfig.fault?, if_pos hzero] at hfault
    cases hfault
  have hpos := UInt32.lt_iff_toNat_lt.mp (UInt32.pos_iff_ne_zero.mpr hqueue)
  refine UInt32.lt_iff_toNat_lt.mpr ?_
  rw [Session.depth, UInt32.toNat_min]
  exact Nat.lt_min.mpr ⟨hpos, hslot⟩

/-- The depth of a run is positive. -/
theorem depth_pos (h : e.Reachable) (hfault : config.fault? = none) :
    0 < Session.depth config e :=
  depth_pos_of_capacity h.capacity_pos hfault

omit [Kernel κ] [OffsetPolicy π] in
/-- On an idle engine no read is accounted for when a run starts. -/
theorem accounted_session (hidle : e.inFlight = 0) (config : SessionConfig) (policy : π)
    (around : Surroundings π) : (e.session config policy around).accounted = 0 := by
  change 0 + e.inFlight.toNat = 0
  rw [hidle]
  rfl

omit [Kernel κ] [OffsetPolicy π] in
/-- A run on a balanced engine that is idle starts with a steady session. -/
theorem steady_session_of_balanced (h : e.Balanced) (hidle : e.inFlight = 0)
    (hloaned : e.loaned = 0) (config : SessionConfig) (policy : π) (around : Surroundings π) :
    (e.session config policy around).Steady config (Session.depth config e) := by
  refine ⟨⟨h, (congrArg UInt32.toNat hidle).trans hloaned.symm⟩, e.depth_le_capacity config, ?_,
    fun limit _ => ?_⟩
  · exact hidle.trans_le UInt32.zero_le
  · rw [accounted_session hidle]
    exact Nat.zero_le _

omit [OffsetPolicy π] in
/-- A run on an idle engine starts with a steady session. -/
theorem steady_session (h : e.Reachable) (hidle : e.inFlight = 0) (hloaned : e.loaned = 0)
    (config : SessionConfig) (policy : π) (around : Surroundings π) :
    (e.session config policy around).Steady config (Session.depth config e) :=
  steady_session_of_balanced h.balanced hidle hloaned config policy around

/-- A run on an engine with no more reads in flight than the depth does not overflow in its
subtraction. -/
theorem run_ne_subtraction (h : e.Balanced) (hdepth : e.inFlight ≤ Session.depth config e) :
    (e.run target config policy around allowed).outcome ≠ .overflowed .subtraction := by
  rw [run]
  rcases config.fault? with _ | fault
  · exact Run.ne_subtraction h hdepth
  · simp [Run.ending]

/-- A run overflows in its subtraction just if the first reap leaves more reads in flight
than the depth. -/
theorem run_overflowed_iff (h : e.Balanced) :
    (e.run target config policy around allowed).outcome = .overflowed .subtraction ↔
      ∃ first ∈ (e.history target config policy around allowed).head?,
        Session.depth config e < first.reaped.engine.inFlight := by
  rw [run, history]
  rcases config.fault? with _ | fault
  · exact Run.overflowed_iff h
  · simp [Run.ending]

/-- **Never beyond the depth.** Take an engine after any calls on any kernel, with any reads
in flight of which any may have completed. Then

* a run submits in its rounds alone, and a round submits a read only while fewer reads than
  the depth are in flight;
* the run overflows in its subtraction just if the first reap leaves more reads in flight
  than the depth;
* the round with this reap is then the only one, and nothing is submitted at all;
* it does not overflow if no more reads than the depth were in flight before.
-/
theorem within_depth_iff (h : e.Reachable) :
    let depth := Session.depth config e
    let history := e.history target config policy around allowed
    let submissions := (e.deeds target config policy around allowed).filterMap Deed.submission?
    let overflows := (e.run target config policy around allowed).outcome = .overflowed .subtraction
    submissions = (history.map (·.want config depth)).filter (· ≠ 0) ∧
      (∀ round ∈ history, ∀ i < (round.batch config depth).toNat,
        round.reaped.engine.inFlight.toNat + i < depth.toNat) ∧
      (overflows ↔ ∃ first ∈ history.head?, depth < first.reaped.engine.inFlight) ∧
      (overflows → history.length = 1 ∧ submissions = []) ∧
      (e.inFlight ≤ depth → ¬overflows) := by
  intro depth history submissions overflows
  have hsubmissions : submissions = _ := e.submissions_deeds target config policy around allowed
  have hoverflows : overflows ↔ ∃ first ∈ history.head?, depth < first.reaped.engine.inFlight :=
    run_overflowed_iff h.balanced
  refine ⟨hsubmissions, fun round _ i hi => ?_, hoverflows, fun hover => ?_,
    fun hdepth => run_ne_subtraction h.balanced hdepth⟩
  · rw [Round.batch, UInt32.toNat_min] at hi
    by_cases hwithin : round.reaped.engine.inFlight ≤ depth
    · have hfits : round.reaped.engine.inFlight.toNat + (round.want config depth).toNat ≤
          depth.toNat :=
        Session.inFlight_add_wanted_le hwithin
      omega
    · -- beyond the depth nothing is wanted
      have hnone : round.want config depth = 0 :=
        (Session.want_of_lt config (UInt32.not_le.mp hwithin)).2
      rw [hnone, UInt32.toNat_zero] at hi
      omega
  · obtain ⟨first, hfirst, hgt⟩ := hoverflows.mp hover
    -- the round that overflows is the last of the run, and it was the first
    have honly : history = [first] := by
      obtain hnil | ⟨-, hhistory⟩ : history = [] ∨ _ ∧ history = _ :=
        e.history_cases target config policy around allowed
      · rw [hnil] at hfirst
        cases hfirst
      · rw [hhistory] at hfirst ⊢
        exact Run.history_eq_singleton hfirst hgt
    have hnone : first.want config depth = 0 := (Session.want_of_lt config hgt).2
    rw [hsubmissions, show history.map (·.want config depth) = [0] by simp [honly, hnone]]
    exact ⟨congrArg List.length honly, rfl⟩

/-- More reads are in flight at first than the depth, but the first reap takes two of
them. -/
theorem within_depth_after_reap :
    ∃ e₀ : Engine SimulatedKernel,
      create { file := SimulatedKernel.patternedFile 8 8, deferred := true } 8 7
        { blockSize := 8, alignment := 8 } = .ok e₀ ∧
        let e := e₀.performAll [.submitReads ⟨3, 64⟩ 3 ({} : Walker), .reap .blocking,
          .submitReads ⟨3, 64⟩ 4 ({} : Walker)]
        let config : SessionConfig := { queueDepth := 4, maxReads := some 20 }
        let depth := Session.depth config e
        let history := e.history ⟨3, 64⟩ config ({} : Walker) { clock := id } 9
        depth = 4 ∧ depth < e.inFlight ∧ 4 < history.length ∧
          (e.run ⟨3, 64⟩ config ({} : Walker) { clock := id } 9).outcome ≠
            .overflowed .subtraction ∧
          ∀ round ∈ history, ∀ i < (round.batch config depth).toNat,
            round.reaped.engine.inFlight.toNat + i < depth.toNat := by
  have hwithin {e₀ : Engine SimulatedKernel}
      (hcreate : create { file := SimulatedKernel.patternedFile 8 8, deferred := true } 8 7
        { blockSize := 8, alignment := 8 } = .ok e₀) (calls : List Call) :=
    @within_depth_iff _ Walker _ _ ⟨3, 64⟩ { queueDepth := 4, maxReads := some 20 }
      { clock := id } 9 _ {} ((Reachable.created hcreate).performAll calls)
  refine ⟨_, rfl, ?_, ?_, ?_, ?_, ?_⟩
  · decide +kernel
  · decide +kernel
  · decide +kernel
  · obtain ⟨-, -, hiff, -, -⟩ := hwithin rfl _
    refine hiff.not.mpr ?_
    decide +kernel
  · exact (hwithin rfl _).2.1

/-- The first reap leaves four reads in flight where the depth is two. -/
theorem beyond_depth_after_reap :
    ∃ e₀ : Engine SimulatedKernel,
      create { file := SimulatedKernel.patternedFile 8 8, deferred := true } 8 7
        { blockSize := 8, alignment := 8 } = .ok e₀ ∧
        let e := e₀.performAll [.submitReads ⟨3, 64⟩ 3 ({} : Walker), .reap .blocking,
          .submitReads ⟨3, 64⟩ 4 ({} : Walker)]
        let config : SessionConfig := { queueDepth := 2, maxReads := some 20 }
        let history := e.history ⟨3, 64⟩ config ({} : Walker) { clock := id } 9
        Session.depth config e = 2 ∧
          history.map (fun round => (round.reaped.engine.inFlight, round.batch config 2)) =
            [(4, 0)] ∧
          (e.run ⟨3, 64⟩ config ({} : Walker) { clock := id } 9).outcome =
            .overflowed .subtraction := by
  refine ⟨_, rfl, ?_, ?_, ?_⟩
  · decide +kernel
  · decide +kernel
  · decide +kernel

/-- A run has completed as many rounds as top-ups succeeded, and submits in its rounds
alone. On an engine that was idle, the ring never cuts a batch down, and every round reaps a
read or submits one. After a top-up that succeeds, the depth is reached, or what the read
limit leaves of it, and the submission of the round, if there was one, has answered the
number that was wanted. -/
theorem occupied_after_round (h : e.Reachable) (hidle : e.inFlight = 0) (hloaned : e.loaned = 0) :
    let depth := Session.depth config e
    let history := e.history target config policy around allowed
    (e.run target config policy around allowed).rounds =
        history.countP (·.succeeds target config depth) ∧
      (e.deeds target config policy around allowed).filterMap Deed.submission? =
        (history.map (·.want config depth)).filter (· ≠ 0) ∧
      ∀ round ∈ history,
        round.batch config depth = round.want config depth ∧
        (round.start.reaped target round.start.reapDeeds ≠ [] ∨ round.want config depth ≠ 0) ∧
        ∀ s', round.reaped.topUp target config depth = (.ok (), s') →
          (match config.maxReads with
            | none => s'.engine.inFlight = depth
            | some limit => s'.meter.totalReads ≤ limit ∧
                s'.engine.inFlight.toNat = min depth.toNat (limit - s'.meter.totalReads)) ∧
          (round.want config depth ≠ 0 →
            (round.reaped.engine.submitReads target (round.want config depth)
              round.reaped.policy).1 = .ok (round.want config depth)) := by
  intro depth history
  refine ⟨e.rounds_run target config policy around allowed,
    e.submissions_deeds target config policy around allowed, ?_⟩
  have hsteady : (e.session config policy around).Steady config depth :=
    steady_session h hidle hloaned config policy around
  -- a configuration with a fault has no rounds at all
  obtain hnil | ⟨hfault, hhistory⟩ : history = [] ∨ _ ∧ history = _ :=
    e.history_cases target config policy around allowed
  · rw [hnil]
    simp
  rw [hhistory]
  intro round hmem
  obtain ⟨hstart, hreap, now, stop, hstop⟩ := Run.steady_start hsteady round hmem
  have hreaped := hstart.reapReady hreap
  refine ⟨hreaped.batch_eq, hstart.progress (depth_pos h hfault) hstop hreap,
    fun s' htop => ⟨?_, fun hwant => hreaped.answer_topUp hwant htop⟩⟩
  have hoccupied := hreaped.inFlight_eq_occupancy htop
  have hlimited := (hreaped.topUp htop).limited
  rw [Session.occupancy] at hoccupied
  rcases hreads : config.maxReads with _ | limit
  · rw [hreads] at hoccupied
    exact UInt32.toNat_inj.mp hoccupied
  · rw [hreads] at hoccupied
    exact ⟨(Nat.le_add_right ..).trans (hlimited limit hreads), hoccupied⟩

/-- The completions of a batch come back in reverse order. Of five reads three are kept in
flight, and the last two are submitted in a second round. -/
theorem occupied_after_two_rounds :
    ∃ e₀ : Engine SimulatedKernel,
      create { file := SimulatedKernel.patternedFile 4 8, reversed := true } 4 7
        { blockSize := 8, alignment := 8 } = .ok e₀ ∧
        let e := e₀.performAll [.submitReads ⟨3, 32⟩ 1 ({} : Walker), .reap .blocking]
        let config : SessionConfig := { queueDepth := 3, maxReads := some 5 }
        let depth := Session.depth config e
        let history := e.history ⟨3, 32⟩ config ({} : Walker) { clock := id } 9
        e.inFlight = 0 ∧ e.loaned = 0 ∧
          (history.map (·.want config depth)).filter (· ≠ 0) = [3, 2] ∧
          ∀ round ∈ history, ∀ s', round.reaped.topUp ⟨3, 32⟩ config depth = (.ok (), s') →
            s'.engine.inFlight.toNat = min depth.toNat (5 - s'.meter.totalReads) := by
  have hoccupied {e₀ : Engine SimulatedKernel}
      (hcreate : create { file := SimulatedKernel.patternedFile 4 8, reversed := true } 4 7
        { blockSize := 8, alignment := 8 } = .ok e₀) (calls : List Call) :=
    @occupied_after_round _ Walker _ _ ⟨3, 32⟩ { queueDepth := 3, maxReads := some 5 }
      { clock := id } 9 _ {} ((Reachable.created hcreate).performAll calls)
  refine ⟨_, rfl, ?idle, ?none, ?_, ?_⟩
  · decide +kernel
  · decide +kernel
  · decide +kernel
  · obtain ⟨-, -, hrounds⟩ := hoccupied rfl _ ?idle ?none
    intro round hmem s' htop
    exact ((hrounds round hmem).2.2 s' htop).1.2

end Engine

end RingRead
