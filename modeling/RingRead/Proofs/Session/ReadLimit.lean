import RingRead.Proofs.Session.Conservation

/-!
# The read limit

With a read limit a session completes no more reads than the limit, and has never more of
them completed or in flight. If it stops because of the limit, it has submitted and
completed exactly so many.

Of the deeds of a session only a submission can raise the number of reads that are accounted
for, and `wanted_le` says that what is submitted fits beside them under the limit. So the
bound is kept at every point, also where a call fails (`Run.throughout_deeds`). Stopping at
the limit means that the completed reads alone have reached it, which leaves none in flight.
-/

namespace RingRead

namespace Session

variable {κ π : Type} {target : ReadTarget} {config : SessionConfig} {depth : UInt32} {limit : Nat}
  {s : Session κ π}

/-- The reads completed and in flight are within a limit. -/
def Within (limit : Nat) (s : Session κ π) : Prop := s.accounted ≤ limit

/-- What is wanted fits under the limit, beside the reads that are accounted for. Where
nothing can be wanted, because more reads than the depth are in flight, it does so all the
more. -/
theorem wanted_le (hlimit : config.maxReads = some limit) :
    (s.wanted config depth).toNat ≤ limit - s.accounted := by
  by_cases hover : depth < s.engine.inFlight
  · rw [(want_of_lt config hover).2]
    exact Nat.zero_le _
  rw [(want_of_le config (UInt32.not_lt.mp hover)).2]
  simp only [hlimit]
  rw [UInt32.toNat_min]
  refine (Nat.min_le_right ..).trans ?_
  have hlt : min (limit - s.accounted) (UInt32.size - 1) < UInt32.size := by
    have hpos : 0 < UInt32.size := by decide
    omega
  exact (UInt32.toNat_ofNat_of_lt' hlt).trans_le (Nat.min_le_left ..)

/-- A session is stopped by the limit only when it has completed so many reads. -/
theorem le_of_stopReason {now : Nat} {stop : Bool} (hlimit : config.maxReads = some limit)
    (hstop : s.stopReason? config now stop = some .readLimit) : limit ≤ s.meter.totalReads := by
  rw [stopReason?] at hstop
  split at hstop
  · cases hstop
  · split at hstop
    · cases hstop
    · split at hstop
      · next hreached => simpa [hlimit] using hreached
      · cases hstop

variable [Kernel κ] [OffsetPolicy π]

/-! ## Points of a round

A round passes through many points, and the bound is kept at each: after every reap of a
drain, between the count of a read and the release of its block, and after a call that has
failed. -/

/-- Reaping puts nothing in flight. -/
theorem throughout_map_reap (h : s.engine.Settled) (hwithin : s.Within limit)
    (modes : List ReapMode) : Throughout (Within limit) target s (modes.map Deed.reap) := by
  induction modes generalizing s with
  | nil => exact hwithin
  | cons mode modes ih =>
    have hends := h.exact.reap_ends h.balanced mode
    refine ⟨hwithin, ih ⟨h.balanced.reap mode, h.exact.reap h.balanced mode⟩ ?_⟩
    simp only [Within, accounted, perform] at hwithin ⊢
    omega

/-- Each read that is counted was accounted for as reaped. While it is, it is neither in
flight nor completed, and the number is less for a moment. -/
theorem throughout_releaseDeeds (done : List Completion)
    (hwithin : s.accounted + done.length ≤ limit) :
    Throughout (Within limit) target s (releaseDeeds done s) := by
  induction done generalizing s with
  | nil => exact hwithin
  | cons done rest ih =>
    rw [List.length_cons] at hwithin
    -- a read that was reaped is accounted for again once it is recorded, and the release is neutral
    have hrecorded : accounted { s with meter := s.meter.record } = s.accounted + 1 := by
      simp only [accounted, Meter.record]
      omega
    rw [releaseDeeds]
    rcases hrelease : s.engine.release done.token with ⟨err | _, engine⟩
    all_goals
      have hengine : (s.engine.release done.token).2 = engine := congrArg Prod.snd hrelease
      have hreleased : accounted { s with engine, meter := s.meter.record } = s.accounted + 1 := by
        rw [← hrecorded, ← hengine]
        rfl
    · refine ⟨by rw [Within]; omega, by rw [Within, perform, hrecorded]; omega, ?_⟩
      simp only [Throughout, perform, hengine, Within]
      omega
    · refine ⟨by rw [Within]; omega, by rw [Within, perform, hrecorded]; omega, ?_⟩
      simp only [perform, hengine]
      exact ih (by omega)

/-- Taking back completed reads stays within the limit: a read that is counted was in flight
before, and was accounted for then. -/
theorem throughout_reapDeeds (h : s.engine.Settled) (hwithin : s.Within limit) :
    Throughout (Within limit) target s s.reapDeeds := by
  refine (throughout_map_reap h hwithin _).append ?_
  rw [performAll_drain]
  rcases hdrain : s.engine.drain .blocking with ⟨err | done, engine⟩
  · have hreaped : Throughout (Within limit) target s
        ((s.engine.drainModes .blocking).map Deed.reap) :=
      throughout_map_reap h hwithin _
    have hlast := hreaped.last
    rw [performAll_drain, hdrain] at hlast
    exact hlast
  · have hflight := (Engine.drains_of_ok h hdrain).inFlight_eq
    refine throughout_releaseDeeds done ?_
    simp only [Within, accounted] at hwithin ⊢
    omega

/-- A batch is cut down to what fits under the limit, so it stays within it. -/
theorem throughout_topUpDeeds (h : s.engine.Settled) (hwithin : s.Within limit)
    (hlimit : config.maxReads = some limit) :
    Throughout (Within limit) target s (s.topUpDeeds config depth) := by
  rw [topUpDeeds]
  split
  · exact hwithin
  · refine ⟨hwithin, ?_⟩
    have hwant : (s.wanted config depth).toNat ≤ limit - s.accounted := wanted_le hlimit
    have hflight := Engine.inFlight_submitReads_le h.balanced target (s.wanted config depth)
      s.policy
    simp only [Within, accounted] at hwithin hwant
    simp only [Throughout, Within, accounted, perform]
    omega

/-- What a round wants is what the limit leaves, so it stays within the limit at each of its
deeds. -/
theorem throughout_exchangeDeeds (h : s.engine.Settled) (hwithin : s.Within limit)
    (hlimit : config.maxReads = some limit) :
    Throughout (Within limit) target s (s.exchangeDeeds config depth) := by
  have hreaped : Throughout (Within limit) target s s.reapDeeds := throughout_reapDeeds h hwithin
  refine hreaped.append ?_
  have hlast := hreaped.last
  rw [performAll_reapDeeds] at hlast ⊢
  rcases hreap : s.reapReady with ⟨err | _, s'⟩
  · rw [hreap] at hlast
    exact hlast
  · rw [hreap] at hlast
    have hadvances : s.Advances target s.reapDeeds s' := advances_reapReady h hreap
    exact throughout_topUpDeeds hadvances.settled hlast hlimit

/-- At the end nothing more is submitted, so what is accounted for cannot grow. -/
theorem throughout_shutDownDeeds (h : s.engine.Settled) (hwithin : s.Within limit) (rounds : Nat) :
    Throughout (Within limit) target s (shutDownDeeds rounds s) := by
  induction rounds generalizing s with
  | zero => exact hwithin
  | succ rounds ih =>
    rw [shutDownDeeds]
    split
    · exact hwithin
    · have hreaped : Throughout (Within limit) target s s.reapDeeds :=
        throughout_reapDeeds h hwithin
      refine hreaped.append ?_
      have hlast := hreaped.last
      rw [performAll_reapDeeds] at hlast ⊢
      rcases hreap : s.reapReady with ⟨err | _, s'⟩
      · rw [hreap] at hlast
        exact hlast
      · rw [hreap] at hlast
        have hadvances : s.Advances target s.reapDeeds s' := advances_reapReady h hreap
        exact ih hadvances.settled hlast

end Session

variable {κ π : Type} [Kernel κ] [OffsetPolicy π] {target : ReadTarget} {config : SessionConfig}
  {limit : Nat}

/-! ## Runs

The bound does not need calls to succeed. So it is carried through a run in a simpler way
than its other properties, and holds of a run that fails as well. -/

/-- At every point of a run with a read limit, the reads completed and in flight are within
it. -/
theorem Run.throughout_deeds {around : Surroundings π} {depth : UInt32} {s : Session κ π}
    (h : s.engine.Settled) (hwithin : s.Within limit) (hlimit : config.maxReads = some limit)
    (allowed reading : Nat) :
    Session.Throughout (Session.Within limit) target s
      (Run.deeds around target config depth allowed reading s) := by
  induction allowed generalizing reading s with
  | zero => exact hwithin
  | succ allowed ih =>
    rw [Run.deeds]
    rcases s.stopReason? config (around.clock reading) (around.stop s.policy reading)
      with _ | reason
    · have hround : Session.Throughout (Session.Within limit) target s
          (s.exchangeDeeds config depth) :=
        Session.throughout_exchangeDeeds h hwithin hlimit
      refine hround.append ?_
      have hlast := hround.last
      rw [Session.performAll_exchangeDeeds] at hlast ⊢
      rcases hexchange : s.exchange target config depth with ⟨err | _, s'⟩
      · rw [hexchange] at hlast
        exact hlast
      · rw [hexchange] at hlast
        have hadvances := Session.advances_exchange h hexchange
        have htick : s'.Advances target _ _ :=
          Session.advances_tick hadvances.settled (around.clock (reading + 1))
        refine ⟨hlast, ih htick.settled ?_ (reading + 2)⟩
        rw [Session.Within, htick.accounted_eq]
        exact hlast
    · exact Session.throughout_shutDownDeeds h hwithin _

namespace Engine

/-- At every point of a run with a read limit, on an engine with no read in flight and no
block on loan, the reads completed and in flight are within the limit, whether or not the
run ends well. A run that finishes has completed no more reads than the limit. If the limit
has stopped it, it has completed and submitted exactly so many and has asked the policy once
for each of them. -/
theorem reads_within_limit {e : Engine κ} {policy : Counted π} {around : Surroundings (Counted π)}
    {allowed : Nat} (h : e.Reachable) (hidle : e.inFlight = 0) (hloaned : e.loaned = 0)
    (hlimit : config.maxReads = some limit) :
    let run := e.run target config policy around allowed
    let session := e.session config policy around
    let deeds := e.deeds target config policy around allowed
    session.Throughout (fun s => s.meter.totalReads + s.engine.inFlight.toNat ≤ limit)
        target deeds ∧
      run.engine = (session.performAll target deeds).engine ∧
      ∀ summary, run.outcome = .finished summary →
        summary.reads ≤ limit ∧
          (summary.stoppedBy = .readLimit →
            summary.reads = limit ∧ session.submitted target deeds = limit ∧
              run.policy.calls = policy.calls + limit ∧
              summary.bytes = UInt64.ofNat (limit * e.blockSize)) := by
  intro run session deeds
  have hsettled : e.Settled := ⟨h.balanced, (congrArg UInt32.toNat hidle).trans hloaned.symm⟩
  have hstart : session.accounted = 0 := by
    change 0 + e.inFlight.toNat = 0
    rw [hidle]
    rfl
  have hthroughout : session.Throughout (Session.Within limit) target deeds := by
    change session.Throughout (Session.Within limit) target
      (e.deeds target config policy around allowed)
    rw [Engine.deeds]
    rcases config.fault? with _ | fault
    · exact Run.throughout_deeds hsettled (hstart.trans_le (Nat.zero_le _)) hlimit allowed 1
    · exact hstart.trans_le (Nat.zero_le _)
  obtain ⟨hengine, hpolicy⟩ := performAll_deeds e target config policy around allowed
  refine ⟨hthroughout, hengine, fun summary hfinished => ?_⟩
  obtain ⟨before, after, stopping, last, now, reason, reading, hdeeds, hround, hstop, hend, hend0,
    rfl⟩ := finished_cases hsettled hfinished
  have hadvances := hround.trans hend
  rw [← hdeeds] at hadvances
  have hwithin := hthroughout.last
  rw [hadvances.perform_eq] at hwithin hpolicy
  have htotal : last.accounted = last.meter.totalReads :=
    congrArg (last.meter.totalReads + ·) (congrArg UInt32.toNat hend0)
  have hsubmitted : last.meter.totalReads = session.submitted target deeds := by
    rw [← htotal, hadvances.accounted_eq]
    exact (congrArg (· + _) hstart).trans (Nat.zero_add _)
  have hle : last.meter.totalReads ≤ limit := htotal.symm.trans_le hwithin
  refine ⟨hle, ?_⟩
  rintro rfl
  -- the limit was reached when it was time to stop, and no read is taken back from the count
  have hreached := Session.le_of_stopReason hlimit hstop
  have hkept : stopping.meter.totalReads ≤ last.meter.totalReads :=
    (Nat.le_add_right ..).trans_eq hend.reads_eq.symm
  have heq : last.meter.totalReads = limit := by omega
  have hsize : last.engine.blockSize = e.blockSize :=
    congrArg PoolConfig.blockSize hadvances.config_eq
  refine ⟨heq, hsubmitted.symm.trans heq, ?_, ?_⟩
  · rw [hpolicy, hadvances.policy_eq, ← hsubmitted, heq]
    exact OffsetPolicy.calls_asked ..
  · change UInt64.ofNat (last.meter.totalReads * last.engine.blockSize) = _
    rw [heq, hsize]

/-- Three reads are kept in flight, so the last batch is cut down to two. The block of a
read from before the run stays held meanwhile. -/
theorem reads_within_limit_five :
    ∃ e₀ : Engine SimulatedKernel,
      create { file := SimulatedKernel.patternedFile 4 8, reversed := true } 4 7
        { blockSize := 8, alignment := 8 } = .ok e₀ ∧
        let e := e₀.performAll [.submitReads ⟨3, 32⟩ 1 ({} : Walker), .reap .blocking]
        let run := e.run ⟨3, 32⟩ { queueDepth := 3, maxReads := some 5 }
          ({ policy := {} } : Counted Walker) { clock := id } 9
        e.inFlight = 0 ∧ e.loaned = 0 ∧
          ∃ summary, run.outcome = .finished summary ∧ summary.stoppedBy = .readLimit ∧
            summary.reads = 5 ∧ run.policy.calls = 0 + 5 := by
  have hlimited {e₀ : Engine SimulatedKernel}
      (hcreate : create { file := SimulatedKernel.patternedFile 4 8, reversed := true } 4 7
        { blockSize := 8, alignment := 8 } = .ok e₀) (calls : List Call) :=
    @reads_within_limit _ Walker _ _ ⟨3, 32⟩ { queueDepth := 3, maxReads := some 5 } 5 _
      { policy := {} } { clock := id } 9 ((Reachable.created hcreate).performAll calls)
  refine ⟨_, rfl, ?idle, ?none, ⟨3, 8, none, 5, 8, 4, .readLimit⟩, ?finished, rfl, ?_⟩
  · decide +kernel
  · decide +kernel
  · decide +kernel
  · obtain ⟨-, -, hfinished⟩ := hlimited rfl _ ?idle ?none rfl
    obtain ⟨-, hstopped⟩ := hfinished _ ?finished
    obtain ⟨hreads, -, hcalls, -⟩ := hstopped rfl
    exact ⟨hreads, hcalls⟩

end Engine

end RingRead
