import RingRead.Proofs.Session.Occupancy

/-!
# Stopping on a signal

The stop flag is looked at between two rounds. If it is raised while a batch is staged, the
batch is finished, nothing is submitted after it, and the reads in flight are waited for.

* **Calls that succeed.** `s.allSucceed target deeds` says that no reap and no submission
  among the deeds fails. Every phase of a run then succeeds, and the whole run advances
  (`Run.advances_of_allSucceed`): giving blocks back cannot fail.
* **Up to the flag.** Until the policy was asked `j` times the flag is not raised and the
  read limit is not reached, so each round submits a read at least, and no more than the
  depth (`Steady.accounted_round`). In the end `j` calls are reached by a last batch
  (`Run.signalled`).
-/

namespace RingRead

/-- A stop flag that is raised when the policy is asked for the `count`-th time. This is how
a signal comes in the middle of a batch: while the reads of the batch are being chosen. -/
def Surroundings.raisedAt {π : Type} (clock : Nat → Nat) (count : Nat) : Surroundings (Counted π) :=
  { clock, stop := fun policy _ => decide (count ≤ policy.calls) }

namespace Session

variable {κ π : Type} [Kernel κ] [OffsetPolicy π] {target : ReadTarget} {config : SessionConfig}
  {depth : UInt32} {s s' last : Session κ π} {deeds deeds' : List Deed} {j : Nat}

/-! ## Calls that succeed

The hypothesis that no call fails is about the deeds of a run, each from where it is made.
That the steps between them succeed as well, such as giving blocks back, is not assumed and
follows. -/

/-- Does a deed succeed, if it is a reap or a submission? Of the others none can stop a run:
a release of a block that was just reaped does not fail. -/
def succeeds (target : ReadTarget) (s : Session κ π) : Deed → Bool
  | .reap mode => (s.engine.reap mode).1.toBool
  | .submit requested => (s.engine.submitReads target requested s.policy).1.toBool
  | _ => true

/-- No reap and no submission among the deeds fails. Releases are not asked for: the blocks
that a session gives back are those that it was just given, and these releases succeed by
themselves. -/
def allSucceed (target : ReadTarget) : Session κ π → List Deed → Bool
  | _, [] => true
  | s, deed :: rest => s.succeeds target deed && allSucceed target (s.perform target deed) rest

theorem allSucceed_append : s.allSucceed target (deeds ++ deeds') =
    (s.allSucceed target deeds && (s.performAll target deeds).allSucceed target deeds') := by
  induction deeds generalizing s with
  | nil => rfl
  | cons deed rest ih =>
    rw [List.cons_append, allSucceed, allSucceed, ih, Bool.and_assoc]
    rfl

/-- Reaps that succeed bring something together. -/
theorem gather_of_allSucceed {modes : List ReapMode}
    (h : s.allSucceed target (modes.map Deed.reap) = true) :
    ∃ done, Engine.gather (Engine.reapAll modes s.engine).1 = .ok done := by
  induction modes generalizing s with
  | nil => exact ⟨[], rfl⟩
  | cons mode modes ih =>
    obtain ⟨hfirst, hrest⟩ := Bool.and_eq_true_iff.mp h
    obtain ⟨done, hdone⟩ := ih hrest
    rw [Engine.reapAll]
    rw [succeeds] at hfirst
    rcases hreap : (s.engine.reap mode).1 with abort | (_ | completion)
    · rw [hreap] at hfirst
      cases hfirst
    · exact ⟨[], rfl⟩
    · refine ⟨completion :: done, ?_⟩
      exact congrArg (Except.map _) hdone

theorem reapReady_of_allSucceed (h : s.engine.Settled)
    (hall : s.allSucceed target s.reapDeeds = true) : ∃ s', s.reapReady = (.ok (), s') := by
  rw [reapDeeds, allSucceed_append] at hall
  obtain ⟨hreaps, -⟩ := Bool.and_eq_true_iff.mp hall
  obtain ⟨done, hgather⟩ := gather_of_allSucceed hreaps
  have hdrain := s.engine.drain_eq_reapAll .blocking
  rw [hgather] at hdrain
  obtain ⟨s', hready, -⟩ := reapReady_of_drain h hdrain
  exact ⟨s', hready⟩

/-- Topping up succeeds if its submission does, where it can say how many reads are
missing. -/
theorem topUp_of_allSucceed (hdepth : s.engine.inFlight ≤ depth)
    (hall : s.allSucceed target (s.topUpDeeds config depth) = true) :
    ∃ s', s.topUp target config depth = (.ok (), s') := by
  rw [topUpDeeds] at hall
  rw [topUp_of_le config hdepth]
  split at hall
  · next hwant => exact ⟨s, if_pos hwant⟩
  · next hwant =>
    obtain ⟨hsubmits, -⟩ := Bool.and_eq_true_iff.mp hall
    rw [succeeds] at hsubmits
    rw [if_neg hwant]
    rcases hsubmit : s.engine.submitReads target (s.wanted config depth) s.policy
      with ⟨err | n, engine, policy⟩
    · rw [hsubmit] at hsubmits
      cases hsubmits
    · exact ⟨_, rfl⟩

theorem exchange_of_allSucceed (h : s.Steady config depth)
    (hall : s.allSucceed target (s.exchangeDeeds config depth) = true) :
    ∃ reaped s', s.reapReady = (.ok (), reaped) ∧
      reaped.topUp target config depth = (.ok (), s') := by
  rw [exchangeDeeds, allSucceed_append] at hall
  obtain ⟨hreaps, hsubmits⟩ := Bool.and_eq_true_iff.mp hall
  obtain ⟨reaped, hreap⟩ := reapReady_of_allSucceed h.settled hreaps
  rw [performAll_reapDeeds, hreap] at hsubmits
  obtain ⟨s', htop⟩ := topUp_of_allSucceed (h.reapReady hreap).inFlight_le hsubmits
  exact ⟨reaped, s', hreap, htop⟩

/-- Waiting for the reads in flight succeeds if its reaps do. -/
theorem shutDownWithin_of_allSucceed {rounds : Nat} (h : s.engine.Settled)
    (hall : s.allSucceed target (shutDownDeeds rounds s) = true) :
    ∃ s', shutDownWithin rounds s = (.ok (), s') := by
  induction rounds generalizing s with
  | zero => exact ⟨s, rfl⟩
  | succ rounds ih =>
    rw [shutDownDeeds] at hall
    rw [shutDownWithin]
    split at hall
    · next hidle => exact ⟨s, if_pos hidle⟩
    · next hbusy =>
      rw [allSucceed_append] at hall
      obtain ⟨hreaps, hrest⟩ := Bool.and_eq_true_iff.mp hall
      obtain ⟨reaped, hreap⟩ := reapReady_of_allSucceed h hreaps
      have hreaped : s.Advances target s.reapDeeds reaped := advances_reapReady h hreap
      rw [performAll_reapDeeds, hreap] at hrest
      rw [if_neg hbusy, hreap]
      exact ih hreaped.settled hrest

/-! ## Up to the flag

Each round brings the count of choices nearer to `j`, since it submits at least one read. It
does not matter how many reads complete in a round, because those that do are replaced. -/

/-- Deeds without a submission submit nothing. -/
theorem submitted_eq_zero (h : deeds.filterMap Deed.submission? = []) :
    s.submitted target deeds = 0 := by
  induction deeds generalizing s with
  | nil => rfl
  | cons deed rest ih =>
    cases deed with
    | submit requested => cases h
    | reap mode => exact (Nat.zero_add _).trans (ih h)
    | record => exact (Nat.zero_add _).trans (ih h)
    | release token => exact (Nat.zero_add _).trans (ih h)
    | tick now => exact (Nat.zero_add _).trans (ih h)

/-- A policy that counts is asked once for each read that becomes accounted for. -/
theorem Advances.calls_add {s s' : Session κ (Counted π)} (h : s.Advances target deeds s') :
    s'.policy.calls + s.accounted = s.policy.calls + s'.accounted := by
  rw [h.policy_eq, OffsetPolicy.calls_asked, h.accounted_eq]
  omega

/-- Once nothing is in flight, no block is on loan, and the block of every read that was
reaped is on the free stack. -/
theorem Advances.mem_free (h : s.Advances target deeds s') (hidle : s'.engine.inFlight = 0) :
    (∀ id, s'.engine.pool.state? id ≠ some .loaned) ∧
      ∀ done ∈ s.reaped target deeds, done.token.id ∈ s'.engine.pool.free := by
  have hnone := h.settled.state?_ne_loaned hidle
  refine ⟨hnone, fun done hdone => ?_⟩
  obtain hloaned | ⟨n, hn, heq⟩ := h.reaped done hdone
  · exact absurd hloaned (hnone _)
  · exact UInt32.toNat_inj.mp heq ▸ hn

/-- As long as the limit leaves room, a round submits at least one read, and no more than
the depth.
-/
theorem Steady.accounted_round {reaped : Session κ π} (h : s.Steady config depth) (hpos : 0 < depth)
    (hroom : ∀ limit, config.maxReads = some limit → s.accounted < limit)
    (hreap : s.reapReady = (.ok (), reaped))
    (htop : reaped.topUp target config depth = (.ok (), s')) :
    reaped.wanted config depth ≠ 0 ∧ s.accounted < s'.accounted ∧
      s'.accounted ≤ s.accounted + depth.toNat := by
  have haccounted := accounted_reapReady h.settled hreap
  have hreaped := h.reapReady hreap
  have hwant : reaped.wanted config depth ≠ 0 :=
    wanted_ne_zero (h.inFlight_reapReady_lt hpos hreap) fun limit hlimit =>
      haccounted.trans_lt (hroom limit hlimit)
  obtain ⟨hmeter, hflight⟩ := hreaped.inFlight_topUp htop
  have hfits : reaped.engine.inFlight.toNat + (reaped.wanted config depth).toNat ≤ depth.toNat :=
    inFlight_add_wanted_le hreaped.inFlight_le
  have hone := UInt32.lt_iff_toNat_lt.mp (UInt32.pos_iff_ne_zero.mpr hwant)
  rw [UInt32.toNat_zero] at hone
  have hnext : s'.accounted = reaped.accounted + (reaped.wanted config depth).toNat := by
    rw [accounted, accounted, hmeter, hflight, Nat.add_assoc]
  exact ⟨hwant, by omega, by omega⟩

/-- Deeds lead to a session with nothing in flight, and the last submission among them
brings the reads that are accounted for up to `j` and less than the depth beyond. -/
structure Signalled (target : ReadTarget) (depth : UInt32) (j : Nat) (s : Session κ π)
    (deeds : List Deed) (last : Session κ π) : Prop where
  advances : s.Advances target deeds last
  idle : last.engine.inFlight = 0
  le_accounted : j ≤ last.accounted
  accounted_lt : last.accounted < j + depth.toNat
  last_batch : ∃ before requested after staging, deeds = before ++ .submit requested :: after ∧
    after.filterMap Deed.submission? = [] ∧ s.Advances target before staging ∧
    staging.accounted < j

theorem Signalled.of_advances (h : s.Advances target deeds s')
    (h' : s'.Signalled target depth j deeds' last) :
    s.Signalled target depth j (deeds ++ deeds') last := by
  refine ⟨h.trans h'.advances, h'.idle, h'.le_accounted, h'.accounted_lt, ?_⟩
  obtain ⟨before, requested, after, staging, rfl, hafter, hbefore, hless⟩ := h'.last_batch
  exact ⟨deeds ++ before, requested, after, staging, (List.append_assoc ..).symm, hafter,
    h.trans hbefore, hless⟩

/-- A round whose batch reaches `j`, and then deeds that submit nothing, with nothing in
flight at the end. -/
theorem signalled_of_round {reaped : Session κ π} (h : s.Steady config depth) (hpos : 0 < depth)
    (hroom : ∀ limit, config.maxReads = some limit → s.accounted < limit)
    (hbefore : s.accounted < j) (hreap : s.reapReady = (.ok (), reaped))
    (htop : reaped.topUp target config depth = (.ok (), s')) (hreached : j ≤ s'.accounted)
    (hafter : s'.Advances target deeds last) (hnone : deeds.filterMap Deed.submission? = [])
    (hidle : last.engine.inFlight = 0) :
    s.Signalled target depth j (s.exchangeDeeds config depth ++ deeds) last := by
  obtain ⟨hwant, -, hle⟩ := h.accounted_round hpos hroom hreap htop
  have hreaped : s.Advances target s.reapDeeds reaped := advances_reapReady h.settled hreap
  have htopped := advances_topUp hreaped.settled htop
  have hlast := hafter.accounted_eq
  rw [submitted_eq_zero hnone] at hlast
  have hdeeds : s.exchangeDeeds config depth =
      s.reapDeeds ++ [.submit (reaped.wanted config depth)] := by
    rw [exchangeDeeds, hreap]
    exact congrArg _ (if_neg hwant)
  rw [topUpDeeds, if_neg hwant] at htopped
  rw [hdeeds]
  refine ⟨(hreaped.trans htopped).trans hafter, hidle, by omega, by omega, s.reapDeeds,
    reaped.wanted config depth, deeds, reaped, List.append_assoc .., hnone, hreaped, ?_⟩
  exact (accounted_reapReady h.settled hreap).trans_lt hbefore

/-! ## Looking at the flag

Of the three reasons to stop, the signal is asked for first. So a run that has reached its
limit in the batch in which the flag was raised says that it was stopped by the signal. -/

omit [Kernel κ] [OffsetPolicy π] in
/-- The flag comes first. -/
theorem stopReason?_of_stop (s : Session κ π) (config : SessionConfig) (now : Nat) :
    s.stopReason? config now true = some .signal :=
  if_pos rfl

omit [Kernel κ] [OffsetPolicy π] in
/-- Without a time limit and with room under the read limit it is not time to stop before
the flag is raised. -/
theorem stopReason?_of_room {now : Nat} (hduration : config.duration = none)
    (hroom : ∀ limit, config.maxReads = some limit → s.accounted < limit) :
    s.stopReason? config now false = none := by
  have hreads : config.maxReads.any (· ≤ s.meter.totalReads) = false := by
    rcases hlimit : config.maxReads with _ | limit
    · rfl
    · have hlt : s.meter.totalReads < limit :=
        (Nat.le_add_right ..).trans_lt (hroom limit hlimit)
      exact decide_eq_false (Nat.not_le.mpr hlt)
  rw [stopReason?, hduration, hreads]
  rfl

end Session

/-! ## Runs

The flag is raised in the middle of a batch and seen at the beginning of the next round.
From there on only reaps follow. -/

namespace Run

variable {κ π : Type} [Kernel κ] [OffsetPolicy π] {around : Surroundings π} {target : ReadTarget}
  {config : SessionConfig} {depth : UInt32} {allowed reading : Nat} {s : Session κ π}

/-- Where it is not time to stop, a run of which no call fails goes through a round and
on. -/
theorem round_of_allSucceed (h : s.Steady config depth)
    (hstop : s.stopReason? config (around.clock reading) (around.stop s.policy reading) = none)
    (hall : s.allSucceed target
      (Run.deeds around target config depth (allowed + 1) reading s) = true) :
    ∃ reaped s', s.reapReady = (.ok (), reaped) ∧
      reaped.topUp target config depth = (.ok (), s') ∧
      let now := around.clock (reading + 1)
      let rest := Run.deeds around target config depth allowed (reading + 2) (s'.tick now).2
      Run.deeds around target config depth (allowed + 1) reading s =
          s.exchangeDeeds config depth ++ ([.tick now] ++ rest) ∧
        s.Advances target (s.exchangeDeeds config depth) s' ∧
        s'.Advances target [.tick now] (s'.tick now).2 ∧
        (s'.tick now).2.allSucceed target rest = true ∧
        ∀ reports rounds,
          loop around target config depth (allowed + 1) reading reports rounds s =
            loop around target config depth allowed (reading + 2)
              ((s'.tick now).1.toList ++ reports) (rounds + 1) (s'.tick now).2 := by
  rw [Run.deeds, hstop] at hall
  dsimp only at hall
  rw [Session.allSucceed_append, Session.performAll_exchangeDeeds] at hall
  obtain ⟨hround, hrest⟩ := Bool.and_eq_true_iff.mp hall
  obtain ⟨reaped, s', hreap, htop⟩ := Session.exchange_of_allSucceed h hround
  have hexchange : s.exchange target config depth = (.ok (), s') := by
    rw [Session.exchange, hreap]
    exact htop
  have hadvances := Session.advances_exchange h.settled hexchange
  rw [hexchange] at hrest
  refine ⟨reaped, s', hreap, htop, ?_, hadvances, Session.advances_tick hadvances.settled _,
    (Bool.and_eq_true_iff.mp hrest).2, fun reports rounds => ?_⟩
  · rw [Run.deeds, hstop, hexchange]
    rfl
  · rw [loop_succ, hstop, hexchange]

/-- Where it is time to stop, a run of which no call fails waits for the reads in flight and
is finished. -/
theorem finished_of_allSucceed {reason : StopReason} (h : s.engine.Settled)
    (hstop : s.stopReason? config (around.clock reading) (around.stop s.policy reading) =
      some reason)
    (hall : s.allSucceed target
      (Run.deeds around target config depth (allowed + 1) reading s) = true) :
    Run.deeds around target config depth (allowed + 1) reading s =
        Session.shutDownDeeds s.engine.inFlight.toNat s ∧
      ∃ last, s.Advances target (Session.shutDownDeeds s.engine.inFlight.toNat s) last ∧
        last.engine.inFlight = 0 ∧ ∀ reports rounds,
          (loop around target config depth (allowed + 1) reading reports rounds s).outcome =
            .finished (last.summary depth (around.clock (reading + 1)) reason) := by
  have hdeeds : Run.deeds around target config depth (allowed + 1) reading s =
      Session.shutDownDeeds s.engine.inFlight.toNat s := by
    rw [Run.deeds, hstop]
  rw [hdeeds] at hall
  obtain ⟨last, hshut⟩ := Session.shutDownWithin_of_allSucceed h hall
  obtain ⟨hadvances, hidle⟩ : s.Advances target _ last ∧ _ :=
    Session.advances_shutDownWithin h (Nat.le_refl _) hshut
  refine ⟨hdeeds, last, hadvances, hidle, fun reports rounds => ?_⟩
  rw [loop_succ, hstop]
  dsimp only
  rw [Session.shutDown, hshut]
  rfl

/-- A run of which no call fails advances, whether or not it ends. -/
theorem advances_of_allSucceed (h : s.Steady config depth)
    (hall : s.allSucceed target (Run.deeds around target config depth allowed reading s) = true) :
    ∃ last, s.Advances target (Run.deeds around target config depth allowed reading s) last := by
  induction allowed generalizing reading s with
  | zero => exact ⟨s, .refl h.settled⟩
  | succ allowed ih =>
    rcases hstop : s.stopReason? config (around.clock reading) (around.stop s.policy reading)
      with _ | reason
    -- a round whose deeds all succeed is a whole one, and the rest of the run is as good
    · obtain ⟨reaped, s', hreap, htop, hdeeds, hround, htick, hrest, -⟩ :=
        round_of_allSucceed h hstop hall
      obtain ⟨last, hlast⟩ := ih (((h.reapReady hreap).topUp htop).tick _) hrest
      rw [hdeeds]
      exact ⟨last, hround.trans (htick.trans hlast)⟩
    · obtain ⟨hdeeds, last, hadvances, -⟩ := finished_of_allSucceed h.settled hstop hall
      rw [hdeeds]
      exact ⟨last, hadvances⟩

/-- A flag that is raised when the policy is asked for the `j`-th time stops a run of which
no call fails. So many rounds are enough, since each of them asks the policy. -/
theorem signalled {clock : Nat → Nat} {s : Session κ (Counted π)} {base j : Nat}
    (hduration : config.duration = none) (hpos : 0 < depth)
    (hlimit : ∀ limit, config.maxReads = some limit → j ≤ limit) (h : s.Steady config depth)
    (hcalls : s.policy.calls = base + s.accounted) (hbefore : s.accounted < j)
    (hallowed : j < s.accounted + allowed)
    (hall : s.allSucceed target
      (Run.deeds (.raisedAt clock (base + j)) target config depth allowed reading s) = true) :
    ∃ last now,
      s.Signalled target depth j
          (Run.deeds (.raisedAt clock (base + j)) target config depth allowed reading s) last ∧
        ∀ reports rounds,
          (loop (.raisedAt clock (base + j)) target config depth allowed reading reports rounds
            s).outcome = .finished (last.summary depth now .signal) := by
  let around : Surroundings (Counted π) := .raisedAt clock (base + j)
  have hflag (policy : Counted π) (reading : Nat) :
      around.stop policy reading = decide (base + j ≤ policy.calls) :=
    rfl
  induction allowed generalizing reading s with
  | zero => omega
  | succ allowed ih =>
    have hroom : ∀ limit, config.maxReads = some limit → s.accounted < limit := fun limit hmax =>
      hbefore.trans_le (hlimit limit hmax)
    have hstop : s.stopReason? config (around.clock reading) (around.stop s.policy reading) =
        none := by
      -- the policy was asked once for each read that is accounted for, fewer than `j` times
      rw [hflag, hcalls, decide_eq_false (by omega)]
      exact Session.stopReason?_of_room hduration hroom
    obtain ⟨reaped, s', hreap, htop, hdeeds, hround, htick, hrest, hloop⟩ :=
      round_of_allSucceed h hstop hall
    obtain ⟨-, hmore, -⟩ := h.accounted_round hpos hroom hreap htop
    have hsteady := ((h.reapReady hreap).topUp htop).tick (around.clock (reading + 1))
    have hticked : (s'.tick (around.clock (reading + 1))).2.accounted = s'.accounted :=
      htick.accounted_eq
    have hcalls' := (hround.trans htick).calls_add
    generalize (s'.tick (around.clock (reading + 1))).2 = next at *
    by_cases hreached : j ≤ s'.accounted
    · -- the flag is seen as soon as the round is over
      obtain ⟨allowed, rfl⟩ : ∃ n, allowed = n + 1 :=
        Nat.exists_eq_succ_of_ne_zero (by omega)
      have hstop' : next.stopReason? config (around.clock (reading + 2))
          (around.stop next.policy (reading + 2)) = some .signal := by
        rw [hflag, decide_eq_true (by omega)]
        exact next.stopReason?_of_stop config _
      obtain ⟨hdeeds', last, hend, hidle, hfinished⟩ :=
        finished_of_allSucceed hsteady.settled hstop' hrest
      refine ⟨last, around.clock (reading + 3), ?_, fun reports rounds => ?_⟩
      · rw [hdeeds, hdeeds']
        exact Session.signalled_of_round h hpos hroom hbefore hreap htop hreached
          (htick.trans hend) (Session.submissions_shutDownDeeds _ next) hidle
      · rw [hloop]
        exact hfinished _ _
    · obtain ⟨last, now, hsignalled, hfinished⟩ :=
        ih hsteady (by omega) (by omega) (by omega) hrest
      refine ⟨last, now, ?_, fun reports rounds => ?_⟩
      · rw [hdeeds]
        exact (hsignalled.of_advances htick).of_advances hround
      · rw [hloop]
        exact hfinished _ _

end Run

namespace Engine

variable {κ π : Type} [Kernel κ] [OffsetPolicy π] {e : Engine κ} {target : ReadTarget}
  {config : SessionConfig} {policy : Counted π} {allowed j : Nat} {clock : Nat → Nat}

/-- A run on an idle engine of which no call fails has asked the policy once for each read
that is accounted for in the end, and no more often than the read limit. -/
theorem advances_of_allSucceed {around : Surroundings (Counted π)} (h : e.Reachable)
    (hidle : e.inFlight = 0) (hloaned : e.loaned = 0) (hfault : config.fault? = none)
    (hall : (e.session config policy around).allSucceed target
      (e.deeds target config policy around allowed) = true) :
    let run := e.run target config policy around allowed
    ∃ last, (e.session config policy around).Advances target
        (e.deeds target config policy around allowed) last ∧
      run.engine = last.engine ∧ run.policy = last.policy ∧
      run.policy.calls = policy.calls + last.accounted ∧
      ∀ limit, config.maxReads = some limit → last.accounted ≤ limit := by
  intro run
  have hsteady := steady_session h hidle hloaned config policy around
  have hstart := accounted_session hidle config policy around
  have hdeeds : e.deeds target config policy around allowed =
      Run.deeds around target config (Session.depth config e) allowed 1
        (e.session config policy around) := by
    rw [deeds, hfault]
  obtain ⟨hengine, hpolicy⟩ := performAll_deeds e target config policy around allowed
  rw [hdeeds] at hall hengine hpolicy ⊢
  obtain ⟨last, hadvances⟩ := Run.advances_of_allSucceed hsteady hall
  rw [hadvances.perform_eq] at hengine hpolicy
  refine ⟨last, hadvances, hengine, hpolicy, ?_, fun limit hlimit => ?_⟩
  · have hcalls := hadvances.calls_add
    rw [hstart] at hcalls
    exact (congrArg Counted.calls hpolicy).trans hcalls
  · have hthroughout : Session.Throughout (Session.Within limit) target _
        (Run.deeds around target config (Session.depth config e) allowed 1 _) :=
      Run.throughout_deeds hsteady.settled (hstart.trans_le (Nat.zero_le limit)) hlimit allowed 1
    have hwithin := hthroughout.last
    rw [hadvances.perform_eq] at hwithin
    exact hwithin

/-- With room under the read limit, the flag stops the run. -/
theorem signalled_run (h : e.Reachable) (hidle : e.inFlight = 0) (hloaned : e.loaned = 0)
    (hfault : config.fault? = none) (hduration : config.duration = none) (hone : 1 ≤ j)
    (hallowed : j < allowed) (hlimit : ∀ limit, config.maxReads = some limit → j ≤ limit)
    (hall : (e.session config policy (.raisedAt clock (policy.calls + j))).allSucceed target
      (e.deeds target config policy (.raisedAt clock (policy.calls + j)) allowed) = true) :
    ∃ last now,
      (e.session config policy (.raisedAt clock (policy.calls + j))).Signalled target
          (Session.depth config e) j
          (e.deeds target config policy (.raisedAt clock (policy.calls + j)) allowed) last ∧
        (e.run target config policy (.raisedAt clock (policy.calls + j)) allowed).outcome =
          .finished (last.summary (Session.depth config e) now .signal) := by
  have hstart := accounted_session hidle config policy (.raisedAt clock (policy.calls + j))
  have hsteady := steady_session h hidle hloaned config policy
    (.raisedAt clock (policy.calls + j))
  rw [deeds, hfault] at hall ⊢
  rw [run, hfault]
  obtain ⟨last, now, hsignalled, hfinished⟩ :=
    Run.signalled hduration (depth_pos h hfault) hlimit hsteady
      (congrArg (policy.calls + ·) hstart.symm) (hstart.trans_lt hone) (by omega) hall
  exact ⟨last, now, hsignalled, hfinished [] 0⟩

/-- If the flag was raised before, a run on an idle engine is finished without having done
anything.
-/
theorem run_of_raised {around : Surroundings π} {policy : π} (hidle : e.inFlight = 0)
    (hfault : config.fault? = none) (hraised : around.stop policy 1 = true)
    (hallowed : 0 < allowed) :
    e.deeds target config policy around allowed = [] ∧
      (e.run target config policy around allowed).policy = policy ∧
      ∃ now, (e.run target config policy around allowed).outcome = .finished
        ((e.session config policy around).summary (Session.depth config e) now .signal) := by
  obtain ⟨allowed, rfl⟩ : ∃ n, allowed = n + 1 :=
    Nat.exists_eq_succ_of_ne_zero (Nat.ne_of_gt hallowed)
  have hstop : (e.session config policy around).stopReason? config (around.clock 1)
      (around.stop (e.session config policy around).policy 1) = some .signal := by
    change Session.stopReason? _ config (around.clock 1) (around.stop policy 1) = _
    rw [hraised]
    exact Session.stopReason?_of_stop _ config _
  have hzero : (e.session config policy around).engine.inFlight.toNat = 0 :=
    congrArg UInt32.toNat hidle
  -- the run stops before its first round, with nothing to wait for
  have hrun : e.run target config policy around (allowed + 1) =
      Run.ending (.finished ((e.session config policy around).summary (Session.depth config e)
        (around.clock 2) .signal)) (e.session config policy around) [] 0 := by
    rw [run, hfault]
    change Run.loop _ _ _ _ _ _ _ _ (e.session config policy around) = _
    rw [Run.loop_succ, hstop]
    dsimp only
    rw [Session.shutDown, hzero]
    rfl
  refine ⟨?_, ?_, around.clock 2, ?_⟩
  · rw [deeds, hfault]
    dsimp only
    rw [Run.deeds, hstop, hzero]
    rfl
  · rw [hrun]
    rfl
  · rw [hrun]
    rfl

/-- A run on an idle engine, without a time limit. If no call fails and the stop flag is
raised when the policy is asked for the `j`-th time, which happens unless the read limit is
less, the run is finished and was stopped by the signal, even where the read limit is
reached as well. It has asked the policy `j` times and less than the depth beyond: the batch
that was being staged was the last one. All of these reads are reaped and counted, and their
blocks are on the free stack. If the flag was raised before the run, nothing is done. -/
theorem stopped_by_signal (h : e.Reachable) (hidle : e.inFlight = 0) (hloaned : e.loaned = 0)
    (hfault : config.fault? = none) (hduration : config.duration = none) :
    (∀ j allowed, 1 ≤ j → j < allowed →
      let around : Surroundings (Counted π) := .raisedAt clock (policy.calls + j)
      let run := e.run target config policy around allowed
      let session := e.session config policy around
      let deeds := e.deeds target config policy around allowed
      session.allSucceed target deeds = true →
        (policy.calls + j ≤ run.policy.calls ↔
          ∀ limit, config.maxReads = some limit → j ≤ limit) ∧
        (policy.calls + j ≤ run.policy.calls →
          ∃ summary, run.outcome = .finished summary ∧ summary.stoppedBy = .signal ∧
            j ≤ summary.reads ∧ summary.reads ≤ j + (Session.depth config e).toNat - 1 ∧
            run.policy.calls = policy.calls + summary.reads ∧
            (∃ before requested after, deeds = before ++ .submit requested :: after ∧
              (session.performAll target before).policy.calls < policy.calls + j ∧
              after.filterMap Deed.submission? = []) ∧
            run.engine.inFlight = 0 ∧ (∀ id, run.engine.pool.state? id ≠ some .loaned) ∧
            (∀ id, run.engine.pool.state? id = some .held ↔ e.pool.state? id = some .held) ∧
            (session.reaped target deeds).length = summary.reads ∧
            ∀ done ∈ session.reaped target deeds, done.token.id ∈ run.engine.pool.free)) ∧
      ∀ (around : Surroundings (Counted π)) (allowed : Nat),
        around.stop policy 1 = true → 0 < allowed →
          e.deeds target config policy around allowed = [] ∧
            (e.run target config policy around allowed).policy = policy ∧
            ∃ summary, (e.run target config policy around allowed).outcome = .finished summary ∧
              summary.stoppedBy = .signal ∧ summary.reads = 0 := by
  refine ⟨fun j allowed hone hallowed => ?_, fun around allowed hraised hallowed => ?_⟩
  · intro around run session deeds hall
    have hstart : session.accounted = 0 := accounted_session hidle config policy around
    obtain ⟨last, hadvances, hengine, hpolicy, hcalls, hwithin⟩ :=
      advances_of_allSucceed h hidle hloaned hfault hall
    change run.policy.calls = policy.calls + last.accounted at hcalls
    have hreach (hmade : policy.calls + j ≤ run.policy.calls) (limit : Nat)
        (hlimit : config.maxReads = some limit) : j ≤ limit := by
      have hle := hwithin limit hlimit
      omega
    have hend (hlimit : ∀ limit, config.maxReads = some limit → j ≤ limit) :
        ∃ now, session.Signalled target (Session.depth config e) j deeds last ∧
          run.outcome = .finished (last.summary (Session.depth config e) now .signal) := by
      obtain ⟨last', now, hsignalled, hfinished⟩ :=
        signalled_run h hidle hloaned hfault hduration hone hallowed hlimit hall
      -- the deeds lead to one session
      obtain rfl : last = last' :=
        hadvances.perform_eq.symm.trans hsignalled.advances.perform_eq
      exact ⟨now, hsignalled, hfinished⟩
    refine ⟨⟨hreach, fun hlimit => ?_⟩, fun hmade => ?_⟩
    · obtain ⟨now, hsignalled, -⟩ := hend hlimit
      have hle := hsignalled.le_accounted
      omega
    · obtain ⟨now, hsignalled, hfinished⟩ := hend (hreach hmade)
      have hreads : last.accounted = last.meter.totalReads :=
        congrArg (last.meter.totalReads + ·) (congrArg UInt32.toNat hsignalled.idle)
      have hle := hsignalled.le_accounted
      have hlt := hsignalled.accounted_lt
      obtain ⟨hnone, hfree⟩ := hadvances.mem_free hsignalled.idle
      obtain ⟨before, requested, after, staging, hsplit, hafter, hbefore, hless⟩ :=
        hsignalled.last_batch
      refine ⟨_, hfinished, rfl, hle.trans_eq hreads, ?_, ?_,
        ⟨before, requested, after, hsplit, ?_, hafter⟩, ?_⟩
      · change last.meter.totalReads ≤ _
        omega
      · exact hcalls.trans (congrArg (policy.calls + ·) hreads)
      · have hbatch := hbefore.calls_add
        rw [hstart] at hbatch
        change staging.policy.calls + 0 = policy.calls + staging.accounted at hbatch
        rw [hbefore.perform_eq]
        omega
      · rw [hengine]
        exact ⟨hsignalled.idle, hnone, hadvances.held_iff,
          (hadvances.reads_eq.trans (Nat.zero_add _)).symm, hfree⟩
  · obtain ⟨hdeeds, hpolicy, now, hfinished⟩ := run_of_raised hidle hfault hraised hallowed
    exact ⟨hdeeds, hpolicy, _, hfinished, rfl, rfl⟩

/-- Three reads are kept in flight, and the flag is raised at the fourth one. It is staged
in a batch of two, which reaches the read limit as well. -/
theorem stopped_by_signal_at_limit :
    ∃ e₀ : Engine SimulatedKernel,
      create { file := SimulatedKernel.patternedFile 4 8, reversed := true } 4 7
        { blockSize := 8, alignment := 8 } = .ok e₀ ∧
        let e := e₀.performAll [.submitReads ⟨3, 32⟩ 1 ({} : Walker), .reap .blocking]
        let config : SessionConfig := { queueDepth := 3, maxReads := some 5 }
        let policy : Counted Walker := { policy := {}, calls := 1 }
        let around : Surroundings (Counted Walker) := .raisedAt id (policy.calls + 4)
        let run := e.run ⟨3, 32⟩ config policy around 5
        let session := e.session config policy around
        let deeds := e.deeds ⟨3, 32⟩ config policy around 5
        e.inFlight = 0 ∧ e.loaned = 0 ∧ config.fault? = none ∧ config.duration = none ∧
          session.allSucceed ⟨3, 32⟩ deeds = true ∧ policy.calls + 4 ≤ run.policy.calls ∧
          (∃ summary, run.outcome = .finished summary ∧ summary.stoppedBy = .signal ∧
            4 ≤ summary.reads ∧ run.policy.calls = policy.calls + summary.reads ∧
            run.engine.inFlight = 0 ∧ (∀ id, run.engine.pool.state? id ≠ some .loaned) ∧
            ∀ done ∈ session.reaped ⟨3, 32⟩ deeds, done.token.id ∈ run.engine.pool.free) ∧
          e.deeds ⟨3, 32⟩ config policy { clock := id, stop := fun _ _ => true } 1 = [] := by
  have hstopped {e₀ : Engine SimulatedKernel}
      (hcreate : create { file := SimulatedKernel.patternedFile 4 8, reversed := true } 4 7
        { blockSize := 8, alignment := 8 } = .ok e₀) (calls : List Call) :=
    @stopped_by_signal _ Walker _ _ _ ⟨3, 32⟩ { queueDepth := 3, maxReads := some 5 }
      { policy := {}, calls := 1 } id ((Reachable.created hcreate).performAll calls)
  refine ⟨_, rfl, ?idle, ?none, ?valid, rfl, ?succeed, ?made, ?_, ?_⟩
  · decide +kernel
  · decide +kernel
  · decide +kernel
  · decide +kernel
  · decide +kernel
  · obtain ⟨hsignal, -⟩ := hstopped rfl _ ?idle ?none ?valid rfl
    obtain ⟨-, hmade⟩ := hsignal 4 5 (by decide) (by decide) ?succeed
    obtain ⟨summary, hfinished, hstop, hle, -, hreads, -, hidle, hnone, -, -, hfree⟩ :=
      hmade ?made
    exact ⟨summary, hfinished, hstop, hle, hreads, hidle, hnone, hfree⟩
  · obtain ⟨-, hraised⟩ := hstopped rfl _ ?idle ?none ?valid rfl
    exact (hraised { clock := id, stop := fun _ _ => true } 1 rfl (by decide)).1

end Engine

end RingRead
