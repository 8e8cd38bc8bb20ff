import RingRead.Proofs.Engine.Lockstep
import RingRead.Proofs.Session.Conservation

/-!
# Sessions on kernels in lockstep

What a session does depends on its kernel through the answers to its calls, and on the clock
through a time limit alone. So two sessions on kernels in lockstep do the same, round by
round, even if their clocks show different times, as long as there is no time limit
(`Kernel.Lockstep.run`). What they report differs in measured times: how long the run took,
and when reporting intervals ended. On one clock nothing differs at all.
-/

namespace RingRead

variable {κ κ' π : Type}

/-- Two sessions on paired engines that have the same policy and have counted the same
reads. If they are `timed` by one clock, their meters are the same. Otherwise these differ
in what was read from the clock. -/
structure Session.Paired (R : κ → κ' → Prop) (timed : Prop) (s : Session κ π)
    (s' : Session κ' π) : Prop where
  engine : s.engine.Paired R s'.engine
  policy_eq : s'.policy = s.policy
  totalReads_eq : s'.meter.totalReads = s.meter.totalReads
  meter_eq : timed → s'.meter = s.meter

/-- How a run ended, without the time that it took. -/
def RunOutcome.timeless : RunOutcome → RunOutcome
  | .finished summary => .finished { summary with elapsed := 0 }
  | .failed failure => .failed failure
  | .overflowed operation => .overflowed operation
  | .unfinished => .unfinished

/-- Two runs that ended alike after the same number of rounds, with paired engines. If they
are `timed` by one clock, they also took the same time and reported the same. -/
structure Run.Paired (R : κ → κ' → Prop) (timed : Prop) (run : Run κ π) (run' : Run κ' π) :
    Prop where
  engine : run.engine.Paired R run'.engine
  policy_eq : run'.policy = run.policy
  rounds_eq : run'.rounds = run.rounds
  timeless_eq : run'.outcome.timeless = run.outcome.timeless
  outcome_eq : timed → run'.outcome = run.outcome
  reports_eq : timed → run'.reports = run.reports

/-- Paired engines look the same but for the memory of their kernels. -/
theorem Engine.Paired.look {R : κ → κ' → Prop} {e : Engine κ} {e' : Engine κ'}
    (h : e.Paired R e') :
    e'.pool = e.pool ∧ e'.inFlight = e.inFlight ∧ e'.capacity = e.capacity := by
  obtain ⟨kernel, rfl, -⟩ := h
  exact ⟨rfl, rfl, rfl⟩

namespace Kernel.Lockstep

variable [Kernel κ] [Kernel κ'] [OffsetPolicy π] {R : κ → κ' → Prop} {timed : Prop}
  {s : Session κ π} {s' : Session κ' π} {target : ReadTarget} {config : SessionConfig}
  {around around' : Surroundings π}

/-! ## A round

A session sees its kernel through the answers of its engine. With paired engines these are
the same, and so is each step of a round. -/

omit [Kernel κ] [Kernel κ'] [OffsetPolicy π] in
/-- Giving blocks back does not involve the kernel, so both sides do the same. -/
theorem releaseAll (hs : s.Paired R timed s') (done : List Completion) :
    Alike (Session.Paired R timed) (Session.releaseAll done s) (Session.releaseAll done s') := by
  induction done generalizing s s' with
  | nil => exact ⟨rfl, hs⟩
  | cons done rest ih =>
    obtain ⟨answer, e₁, e₁', hrelease, hrelease', he₁⟩ := (release hs.engine done.token).exists
    simp only [Session.releaseAll, hrelease, hrelease']
    have hcounted : Session.Paired R timed ⟨e₁, s.policy, s.meter.record⟩
        ⟨e₁', s'.policy, s'.meter.record⟩ :=
      ⟨he₁, hs.policy_eq, congrArg (· + 1) hs.totalReads_eq,
        fun htimed => congrArg Meter.record (hs.meter_eq htimed)⟩
    rcases answer with err | _
    · exact ⟨rfl, hcounted⟩
    · exact ih hcounted

omit [OffsetPolicy π] in
/-- Taking back what has completed takes the same reads on both sides. -/
theorem reapReady (h : Lockstep R) (hs : s.Paired R timed s') :
    Alike (Session.Paired R timed) s.reapReady s'.reapReady := by
  obtain ⟨answer, e₁, e₁', hdrain, hdrain', he₁⟩ := (h.drain hs.engine .blocking).exists
  simp only [Session.reapReady, hdrain, hdrain']
  have hdrained : Session.Paired R timed ⟨e₁, s.policy, s.meter⟩ ⟨e₁', s'.policy, s'.meter⟩ :=
    ⟨he₁, hs.policy_eq, hs.totalReads_eq, hs.meter_eq⟩
  rcases answer with err | done
  · exact ⟨rfl, hdrained⟩
  · exact releaseAll hdrained done

/-- The number of reads that are wanted depends on the engine and on what was counted, so it
is the same. -/
theorem topUp (h : Lockstep R) (hs : s.Paired R timed s') (target : ReadTarget)
    (config : SessionConfig) (depth : UInt32) :
    Alike (Session.Paired R timed) (s.topUp target config depth)
      (s'.topUp target config depth) := by
  have hwant : s'.want config depth = s.want config depth := by
    obtain ⟨-, hflight, -⟩ := hs.engine.look
    rw [Session.want, Session.want, hflight, hs.totalReads_eq]
  simp only [Session.topUp, hwant, hs.policy_eq]
  rcases s.want config depth with operation | want
  · exact ⟨rfl, hs⟩
  dsimp only
  split
  · exact ⟨rfl, hs⟩
  obtain ⟨answer, ⟨e₁, policy⟩, ⟨e₁', _⟩, hsubmit, hsubmit', he₁, rfl⟩ :=
    (h.submitReads hs.engine target want s.policy).exists
  rw [hsubmit, hsubmit']
  rcases answer with err | count
  · exact ⟨rfl, he₁, rfl, hs.totalReads_eq, hs.meter_eq⟩
  · exact ⟨rfl, he₁, rfl, hs.totalReads_eq, hs.meter_eq⟩

/-- A round goes the same way on both sides. -/
theorem exchange (h : Lockstep R) (hs : s.Paired R timed s') (target : ReadTarget)
    (config : SessionConfig) (depth : UInt32) :
    Alike (Session.Paired R timed) (s.exchange target config depth)
      (s'.exchange target config depth) := by
  obtain ⟨answer, s₁, s₁', hreap, hreap', hs₁⟩ := (h.reapReady hs).exists
  simp only [Session.exchange, hreap, hreap']
  rcases answer with abort | _
  · exact ⟨rfl, hs₁⟩
  · exact h.topUp hs₁ target config depth

omit [Kernel κ] [Kernel κ'] [OffsetPolicy π] in
/-- Looking at the clock changes the meter alone, and the same way at the same time. -/
theorem tick (hs : s.Paired R timed s') {now now' : Nat} (hnow : timed → now' = now) :
    (timed → (s'.tick now').1 = (s.tick now).1) ∧
      (s.tick now).2.Paired R timed (s'.tick now').2 := by
  have hsame (htimed : timed) : s'.meter.tick now' s'.engine.inFlight =
      s.meter.tick now s.engine.inFlight := by
    obtain ⟨-, hflight, -⟩ := hs.engine.look
    rw [hs.meter_eq htimed, hnow htimed, hflight]
  have htotal : (s'.tick now').2.meter.totalReads = (s.tick now).2.meter.totalReads := by
    rw [Session.totalReads_tick, Session.totalReads_tick]
    exact hs.totalReads_eq
  exact ⟨fun htimed => congrArg Prod.fst (hsame htimed), hs.engine, hs.policy_eq, htotal,
    fun htimed => congrArg Prod.snd (hsame htimed)⟩

omit [Kernel κ] [Kernel κ'] [OffsetPolicy π] in
/-- Without a time limit the clock is no reason to stop. -/
theorem stopReason?_eq (hs : s.Paired R timed s') (hlimit : config.duration = none ∨ timed)
    {now now' : Nat} (hnow : timed → now' = now) (stop : Bool) :
    s'.stopReason? config now' stop = s.stopReason? config now stop := by
  have hduration : config.duration.any (· ≤ s'.meter.elapsed now') =
      config.duration.any (· ≤ s.meter.elapsed now) := by
    rcases hlimit with hnone | htimed
    · rw [hnone]
      rfl
    · rw [hs.meter_eq htimed, hnow htimed]
  simp only [Session.stopReason?, hduration, hs.totalReads_eq]

/-! ## Whole runs

Whether a run goes on is decided by the flag, by the count of reads and, if there is a time
limit, by the clock. With two clocks and no limit the two runs still decide the same. -/

omit [OffsetPolicy π] in
/-- Both sides have the same reads in flight, so they wait for them in the same number of
rounds. -/
theorem shutDownWithin (h : Lockstep R) (hs : s.Paired R timed s') (rounds : Nat) :
    Alike (Session.Paired R timed) (s.shutDownWithin rounds) (s'.shutDownWithin rounds) := by
  induction rounds generalizing s s' with
  | zero => exact ⟨rfl, hs⟩
  | succ rounds ih =>
    obtain ⟨-, hflight, -⟩ := hs.engine.look
    obtain ⟨answer, s₁, s₁', hreap, hreap', hs₁⟩ := (h.reapReady hs).exists
    simp only [Session.shutDownWithin, hflight, hreap, hreap']
    split
    · exact ⟨rfl, hs⟩
    · rcases answer with abort | _
      · exact ⟨rfl, hs₁⟩
      · exact ih hs₁

omit [OffsetPolicy π] in
theorem shutDown (h : Lockstep R) (hs : s.Paired R timed s') :
    Alike (Session.Paired R timed) s.shutDown s'.shutDown := by
  obtain ⟨-, hflight, -⟩ := hs.engine.look
  rw [Session.shutDown, Session.shutDown, hflight]
  exact h.shutDownWithin hs s.engine.inFlight.toNat

section

variable {reports reports' : List IntervalReport} {rounds : Nat}

omit [Kernel κ] [Kernel κ'] [OffsetPolicy π] in
/-- Two sessions that end alike are paired runs. -/
theorem ending (hs : s.Paired R timed s') {outcome outcome' : RunOutcome}
    (htimeless : outcome'.timeless = outcome.timeless) (houtcome : timed → outcome' = outcome)
    (hreports : timed → reports' = reports) (rounds : Nat) :
    (Run.ending outcome s reports rounds).Paired R timed
      (Run.ending outcome' s' reports' rounds) :=
  ⟨hs.engine, hs.policy_eq, rfl, htimeless, houtcome,
    fun htimed => congrArg List.reverse (hreports htimed)⟩

omit [Kernel κ] [Kernel κ'] [OffsetPolicy π] in
/-- The summaries of two sessions differ in the time that they took, if in anything. -/
theorem finished (hs : s.Paired R timed s') {depth : UInt32} {reason : StopReason}
    {now now' : Nat} (hnow : timed → now' = now) (hreports : timed → reports' = reports)
    (rounds : Nat) :
    (Run.ending (.finished (s.summary depth now reason)) s reports rounds).Paired R timed
      (Run.ending (.finished (s'.summary depth now' reason)) s' reports' rounds) := by
  obtain ⟨hpool, -, -⟩ := hs.engine.look
  refine ending hs ?_ (fun htimed => ?_) hreports rounds
  · simp only [RunOutcome.timeless, Session.summary, Engine.blockSize, hpool, hs.totalReads_eq]
  · simp only [Session.summary, Engine.blockSize, hpool, hs.meter_eq htimed, hnow htimed]

/-- From paired sessions on, runs go through the same rounds and end alike. -/
theorem loop (h : Lockstep R) (hs : s.Paired R timed s') {depth : UInt32} {reading : Nat}
    (hlimit : config.duration = none ∨ timed) (hstop : around'.stop = around.stop)
    (hclock : timed → around'.clock = around.clock) (hreports : timed → reports' = reports)
    (allowed : Nat) :
    (Run.loop around target config depth allowed reading reports rounds s).Paired R timed
      (Run.loop around' target config depth allowed reading reports' rounds s') := by
  induction allowed generalizing reading reports reports' rounds s s' with
  | zero => exact ending hs rfl (fun _ => rfl) hreports rounds
  | succ allowed ih =>
    have hnow (reading : Nat) (htimed : timed) : around'.clock reading = around.clock reading :=
      congrFun (hclock htimed) reading
    -- both stop at the same time: by the clock only if the clocks agree
    have hreason := stopReason?_eq hs hlimit (hnow reading) (around.stop s.policy reading)
    simp only [Run.loop_succ, hs.policy_eq, hstop, hreason]
    rcases s.stopReason? config (around.clock reading) (around.stop s.policy reading)
      with _ | reason
    · obtain ⟨answer, s₁, s₁', hexchange, hexchange', hs₁⟩ :=
        (h.exchange hs target config depth).exists
      simp only [hexchange, hexchange']
      rcases answer with abort | _
      · exact ending hs₁ rfl (fun _ => rfl) hreports rounds
      · obtain ⟨hreport, hs₂⟩ := tick hs₁ (hnow (reading + 1))
        refine ih hs₂ fun htimed => ?_
        rw [hreport htimed, hreports htimed]
    · obtain ⟨answer, s₁, s₁', hdown, hdown', hs₁⟩ := (h.shutDown hs).exists
      simp only [hdown, hdown']
      rcases answer with abort | _
      · exact ending hs₁ rfl (fun _ => rfl) hreports rounds
      · exact finished hs₁ (hnow (reading + 1)) hreports rounds

end

/-- Runs on paired engines are paired. -/
theorem run (h : Lockstep R) {e : Engine κ} {e' : Engine κ'} (he : e.Paired R e')
    (hlimit : config.duration = none ∨ timed) (hstop : around'.stop = around.stop)
    (hclock : timed → around'.clock = around.clock) (target : ReadTarget) (policy : π)
    (allowed : Nat) :
    (e.run target config policy around allowed).Paired R timed
      (e'.run target config policy around' allowed) := by
  obtain ⟨hpool, -, hcapacity⟩ := he.look
  have hs : Session.Paired R timed (e.session config policy around)
      (e'.session config policy around') := by
    refine ⟨he, rfl, rfl, fun htimed => ?_⟩
    simp only [Engine.session, Engine.blockSize, hpool, hclock htimed]
  have hdepth : Session.depth config e' = Session.depth config e := by
    rw [Session.depth, Session.depth, hcapacity]
  rw [Engine.run, Engine.run]
  rcases config.fault? with _ | fault
  · simp only [hdepth]
    exact h.loop hs hlimit hstop hclock (fun _ => rfl) allowed
  · exact ending hs rfl (fun _ => rfl) (fun _ => rfl) 0

end Kernel.Lockstep

end RingRead
