import Mathlib.Algebra.Order.BigOperators.Group.List
import Mathlib.Algebra.Order.Group.Nat
import RingRead.Proofs.Session.Conservation

/-!
# What the reports account for

A meter loses no read: each that is counted is in one report or in the open interval.

* **Histories.** What happens to a meter is a list of events, counts and looks at the clock
  in any order, with any readings. `Meter.Accounts` says what the reports issued so far have
  to do with the meter; each event keeps it (`Meter.Accounts.step`), and so does a history
  (`Meter.Accounts.after`). The clock may go back. A look at it then sees no time passed, so
  no interval is closed and the next one still starts where the last one ended.
* **Runs.** The deeds of a session are events for its meter (`Session.meterEvents`). Between
  two looks at the clock as many reads are counted as are reaped (`Session.Unreported`), and
  waiting for the reads in flight comes after the last look. So what the summary has beyond
  the reports are the reads that were reaped after the last of them
  (`Run.reports_of_finished`).
-/

namespace RingRead

/-! ## Histories of a meter

A meter knows nothing of engines and reads. Its history is a list of counts and readings,
and these may come in any order and show any times. -/

/-- Something that happens to a meter. A look at the clock brings a reading and the number
of reads in flight, which goes into the report. -/
inductive MeterEvent where
  | record
  | tick (now : Nat) (inFlight : UInt32)
deriving DecidableEq, Repr

namespace Meter

/-- The report that an event issues, if any, and the meter that it leaves behind. -/
def step (m : Meter) : MeterEvent → Option IntervalReport × Meter
  | .record => (none, m.record)
  | .tick now inFlight => m.tick now inFlight

/-- The meter that events leave behind, with whatever was reported on the way. -/
def after (m : Meter) (events : List MeterEvent) : Meter :=
  events.foldl (fun m event => (m.step event).2) m

/-- The reports that events issue, in order. -/
def reports : Meter → List MeterEvent → List IntervalReport
  | _, [] => []
  | m, event :: rest => (m.step event).1.toList ++ reports (m.step event).2 rest

variable {m : Meter} {event : MeterEvent} {events events' : List MeterEvent}

@[simp] theorem after_append : m.after (events ++ events') = (m.after events).after events' :=
  List.foldl_append

theorem reports_append :
    m.reports (events ++ events') = m.reports events ++ (m.after events).reports events' := by
  induction events generalizing m with
  | nil => rfl
  | cons event rest ih =>
    rw [List.cons_append, reports, reports, ih, List.append_assoc]
    rfl

/-- A look at the clock that issues no report changes nothing. Otherwise the time from the
last report has reached the interval, and the report is on the reads and the time since
then. -/
theorem tick_cases (m : Meter) (now : Nat) (inFlight : UInt32) :
    m.tick now inFlight = (none, m) ∨
      (m.interval ≤ now - m.lastReport ∧
        m.tick now inFlight =
          (some ⟨inFlight, m.intervalReads, now - m.lastReport, m.blockSize⟩,
            { m with intervalReads := 0, lastReport := now })) := by
  rw [tick]
  by_cases hearly : now - m.lastReport < m.interval
  · exact Or.inl (if_pos hearly)
  · exact Or.inr ⟨Nat.le_of_not_lt hearly, if_neg hearly⟩

/-- The settings of a meter never change: its interval and the time of its start. -/
theorem settings_step (m : Meter) (event : MeterEvent) :
    (m.step event).2.interval = m.interval ∧ (m.step event).2.started = m.started := by
  cases event with
  | record => exact ⟨rfl, rfl⟩
  | tick now inFlight =>
    rcases m.tick_cases now inFlight with hnone | ⟨-, hsome⟩
    · rw [step, hnone]
      exact ⟨rfl, rfl⟩
    · rw [step, hsome]
      exact ⟨rfl, rfl⟩

theorem totalReads_step (m : Meter) (event : MeterEvent) :
    (m.step event).2.totalReads = m.totalReads + [event].count .record := by
  cases event with
  | record => rfl
  | tick now inFlight =>
    rcases m.tick_cases now inFlight with hnone | ⟨-, hsome⟩
    · rw [step, hnone]
      rfl
    · rw [step, hsome]
      rfl

/-- The end of the last interval never moves back, even if the clock does. -/
theorem lastReport_le_step (hinterval : 0 < m.interval) (event : MeterEvent) :
    m.lastReport ≤ (m.step event).2.lastReport := by
  cases event with
  | record => exact Nat.le_refl _
  | tick now inFlight =>
    rcases m.tick_cases now inFlight with hnone | ⟨hlong, hsome⟩
    · rw [step, hnone]
    · rw [step, hsome]
      dsimp only
      omega

theorem settings_after (m : Meter) (events : List MeterEvent) :
    (m.after events).interval = m.interval ∧ (m.after events).started = m.started := by
  induction events generalizing m with
  | nil => exact ⟨rfl, rfl⟩
  | cons event rest ih =>
    obtain ⟨hinterval, hstarted⟩ := m.settings_step event
    obtain ⟨hinterval', hstarted'⟩ := ih (m.step event).2
    exact ⟨hinterval'.trans hinterval, hstarted'.trans hstarted⟩

theorem totalReads_after (m : Meter) (events : List MeterEvent) :
    (m.after events).totalReads = m.totalReads + events.count .record := by
  induction events generalizing m with
  | nil => rfl
  | cons event rest ih =>
    change ((m.step event).2.after rest).totalReads = _
    have hcount : ([event] ++ rest).count .record = [event].count .record + rest.count .record :=
      List.count_append
    rw [List.singleton_append] at hcount
    rw [ih, totalReads_step, hcount, Nat.add_assoc]

theorem lastReport_le_after (hinterval : 0 < m.interval) (events : List MeterEvent) :
    m.lastReport ≤ (m.after events).lastReport := by
  induction events generalizing m with
  | nil => exact Nat.le_refl _
  | cons event rest ih =>
    have hnext : 0 < (m.step event).2.interval := by rwa [(m.settings_step event).1]
    exact (lastReport_le_step hinterval event).trans (ih hnext)

/-- The reports issued so far account for the reads and the time of a meter: there is
nothing that two of them have, and nothing that is in none of them and not in the open
interval. -/
structure Accounts (m : Meter) (issued : List IntervalReport) : Prop where
  /-- A read is in a report or in the open interval. -/
  reads_eq : m.totalReads = (issued.map IntervalReport.reads).sum + m.intervalReads
  interval_le : ∀ report ∈ issued, m.interval ≤ report.elapsed
  /-- The reported intervals follow one another without a gap. -/
  lastReport_eq : m.lastReport = m.started + (issued.map IntervalReport.elapsed).sum

theorem accounts_startingAt (blockSize interval now : Nat) :
    (startingAt blockSize interval now).Accounts [] :=
  ⟨rfl, fun _ hreport => absurd hreport List.not_mem_nil, rfl⟩

/-- An event keeps the meter right: a read that is recorded is one more that no report has
counted, and a report counts all of these and closes the interval at its own instant. -/
theorem Accounts.step {issued : List IntervalReport} (h : m.Accounts issued)
    (hinterval : 0 < m.interval) (event : MeterEvent) :
    (m.step event).2.Accounts (issued ++ (m.step event).1.toList) := by
  obtain ⟨hreads, hlong, hlast⟩ := h
  cases event with
  | record =>
    refine ⟨?_, ?_, ?_⟩
    · simp only [Meter.step, record, Option.toList_none, List.append_nil]
      omega
    · simpa [Meter.step, record] using hlong
    · simpa [Meter.step, record] using hlast
  | tick now inFlight =>
    rcases m.tick_cases now inFlight with hnone | ⟨hclosed, hsome⟩
    · simp only [Meter.step, hnone, Option.toList_none, List.append_nil]
      exact ⟨hreads, hlong, hlast⟩
    · simp only [Meter.step, hsome, Option.toList_some]
      refine ⟨?_, ?_, ?_⟩
      · simpa using hreads
      · intro report hreport
        rcases List.mem_append.mp hreport with hold | hnew
        · exact hlong report hold
        · obtain rfl := List.mem_singleton.mp hnew
          exact hclosed
      · -- The instant is later than the last report, as the interval is positive.
        rw [List.map_append, List.sum_append, List.map_singleton, List.sum_singleton]
        dsimp only
        omega

theorem Accounts.after {issued : List IntervalReport} (h : m.Accounts issued)
    (hinterval : 0 < m.interval) (events : List MeterEvent) :
    (m.after events).Accounts (issued ++ m.reports events) := by
  induction events generalizing m issued with
  | nil => rwa [reports, List.append_nil]
  | cons event rest ih =>
    have hnext : 0 < (m.step event).2.interval := by rwa [(m.settings_step event).1]
    rw [reports, ← List.append_assoc]
    exact ih (h.step hinterval event) hnext

/-- If all reads together are a 64-bit number, so is every count of some of them. -/
theorem Accounts.fits {issued : List IntervalReport} (h : m.Accounts issued)
    (hfew : m.totalReads < UInt64.size) :
    m.Fits ∧ ∀ report ∈ issued, report.reads < UInt64.size := by
  have hreads := h.reads_eq
  refine ⟨⟨hfew, by omega⟩, fun report hreport => ?_⟩
  have hle : report.reads ≤ (issued.map IntervalReport.reads).sum :=
    List.le_sum_of_mem (List.mem_map_of_mem hreport)
  omega

end Meter

/-! ## The events of a session

What a session does is turned into a history of its meter by leaving out what does not
concern it. Then the results about histories are results about sessions. -/

namespace Session

variable {κ π : Type} [Kernel κ] [OffsetPolicy π] {target : ReadTarget} {s s' : Session κ π}
  {deeds deeds' : List Deed}

/-- What a deed is for the meter, if it concerns it. Reaps and submissions do not: a read is
counted when it is taken back. -/
def meterEvent? (s : Session κ π) : Deed → Option MeterEvent
  | .record => some .record
  | .tick now => some (.tick now s.engine.inFlight)
  | .reap _ | .release _ | .submit _ => none

/-- What deeds are for the meter. -/
def meterEvents (target : ReadTarget) : Session κ π → List Deed → List MeterEvent
  | _, [] => []
  | s, deed :: rest =>
    (s.meterEvent? deed).toList ++ meterEvents target (s.perform target deed) rest

theorem meterEvents_append : s.meterEvents target (deeds ++ deeds') =
    s.meterEvents target deeds ++ (s.performAll target deeds).meterEvents target deeds' := by
  induction deeds generalizing s with
  | nil => rfl
  | cons deed rest ih =>
    rw [List.cons_append, meterEvents, meterEvents, ih, List.append_assoc]
    rfl

/-- The meter of a session changes by these events alone. -/
theorem meter_performAll (s : Session κ π) (deeds : List Deed) :
    (s.performAll target deeds).meter = s.meter.after (s.meterEvents target deeds) := by
  induction deeds generalizing s with
  | nil => rfl
  | cons deed rest ih =>
    rw [meterEvents, Meter.after_append]
    have hdeed : (s.perform target deed).meter = s.meter.after (s.meterEvent? deed).toList := by
      cases deed <;> rfl
    rw [← hdeed]
    exact ih (s.perform target deed)

/-- Deeds that issue no report, and count as many reads as they reap. All deeds of a round
before its tick are of this kind, and so are those at the end of a run. -/
structure Unreported (target : ReadTarget) (s : Session κ π) (deeds : List Deed) : Prop where
  reports_eq : s.meter.reports (s.meterEvents target deeds) = []
  count_eq : (s.meterEvents target deeds).count .record = (s.reaped target deeds).length

theorem Unreported.refl (s : Session κ π) : s.Unreported target [] := ⟨rfl, rfl⟩

theorem Unreported.append (h : s.Unreported target deeds)
    (h' : (s.performAll target deeds).Unreported target deeds') :
    s.Unreported target (deeds ++ deeds') := by
  have hreports := h'.reports_eq
  rw [meter_performAll] at hreports
  constructor
  · rw [meterEvents_append, Meter.reports_append, h.reports_eq, hreports, List.append_nil]
  · rw [meterEvents_append, List.count_append, h.count_eq, h'.count_eq, reaped_append,
      List.length_append]

/-- Counting reads issues no report. -/
theorem reports_replicate (count : Nat) (m : Meter) :
    m.reports (List.replicate count .record) = [] := by
  induction count generalizing m with
  | zero => rfl
  | succ count ih => exact ih m.record

theorem unreported_of_replicate
    (h : s.meterEvents target deeds = List.replicate (s.reaped target deeds).length .record) :
    s.Unreported target deeds := by
  constructor
  · rw [h, reports_replicate]
  · rw [h, List.count_replicate_self]

theorem unreported_tick {now : Nat} (hnone : (s.tick now).1 = none) :
    s.Unreported target [.tick now] := by
  constructor
  · have hreport : (s.meter.tick now s.engine.inFlight).1 = none := hnone
    simp [meterEvents, meterEvent?, Meter.reports, Meter.step, hreport]
  · rfl

/-! ## The deeds of a round

Within a round no report is issued, but for the look at the clock at its end. So the reads
between two reports are those of whole rounds. -/

theorem meterEvents_map_reap (modes : List ReapMode) (s : Session κ π) :
    s.meterEvents target (modes.map Deed.reap) = [] := by
  induction modes generalizing s with
  | nil => rfl
  | cons mode modes ih => exact ih (s.perform target (.reap mode))

/-- Each completed read is recorded once, before its block is given back. -/
theorem meterEvents_releaseDeeds {done : List Completion}
    (hok : releaseAll done s = (.ok (), s')) :
    s.meterEvents target (releaseDeeds done s) = List.replicate done.length .record := by
  induction done generalizing s with
  | nil => rfl
  | cons done rest ih =>
    rw [releaseAll] at hok
    rw [releaseDeeds]
    rcases hrelease : s.engine.release done.token with ⟨err | _, engine⟩
    · simp only [hrelease] at hok
      cases hok
    · simp only [hrelease] at hok
      have hperform : (s.perform target .record).perform target (.release done.token) =
          { s with engine, meter := s.meter.record } := by
        simp [perform, hrelease]
      simp only [meterEvents, meterEvent?, hperform]
      rw [ih hok]
      rfl

/-- Taking back what has completed counts each read that it reaps. -/
theorem unreported_reapDeeds (hok : s.reapReady = (.ok (), s')) :
    s.Unreported target s.reapDeeds := by
  apply unreported_of_replicate
  rw [reapReady] at hok
  rw [reapDeeds, meterEvents_append, reaped_append, meterEvents_map_reap, performAll_drain]
  rcases hdrain : s.engine.drain .blocking with ⟨err | done, engine⟩
  · rw [hdrain] at hok
    cases hok
  · rw [hdrain] at hok
    obtain ⟨-, hreaps⟩ : submitted target { s with engine } _ = 0 ∧ _ :=
      yield_releaseDeeds done { s with engine }
    rw [reaped_drain hdrain]
    dsimp only at hok ⊢
    rw [hreaps, List.append_nil, List.nil_append]
    exact meterEvents_releaseDeeds hok

/-- Topping up counts nothing and reaps nothing. -/
theorem unreported_topUpDeeds (config : SessionConfig) (depth : UInt32) (s : Session κ π) :
    s.Unreported target (s.topUpDeeds config depth) := by
  rw [topUpDeeds]
  split
  · exact .refl s
  · exact ⟨rfl, rfl⟩

theorem unreported_exchangeDeeds {config : SessionConfig} {depth : UInt32}
    (hok : s.exchange target config depth = (.ok (), s')) :
    s.Unreported target (s.exchangeDeeds config depth) := by
  obtain ⟨reaped, hreap, -⟩ := exchange_ok hok
  rw [exchangeDeeds]
  refine (unreported_reapDeeds hreap).append ?_
  rw [performAll_reapDeeds, hreap]
  exact unreported_topUpDeeds config depth reaped

/-- Waiting for the reads in flight issues no report: only rounds look at the clock. -/
theorem unreported_shutDownDeeds {rounds : Nat} (hok : shutDownWithin rounds s = (.ok (), s')) :
    s.Unreported target (shutDownDeeds rounds s) := by
  induction rounds generalizing s with
  | zero => exact .refl s
  | succ rounds ih =>
    rw [shutDownWithin] at hok
    rw [shutDownDeeds]
    split at hok
    · next hidle =>
      rw [if_pos hidle]
      exact .refl s
    · next hbusy =>
      rw [if_neg hbusy]
      rcases hreap : s.reapReady with ⟨abort | _, s₁⟩
      · rw [hreap] at hok
        cases hok
      · rw [hreap] at hok
        refine (unreported_reapDeeds hreap).append ?_
        rw [performAll_reapDeeds, hreap]
        exact ih hok

/-- The report of a look at the clock comes before those of the deeds after it. -/
theorem reports_tick (s : Session κ π) (now : Nat) (rest : List Deed) :
    s.meter.reports (s.meterEvents target (.tick now :: rest)) =
      (s.tick now).1.toList ++
        (s.tick now).2.meter.reports ((s.tick now).2.meterEvents target rest) :=
  rfl

/-- The deeds are none, or end with a look at the clock that issues a report. Right after it
the open interval is empty, so what comes later is what no report has counted. -/
def EndsReported (target : ReadTarget) (s : Session κ π) (deeds : List Deed) : Prop :=
  deeds = [] ∨ ∃ rest now, deeds = rest ++ [.tick now] ∧
    ((s.performAll target rest).tick now).1.isSome

/-- A report leaves the open interval empty. -/
theorem intervalReads_of_endsReported (h : s.EndsReported target deeds)
    (hempty : s.meter.intervalReads = 0) :
    (s.performAll target deeds).meter.intervalReads = 0 := by
  rcases h with rfl | ⟨rest, now, rfl, hsome⟩
  · exact hempty
  · rw [performAll_append]
    generalize s.performAll target rest = last at hsome
    change (last.meter.tick now last.engine.inFlight).2.intervalReads = 0
    change (last.meter.tick now last.engine.inFlight).1.isSome at hsome
    rcases last.meter.tick_cases now last.engine.inFlight with hnone | ⟨-, hreport⟩
    · rw [hnone] at hsome
      cases hsome
    · rw [hreport]

/-- After the last report of these deeds they count as many reads as they reap. Which report
is the last is not known while a run goes on, so it is found from the end. -/
def Tallies (target : ReadTarget) (s : Session κ π) (deeds : List Deed) : Prop :=
  ∃ before after, deeds = before ++ after ∧ s.EndsReported target before ∧
    (s.performAll target before).Unreported target after

/-- A round before such deeds: its look at the clock issues the last report if the deeds
after it issue none and it issues one itself. -/
theorem Tallies.round {now : Nat} (hround : s.Unreported target deeds)
    (h : ((s.performAll target deeds).tick now).2.Tallies target deeds') :
    s.Tallies target (deeds ++ .tick now :: deeds') := by
  obtain ⟨before, after, rfl, hends, hafter⟩ := h
  have hperform : s.performAll target (deeds ++ [.tick now]) =
      ((s.performAll target deeds).tick now).2 :=
    performAll_append
  rcases hends with rfl | ⟨rest, now', rfl, hsome⟩
  · rcases hreport : ((s.performAll target deeds).tick now).1 with _ | report
    · refine ⟨[], deeds ++ .tick now :: after, rfl, Or.inl rfl, ?_⟩
      have hlater : (s.performAll target (deeds ++ [.tick now])).Unreported target after := by
        rwa [hperform]
      have hquiet := (hround.append (unreported_tick hreport)).append hlater
      rwa [List.append_assoc] at hquiet
    · refine ⟨deeds ++ [.tick now], after, by simp, Or.inr ⟨deeds, now, rfl, ?_⟩, ?_⟩
      · rw [hreport]
        rfl
      · rwa [hperform]
  · refine ⟨deeds ++ [.tick now] ++ (rest ++ [.tick now']), after, by simp, Or.inr ?_, ?_⟩
    · refine ⟨deeds ++ [.tick now] ++ rest, now', by simp, ?_⟩
      rwa [performAll_append, hperform]
    · rwa [performAll_append, hperform]

end Session

/-! ## Runs

Shutting down comes after the last look at the clock. What it completes is in no report, and
so is what the last rounds have completed if their looks have issued none. -/

variable {κ π : Type} [Kernel κ] [OffsetPolicy π]

/-- The reports of a run are those of its meter. A run that finishes issues none of them
after some point, from which on it counts the reads that it reaps. -/
theorem Run.reports_of_finished {around : Surroundings π} {target : ReadTarget}
    {config : SessionConfig} {depth : UInt32} {allowed reading : Nat}
    {reports : List IntervalReport} {rounds : Nat} {s : Session κ π} {summary : RunSummary}
    (hfinished : (Run.loop around target config depth allowed reading reports rounds s).outcome =
      .finished summary) :
    let run := Run.loop around target config depth allowed reading reports rounds s
    let deeds := Run.deeds around target config depth allowed reading s
    run.reports = reports.reverse ++ s.meter.reports (s.meterEvents target deeds) ∧
      summary.reads = (s.performAll target deeds).meter.totalReads ∧
      s.Tallies target deeds := by
  induction allowed generalizing reading reports rounds s with
  | zero => cases hfinished
  | succ allowed ih =>
    dsimp only at ih ⊢
    rw [Run.loop_succ] at hfinished ⊢
    rw [Run.deeds]
    rcases hstop : s.stopReason? config (around.clock reading) (around.stop s.policy reading)
      with _ | reason
    · rw [hstop] at hfinished
      dsimp only at hfinished ⊢
      have hperform : s.performAll target (s.exchangeDeeds config depth) = _ :=
        Session.performAll_exchangeDeeds config depth s
      rcases hexchange : s.exchange target config depth with ⟨abort | _, s₁⟩
      · rw [hexchange] at hfinished
        exact absurd hfinished (RunOutcome.ofAbort_ne_finished abort summary)
      · rw [hexchange] at hfinished hperform
        -- a round reports nothing before its tick, which is the last of its deeds
        have hround : s.Unreported target (s.exchangeDeeds config depth) :=
          Session.unreported_exchangeDeeds hexchange
        obtain ⟨hreports, hreads, htallies⟩ := ih hfinished
        have hmeter : s.meter.after (s.meterEvents target (s.exchangeDeeds config depth)) =
            s₁.meter := by
          rw [← Session.meter_performAll, hperform]
        refine ⟨?_, ?_, ?_⟩
        · dsimp only
          rw [hreports, Session.meterEvents_append, Meter.reports_append, hround.reports_eq, hmeter,
            hperform, Session.reports_tick, List.reverse_append, List.nil_append, List.append_assoc]
          rcases (s₁.tick (around.clock (reading + 1))).1 with _ | report
          · rfl
          · rfl
        · rw [hreads, Session.performAll_append, hperform]
          rfl
        · apply Session.Tallies.round hround
          rwa [hperform]
    · rw [hstop] at hfinished
      dsimp only at hfinished ⊢
      have hperform : s.performAll target (Session.shutDownDeeds s.engine.inFlight.toNat s) = _ :=
        Session.performAll_shutDownDeeds _ s
      rw [Session.shutDown] at hfinished ⊢
      rcases hshut : Session.shutDownWithin s.engine.inFlight.toNat s with ⟨abort | _, last⟩
      · rw [hshut] at hfinished
        exact absurd hfinished (RunOutcome.ofAbort_ne_finished abort summary)
      · rw [hshut] at hfinished hperform
        -- nor does the end of a run: what it counts is in the summary and in no report
        have hrest : s.Unreported target (Session.shutDownDeeds s.engine.inFlight.toNat s) :=
          Session.unreported_shutDownDeeds hshut
        refine ⟨?_, ?_, [], _, rfl, Or.inl rfl, hrest⟩
        · rw [hrest.reports_eq, List.append_nil]
          rfl
        · rw [hperform, ← RunOutcome.finished.inj hfinished]
          rfl

theorem SessionConfig.interval_pos {config : SessionConfig} (hfault : config.fault? = none) :
    0 < config.interval := by
  refine Nat.pos_of_ne_zero fun hzero => ?_
  rw [fault?, if_pos hzero] at hfault
  split at hfault
  · cases hfault
  · cases hfault

namespace Engine

variable {e : Engine κ} {target : ReadTarget} {config : SessionConfig} {policy : π}
  {around : Surroundings π} {allowed : Nat} {summary : RunSummary}

/-- The reports of a run that finishes are those of its meter, and so is the number of its
reads. The interval is positive then, as the configuration was checked. -/
theorem tallies_of_finished
    (hfinished : (e.run target config policy around allowed).outcome = .finished summary) :
    let run := e.run target config policy around allowed
    let first := e.session config policy around
    let deeds := e.deeds target config policy around allowed
    0 < config.interval ∧ run.reports = first.meter.reports (first.meterEvents target deeds) ∧
      summary.reads = (first.performAll target deeds).meter.totalReads ∧
      first.Tallies target deeds := by
  intro run first deeds
  simp only [run, deeds]
  rw [Engine.run] at hfinished ⊢
  rw [Engine.deeds]
  rcases hfault : config.fault? with _ | fault
  · rw [hfault] at hfinished
    exact ⟨SessionConfig.interval_pos hfault, Run.reports_of_finished (s := first) hfinished⟩
  · rw [hfault] at hfinished
    cases hfinished

/-- A run that finishes has deeds up to its last report and deeds after it. The reads that
the latter reap are those that no report is on. -/
theorem reports_of_finished
    (hfinished : (e.run target config policy around allowed).outcome = .finished summary) :
    let run := e.run target config policy around allowed
    let first := e.session config policy around
    ∃ before after, e.deeds target config policy around allowed = before ++ after ∧
      first.EndsReported target before ∧
      run.reports = first.meter.reports (first.meterEvents target before) ∧
      summary.reads = (run.reports.map IntervalReport.reads).sum +
        ((first.performAll target before).reaped target after).length := by
  intro run first
  obtain ⟨hinterval, hreports, hreads, before, after, hdeeds, hends, hafter⟩ :=
    tallies_of_finished hfinished
  have hrest := hafter.reports_eq
  rw [Session.meter_performAll] at hrest
  have hall : run.reports = first.meter.reports (first.meterEvents target before) := by
    rw [hreports, hdeeds, Session.meterEvents_append, Meter.reports_append, hrest, List.append_nil]
  refine ⟨before, after, hdeeds, hends, hall, ?_⟩
  have haccounts : (first.performAll target before).meter.Accounts run.reports := by
    rw [Session.meter_performAll, hall]
    exact (Meter.accounts_startingAt ..).after hinterval _
  have hempty : (first.performAll target before).meter.intervalReads = 0 :=
    Session.intervalReads_of_endsReported hends rfl
  rw [hreads, hdeeds, Session.performAll_append, Session.meter_performAll, Meter.totalReads_after,
    hafter.count_eq, haccounts.reads_eq, hempty, Nat.add_zero]

/-- If the reads of a run are a 64-bit number in the end, all counts of reads are, at every
point of the run and in its reports: none gets past the last one. -/
theorem fits_of_finished
    (hfinished : (e.run target config policy around allowed).outcome = .finished summary)
    (hfew : summary.reads < UInt64.size) :
    let run := e.run target config policy around allowed
    let first := e.session config policy around
    (∀ report ∈ run.reports, report.reads < UInt64.size) ∧
      ∀ before, before <+: e.deeds target config policy around allowed →
        (first.performAll target before).meter.Fits := by
  intro run first
  obtain ⟨hinterval, hreports, hreads, -⟩ := tallies_of_finished hfinished
  have haccounts (deeds : List Deed) : (first.performAll target deeds).meter.Accounts
      (first.meter.reports (first.meterEvents target deeds)) := by
    rw [Session.meter_performAll]
    exact (Meter.accounts_startingAt ..).after hinterval _
  constructor
  · simp only [run]
    rw [hreports]
    exact ((haccounts _).fits (hreads ▸ hfew)).2
  · rintro before ⟨rest, hrest⟩
    have hle : (first.performAll target before).meter.totalReads ≤ summary.reads := by
      rw [hreads, ← hrest, Session.performAll_append, Session.meter_performAll _ rest,
        Meter.totalReads_after]
      exact Nat.le_add_right ..
    exact ((haccounts before).fits (Nat.lt_of_le_of_lt hle hfew)).1

/-- Whatever the order of the clock's readings, a meter with a positive interval loses no
read and no time. In a run that finishes, the reports have the reads of the summary but for
those that were reaped after the last of them. As long as the reads are a 64-bit number all
together, so is every count that a meter makes of them, and every one that is reported. -/
theorem reports_lossless (e : Engine κ) (target : ReadTarget) (config : SessionConfig) (policy : π)
    (around : Surroundings π) (allowed : Nat) :
    (∀ (blockSize interval started : Nat) (events : List MeterEvent), 0 < interval →
      let first := Meter.startingAt blockSize interval started
      let m := first.after events
      let issued := first.reports events
      m.totalReads = events.count .record ∧
        m.totalReads = (issued.map IntervalReport.reads).sum + m.intervalReads ∧
        (events.count .record < UInt64.size →
          m.Fits ∧ ∀ report ∈ issued, report.reads < UInt64.size) ∧
        (∀ report ∈ issued, interval ≤ report.elapsed) ∧
        m.started = started ∧
        m.lastReport = started + (issued.map IntervalReport.elapsed).sum ∧
        ∀ before, before <+: events → (first.after before).lastReport ≤ m.lastReport) ∧
    (∀ (m : Meter) (now : Nat) (inFlight : UInt32),
      (m.tick now inFlight).1 = none → (m.tick now inFlight).2 = m) ∧
    ∀ summary, (e.run target config policy around allowed).outcome = .finished summary →
      let run := e.run target config policy around allowed
      let first := e.session config policy around
      (run.reports.map IntervalReport.reads).sum ≤ summary.reads ∧
        (summary.reads < UInt64.size →
          (∀ report ∈ run.reports, report.reads < UInt64.size) ∧
            ∀ before, before <+: e.deeds target config policy around allowed →
              (first.performAll target before).meter.Fits) ∧
        ∃ before after, e.deeds target config policy around allowed = before ++ after ∧
          first.EndsReported target before ∧
          run.reports = first.meter.reports (first.meterEvents target before) ∧
          summary.reads - (run.reports.map IntervalReport.reads).sum =
            ((first.performAll target before).reaped target after).length := by
  refine ⟨?meter, ?quiet, ?run⟩
  case meter =>
    intro blockSize interval started events hinterval first m issued
    have haccounts : m.Accounts issued :=
      (Meter.accounts_startingAt blockSize interval started).after hinterval events
    obtain ⟨hinterval', hstarted⟩ : m.interval = interval ∧ m.started = started :=
      first.settings_after events
    have htotal : m.totalReads = events.count .record :=
      (first.totalReads_after events).trans (Nat.zero_add _)
    refine ⟨htotal, haccounts.reads_eq, ?_, ?_, hstarted, ?_, ?_⟩
    · rw [← htotal]
      exact haccounts.fits
    · rw [← hinterval']
      exact haccounts.interval_le
    · rw [haccounts.lastReport_eq, hstarted]
    · rintro before ⟨rest, rfl⟩
      -- nothing is said of the order of instants: a tick that looks back closes no interval
      have hlater : 0 < (first.after before).interval := by rwa [(first.settings_after before).1]
      simp only [m]
      rw [Meter.after_append]
      exact Meter.lastReport_le_after hlater rest
  case quiet =>
    intro m now inFlight hnone
    rcases m.tick_cases now inFlight with hquiet | ⟨-, hreport⟩
    · rw [hquiet]
    · rw [hreport] at hnone
      cases hnone
  case run =>
    intro summary hfinished run first
    obtain ⟨before, after, hdeeds, hends, hreports, hreads⟩ := reports_of_finished hfinished
    refine ⟨?_, fits_of_finished hfinished, before, after, hdeeds, hends, hreports, ?_⟩
    · rw [hreads]
      exact Nat.le_add_right ..
    · rw [hreads]
      exact Nat.add_sub_cancel_left ..

/-- The clock goes back below the last report, in the history of a meter and in a run. The
run is stopped a round after its last report, with two reads in flight. -/
theorem reports_lossless_of_late_clock :
    (let first := Meter.startingAt 8 10 100
      let events : List MeterEvent :=
        [.record, .tick 95 1, .record, .tick 112 1, .record, .tick 105 0]
      first.reports events = [⟨1, 2, 12, 8⟩] ∧
        (first.after events).totalReads = 2 + (first.after events).intervalReads ∧
        (first.after events).lastReport = 112) ∧
    ∃ e₀ : Engine SimulatedKernel,
      create { file := SimulatedKernel.patternedFile 4 8 } 4 7 { blockSize := 8, alignment := 8 } =
        .ok e₀ ∧
        let config : SessionConfig := { queueDepth := 2, interval := 3 }
        let around : Surroundings Walker :=
          { clock := fun reading => if reading = 6 then 0 else reading
            stop := fun _ reading => reading = 11 }
        let run := e₀.run ⟨3, 32⟩ config {} around 20
        let first := e₀.session config {} around
        run.outcome = .finished ⟨2, 8, none, 10, 12, 2, .signal⟩ ∧
          run.reports.map IntervalReport.reads = [2, 4] ∧
          ∃ before after, e₀.deeds ⟨3, 32⟩ config {} around 20 = before ++ after ∧
            first.EndsReported ⟨3, 32⟩ before ∧
            ((first.performAll ⟨3, 32⟩ before).reaped ⟨3, 32⟩ after).length = 4 := by
  obtain ⟨e₀, hcreate⟩ : ∃ e₀ : Engine SimulatedKernel,
      create { file := SimulatedKernel.patternedFile 4 8 } 4 7 { blockSize := 8, alignment := 8 } =
        .ok e₀ := ⟨_, rfl⟩
  obtain ⟨hmeter, -, hrun⟩ := reports_lossless e₀ ⟨3, 32⟩ { queueDepth := 2, interval := 3 }
    ({} : Walker)
    { clock := fun reading => if reading = 6 then 0 else reading
      stop := fun _ reading => reading = 11 } 20
  have hfinished : (e₀.run ⟨3, 32⟩ { queueDepth := 2, interval := 3 } ({} : Walker)
      { clock := fun reading => if reading = 6 then 0 else reading
        stop := fun _ reading => reading = 11 } 20).outcome =
      .finished ⟨2, 8, none, 10, 12, 2, .signal⟩ := by
    cases hcreate
    decide +kernel
  have hreads : (e₀.run ⟨3, 32⟩ { queueDepth := 2, interval := 3 } ({} : Walker)
      { clock := fun reading => if reading = 6 then 0 else reading
        stop := fun _ reading => reading = 11 } 20).reports.map IntervalReport.reads = [2, 4] := by
    cases hcreate
    decide +kernel
  refine ⟨?_, e₀, hcreate, hfinished, hreads, ?_⟩
  · obtain ⟨-, hlossless, -, -, -, hlast, -⟩ := hmeter 8 10 100
      [.record, .tick 95 1, .record, .tick 112 1, .record, .tick 105 0] (by decide)
    exact ⟨rfl, hlossless, hlast⟩
  · obtain ⟨-, -, before, after, hdeeds, hends, -, hrest⟩ := hrun _ hfinished
    rw [hreads] at hrest
    exact ⟨before, after, hdeeds, hends, hrest.symm⟩

end Engine

end RingRead
