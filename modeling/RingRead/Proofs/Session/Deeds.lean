import RingRead.Proofs.Engine.Steps
import RingRead.Session

/-!
# What a session does

A run is a sequence of deeds: a reap, the count of a completed read, the release of its
block, a submission, the look at the clock. `Engine.deeds` says in advance which deeds a run
consists of, each reap of a drain by itself, so that what holds at every point of a run can
be spoken about (`Session.Throughout`). `performAll_deeds` says that the run is what comes
of its deeds, however it ends.

A list of deeds has a yield: the reads that its submissions reported as submitted
(`Session.submitted`), and those that its reaps returned (`Session.reaped`).
-/

namespace RingRead

/-- A single step of a session. A drain is no deed of its own but a sequence of reaps, so
that there is a point of the run between any two of them. -/
inductive Deed where
  | reap (mode : ReapMode)
  /-- Count one completed read. -/
  | record
  | release (token : Token)
  | submit (requested : UInt32)
  /-- Look whether the reporting interval is over. -/
  | tick (now : Nat)
deriving DecidableEq, Repr

namespace Session

variable {κ π : Type} [Kernel κ] [OffsetPolicy π]

/-! ## Doing deeds

A deed is done whether or not it succeeds. What is said about deeds is therefore about all
of them, and a run that breaks off is a list of deeds of which the last one has failed. -/

/-- The session that a deed leaves behind. -/
def perform (target : ReadTarget) (s : Session κ π) : Deed → Session κ π
  | .reap mode => { s with engine := (s.engine.reap mode).2 }
  | .record => { s with meter := s.meter.record }
  | .release token => { s with engine := (s.engine.release token).2 }
  | .submit requested =>
    { s with
      engine := (s.engine.submitReads target requested s.policy).2.1
      policy := (s.engine.submitReads target requested s.policy).2.2 }
  | .tick now => (s.tick now).2

/-- The session that deeds leave behind, whether or not each of them has succeeded. It is a
fold, so that what is done first can be split off, and what is known of its end used for the
rest. -/
def performAll (target : ReadTarget) (s : Session κ π) (deeds : List Deed) : Session κ π :=
  deeds.foldl (perform target) s

/-- Something holds before the first deed and after every one: at each point of what the
deeds do. This says more than that it holds at the end, and it is what a bound on a run is
about. -/
def Throughout (P : Session κ π → Prop) (target : ReadTarget) : Session κ π → List Deed → Prop
  | s, [] => P s
  | s, deed :: rest => P s ∧ Throughout P target (s.perform target deed) rest

/-- The reads that a deed reports as submitted. -/
def submits (target : ReadTarget) (s : Session κ π) : Deed → Nat
  | .submit requested =>
    match (s.engine.submitReads target requested s.policy).1 with
    | .ok count => count.toNat
    | .error _ => 0
  | _ => 0

/-- The reads that deeds report as submitted, which is what a caller would add up from the
answers. A submission that fails reports none. -/
def submitted (target : ReadTarget) : Session κ π → List Deed → Nat
  | _, [] => 0
  | s, deed :: rest => s.submits target deed + submitted target (s.perform target deed) rest

/-- The completed read that a deed returns. -/
def reaps (s : Session κ π) : Deed → List Completion
  | .reap mode =>
    match (s.engine.reap mode).1 with
    | .ok completion => completion.toList
    | .error _ => []
  | _ => []

/-- The completed reads that deeds return. -/
def reaped (target : ReadTarget) : Session κ π → List Deed → List Completion
  | _, [] => []
  | s, deed :: rest => s.reaps deed ++ reaped target (s.perform target deed) rest

variable {P : Session κ π → Prop} {target : ReadTarget} {s : Session κ π}
  {deeds deeds' : List Deed}

@[simp] theorem performAll_append :
    s.performAll target (deeds ++ deeds') = (s.performAll target deeds).performAll target deeds' :=
  List.foldl_append

/-- What holds throughout holds in the end. -/
theorem Throughout.last (h : Throughout P target s deeds) : P (s.performAll target deeds) := by
  induction deeds generalizing s with
  | nil => exact h
  | cons deed rest ih => exact ih h.2

theorem Throughout.append (h : Throughout P target s deeds)
    (h' : Throughout P target (s.performAll target deeds) deeds') :
    Throughout P target s (deeds ++ deeds') := by
  induction deeds generalizing s with
  | nil => exact h'
  | cons deed rest ih => exact ⟨h.1, ih h.2 h'⟩

theorem submitted_append : s.submitted target (deeds ++ deeds') =
    s.submitted target deeds + (s.performAll target deeds).submitted target deeds' := by
  induction deeds generalizing s with
  | nil => exact (Nat.zero_add _).symm
  | cons deed rest ih =>
    rw [List.cons_append, submitted, submitted, ih, Nat.add_assoc]
    rfl

theorem reaped_append : s.reaped target (deeds ++ deeds') =
    s.reaped target deeds ++ (s.performAll target deeds).reaped target deeds' := by
  induction deeds generalizing s with
  | nil => rfl
  | cons deed rest ih =>
    rw [List.cons_append, reaped, reaped, ih, List.append_assoc]
    rfl

/-! ## What is wanted

The number of reads to submit is a difference that need not be there. The lemmas tell the
two cases apart, by whether more reads than the depth are in flight. -/

/-- The number of reads that a session asks for when it tops its submissions up: those that
it wants, and none if there is no such number. Then it overflows, and asks for nothing. -/
def wanted (s : Session κ π) (config : SessionConfig) (depth : UInt32) : UInt32 :=
  (s.want config depth).toOption.getD 0

variable {depth : UInt32} (config : SessionConfig)

omit [Kernel κ] [OffsetPolicy π] in
/-- Within the depth there is a number of reads that are missing. -/
theorem want_of_le (h : s.engine.inFlight ≤ depth) :
    s.want config depth = .ok (s.wanted config depth) ∧
      s.wanted config depth =
        match config.maxReads with
        | none => depth - s.engine.inFlight
        | some limit =>
          let remaining := limit - (s.meter.totalReads + s.engine.inFlight.toNat)
          min (depth - s.engine.inFlight)
            (UInt32.ofNat (min remaining (UInt32.size - 1))) := by
  rw [wanted, want, checkedSub, if_neg (UInt32.not_lt.mpr h)]
  exact ⟨rfl, rfl⟩

omit [Kernel κ] [OffsetPolicy π] in
/-- Beyond the depth there is none: the subtraction would go below zero. -/
theorem want_of_lt (h : depth < s.engine.inFlight) :
    s.want config depth = .error .subtraction ∧ s.wanted config depth = 0 := by
  rw [wanted, want, checkedSub, if_pos h]
  exact ⟨rfl, rfl⟩

/-- Within the depth, topping up submits what is wanted, if that is anything. -/
theorem topUp_of_le (h : s.engine.inFlight ≤ depth) :
    s.topUp target config depth =
      if s.wanted config depth = 0 then (.ok (), s)
      else
        match s.engine.submitReads target (s.wanted config depth) s.policy with
        | (.error err, engine, policy) =>
          (.error (.failed ((Failure.ofError err).within "submitting reads")),
            { s with engine, policy })
        | (.ok _, engine, policy) => (.ok (), { s with engine, policy }) := by
  have hwant := (want_of_le config h).1
  rcases hsubmit : s.engine.submitReads target (s.wanted config depth) s.policy
    with ⟨err | count, engine, policy⟩
  · simp [topUp, hwant, hsubmit]
  · simp [topUp, hwant, hsubmit]

variable {config}

/-! ## The deeds of a round

Each step of a session has a list of deeds that is computed along the way, since the answer
of one call decides which is the next. For each of the lists there is a lemma that doing its
deeds is taking the step. -/

/-- The deeds by which completed reads are counted and their blocks given back. -/
def releaseDeeds : List Completion → Session κ π → List Deed
  | [], _ => []
  | done :: rest, s =>
    .record :: .release done.token ::
      match s.engine.release done.token with
      | (.error _, _) => []
      | (.ok (), engine) => releaseDeeds rest { s with engine, meter := s.meter.record }

/-- The deeds by which a session takes back what has completed. -/
def reapDeeds (s : Session κ π) : List Deed :=
  (s.engine.drainModes .blocking).map Deed.reap ++
    match s.engine.drain .blocking with
    | (.error _, _) => []
    | (.ok done, engine) => releaseDeeds done { s with engine }

/-- The deeds by which a session tops its submissions up. -/
def topUpDeeds (s : Session κ π) (config : SessionConfig) (depth : UInt32) : List Deed :=
  if s.wanted config depth = 0 then [] else [.submit (s.wanted config depth)]

/-- The deeds of a round. -/
def exchangeDeeds (s : Session κ π) (config : SessionConfig) (depth : UInt32) : List Deed :=
  s.reapDeeds ++
    match s.reapReady with
    | (.error _, _) => []
    | (.ok (), s) => s.topUpDeeds config depth

/-- The deeds by which the reads in flight are waited for. -/
def shutDownDeeds : (rounds : Nat) → Session κ π → List Deed
  | 0, _ => []
  | rounds + 1, s =>
    if s.engine.inFlight = 0 then []
    else s.reapDeeds ++
      match s.reapReady with
      | (.error _, _) => []
      | (.ok (), s) => shutDownDeeds rounds s

theorem performAll_releaseDeeds (done : List Completion) (s : Session κ π) :
    s.performAll target (releaseDeeds done s) = (releaseAll done s).2 := by
  induction done generalizing s with
  | nil => rfl
  | cons done rest ih =>
    rw [releaseDeeds, releaseAll]
    rcases hrelease : s.engine.release done.token with ⟨err | _, engine⟩
    · simp [performAll, perform, hrelease]
    · rw [← ih]
      simp [performAll, perform, hrelease]

/-- Reaping changes the engine alone. Policy and meter are as before. -/
theorem performAll_reap (modes : List ReapMode) (s : Session κ π) :
    s.performAll target (modes.map Deed.reap) =
      { s with engine := (Engine.reapAll modes s.engine).2 } := by
  induction modes generalizing s with
  | nil => rfl
  | cons mode modes ih => exact ih { s with engine := (s.engine.reap mode).2 }

theorem performAll_drain (s : Session κ π) :
    s.performAll target ((s.engine.drainModes .blocking).map Deed.reap) =
      { s with engine := (s.engine.drain .blocking).2 } := by
  rw [performAll_reap, Engine.drain_eq_reapAll]

theorem performAll_reapDeeds (s : Session κ π) :
    s.performAll target s.reapDeeds = s.reapReady.2 := by
  rw [reapDeeds, performAll_append, performAll_drain, reapReady]
  rcases s.engine.drain .blocking with ⟨err | done, engine⟩
  · rfl
  · exact performAll_releaseDeeds done _

/-- Topping up leads to where its deeds lead. There is one deed at most, and none where no
reads are wanted. -/
theorem performAll_topUpDeeds (config : SessionConfig) (depth : UInt32) (s : Session κ π) :
    s.performAll target (s.topUpDeeds config depth) = (s.topUp target config depth).2 := by
  rw [topUpDeeds]
  by_cases hlt : depth < s.engine.inFlight
  · obtain ⟨hwant, hnone⟩ := want_of_lt config hlt
    rw [topUp, hwant, hnone]
    rfl
  rw [topUp_of_le config (UInt32.not_lt.mp hlt)]
  split
  · rfl
  · rcases hsubmit : s.engine.submitReads target (s.wanted config depth) s.policy
      with ⟨err | count, engine, policy⟩
    · simp [performAll, perform, hsubmit]
    · simp [performAll, perform, hsubmit]

theorem performAll_exchangeDeeds (config : SessionConfig) (depth : UInt32) (s : Session κ π) :
    s.performAll target (s.exchangeDeeds config depth) = (s.exchange target config depth).2 := by
  rw [exchangeDeeds, performAll_append, performAll_reapDeeds, exchange]
  rcases s.reapReady with ⟨err | _, s'⟩
  · rfl
  · exact performAll_topUpDeeds config depth s'

/-- So does waiting for the reads in flight, also where it fails on the way. -/
theorem performAll_shutDownDeeds (rounds : Nat) (s : Session κ π) :
    s.performAll target (shutDownDeeds rounds s) = (shutDownWithin rounds s).2 := by
  induction rounds generalizing s with
  | zero => rfl
  | succ rounds ih =>
    rw [shutDownDeeds, shutDownWithin]
    split
    · rfl
    · rw [performAll_append, performAll_reapDeeds]
      rcases s.reapReady with ⟨err | _, s'⟩
      · rfl
      · exact ih s'

end Session

/-! ## The deeds of a run

The rounds are put together to a run, and with it the looks at the clock. Each of them is a
deed as well, which matters to the meter alone. -/

variable {κ π : Type} [Kernel κ] [OffsetPolicy π]

/-- The deeds of at most so many rounds and of the end, if the end is reached in them. The
list is made in advance from what the calls are going to answer, and where a call fails it
ends with that call. -/
def Run.deeds (around : Surroundings π) (target : ReadTarget) (config : SessionConfig)
    (depth : UInt32) : (allowed : Nat) → (reading : Nat) → Session κ π → List Deed
  | 0, _, _ => []
  | allowed + 1, reading, s =>
    match s.stopReason? config (around.clock reading) (around.stop s.policy reading) with
    | some _ => Session.shutDownDeeds s.engine.inFlight.toNat s
    | none =>
      s.exchangeDeeds config depth ++
        match s.exchange target config depth with
        | (.error _, _) => []
        | (.ok (), s) =>
          .tick (around.clock (reading + 1)) ::
            Run.deeds around target config depth allowed (reading + 2)
              (s.tick (around.clock (reading + 1))).2

/-- One round more. Whatever ends it ends the run; otherwise the rest of the run follows,
one reading of the clock later. -/
theorem Run.loop_succ (around : Surroundings π) (target : ReadTarget) (config : SessionConfig)
    (depth : UInt32) (allowed reading : Nat) (reports : List IntervalReport) (rounds : Nat)
    (s : Session κ π) :
    loop around target config depth (allowed + 1) reading reports rounds s =
      match s.stopReason? config (around.clock reading) (around.stop s.policy reading) with
      | some reason =>
        match s.shutDown with
        | (.error abort, s) => ending (.ofAbort abort) s reports rounds
        | (.ok (), s) =>
          ending (.finished (s.summary depth (around.clock (reading + 1)) reason)) s reports rounds
      | none =>
        match s.exchange target config depth with
        | (.error abort, s) => ending (.ofAbort abort) s reports rounds
        | (.ok (), s) =>
          let (report, s) := s.tick (around.clock (reading + 1))
          loop around target config depth allowed (reading + 2) (report.toList ++ reports)
            (rounds + 1) s := by
  rw [loop, Session.round]
  rcases s.stopReason? config (around.clock reading) (around.stop s.policy reading)
    with _ | reason
  · rcases s.exchange target config depth with ⟨abort | _, s'⟩
    · rfl
    · rfl
  · rcases s.shutDown with ⟨abort | _, s'⟩
    · rfl
    · rfl

/-- A run in which a call has come to no result has not finished. -/
theorem RunOutcome.ofAbort_ne_finished (abort : Abort Failure) (summary : RunSummary) :
    ofAbort abort ≠ .finished summary := by
  cases abort with
  | failed failure => exact nofun
  | overflow operation => exact nofun

theorem RunOutcome.ofAbort_eq_overflowed {abort : Abort Failure} {operation : Overflow} :
    ofAbort abort = .overflowed operation ↔ abort = .overflow operation := by
  cases abort with
  | failed failure => exact iff_of_false nofun nofun
  | overflow other => simp [ofAbort]

/-- Rounds of a session lead to where their deeds lead. -/
theorem Run.performAll_deeds (around : Surroundings π) (target : ReadTarget)
    (config : SessionConfig) (depth : UInt32) (allowed reading : Nat)
    (reports : List IntervalReport) (rounds : Nat) (s : Session κ π) :
    let run := Run.loop around target config depth allowed reading reports rounds s
    let last := s.performAll target (Run.deeds around target config depth allowed reading s)
    run.engine = last.engine ∧ run.policy = last.policy := by
  induction allowed generalizing reading reports rounds s with
  | zero => exact ⟨rfl, rfl⟩
  | succ allowed ih =>
    dsimp only
    rw [Run.loop_succ, Run.deeds]
    rcases s.stopReason? config (around.clock reading) (around.stop s.policy reading)
      with _ | reason
    -- where the round fails, its deeds end where the run does
    · have hexchange : s.performAll target (s.exchangeDeeds config depth) = _ :=
        Session.performAll_exchangeDeeds config depth s
      dsimp only
      rw [Session.performAll_append, hexchange]
      rcases s.exchange target config depth with ⟨err | _, s'⟩
      · exact ⟨rfl, rfl⟩
      · exact ih (reading + 2) _ (rounds + 1) (s'.tick (around.clock (reading + 1))).2
    · have hshut : s.performAll target (Session.shutDownDeeds s.engine.inFlight.toNat s) = _ :=
        Session.performAll_shutDownDeeds _ s
      dsimp only
      rw [hshut, Session.shutDown]
      rcases Session.shutDownWithin s.engine.inFlight.toNat s with ⟨err | _, s'⟩
      · exact ⟨rfl, rfl⟩
      · exact ⟨rfl, rfl⟩

namespace Engine

/-- The session that a run on an engine starts with. Its meter starts at the first reading
of the clock. -/
def session (e : Engine κ) (config : SessionConfig) (policy : π) (around : Surroundings π) :
    Session κ π :=
  { engine := e, policy, meter := Meter.startingAt e.blockSize config.interval (around.clock 0) }

/-- The deeds of a run on an engine. A configuration that breaks a rule leads to none. -/
def deeds (e : Engine κ) (target : ReadTarget) (config : SessionConfig) (policy : π)
    (around : Surroundings π) (allowed : Nat) : List Deed :=
  match config.fault? with
  | some _ => []
  | none =>
    Run.deeds around target config (Session.depth config e) allowed 1
      (e.session config policy around)

/-- A run leads to where its deeds lead, however it ends. -/
theorem performAll_deeds (e : Engine κ) (target : ReadTarget) (config : SessionConfig) (policy : π)
    (around : Surroundings π) (allowed : Nat) :
    let run := e.run target config policy around allowed
    let last := (e.session config policy around).performAll target
      (e.deeds target config policy around allowed)
    run.engine = last.engine ∧ run.policy = last.policy := by
  dsimp only
  rw [run, deeds]
  rcases config.fault? with _ | fault
  · exact Run.performAll_deeds around target config _ allowed 1 [] 0 _
  · exact ⟨rfl, rfl⟩

end Engine

end RingRead
