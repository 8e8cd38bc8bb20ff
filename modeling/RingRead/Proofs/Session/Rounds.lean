import RingRead.Proofs.Session.Conservation

/-!
# The rounds of a run

`Run.history` lists in advance the rounds of a run that come to topping up: each with the
session that it began with and the one after what had completed was taken back.

* **The list is the run's.** A run has completed as many rounds as top-ups of the list
  succeed (`Run.rounds_eq`), and the submissions among its deeds are those of the listed
  rounds (`Run.submissions_deeds`).
* **Invariants.** What holds when a run starts, and is kept by every round that succeeds,
  holds at the start of each round (`Run.forall_history`).
-/

namespace RingRead

/-- A round that has come to topping up. A round whose reap has failed is not one of these,
because it submits nothing. -/
structure Round (κ π : Type) where
  /-- The session that it began with. -/
  start : Session κ π
  /-- The session after what had completed was taken back. -/
  reaped : Session κ π

/-- The number of reads that a deed asks to submit. -/
def Deed.submission? : Deed → Option UInt32
  | .submit requested => some requested
  | _ => none

namespace Session

variable {κ π : Type}

theorem submissions_topUpDeeds (config : SessionConfig) (depth : UInt32) (s : Session κ π) :
    (s.topUpDeeds config depth).filterMap Deed.submission? =
      [s.wanted config depth].filter (· ≠ 0) := by
  rw [topUpDeeds]
  split
  · next hwant => simp [hwant]
  · next hwant => simp [hwant, Deed.submission?]

theorem submissions_releaseDeeds (done : List Completion) (s : Session κ π) :
    (releaseDeeds done s).filterMap Deed.submission? = [] := by
  induction done generalizing s with
  | nil => rfl
  | cons done rest ih =>
    rw [releaseDeeds]
    rcases s.engine.release done.token with ⟨err | _, engine⟩
    · rfl
    · exact ih { s with engine, meter := s.meter.record }

variable [Kernel κ]

/-- Taking back submits nothing. -/
theorem submissions_reapDeeds (s : Session κ π) :
    s.reapDeeds.filterMap Deed.submission? = [] := by
  have hreaps (modes : List ReapMode) :
      (modes.map Deed.reap).filterMap Deed.submission? = [] := by
    induction modes with
    | nil => rfl
    | cons mode modes ih => exact ih
  rw [reapDeeds, List.filterMap_append, hreaps, List.nil_append]
  rcases s.engine.drain .blocking with ⟨abort | done, engine⟩
  · rfl
  · exact submissions_releaseDeeds done _

/-- Neither does waiting for the reads in flight. -/
theorem submissions_shutDownDeeds (rounds : Nat) (s : Session κ π) :
    (shutDownDeeds rounds s).filterMap Deed.submission? = [] := by
  induction rounds generalizing s with
  | zero => rfl
  | succ rounds ih =>
    rw [shutDownDeeds]
    split
    · rfl
    · rw [List.filterMap_append, submissions_reapDeeds, List.nil_append]
      rcases s.reapReady with ⟨abort | _, s'⟩
      · rfl
      · exact ih s'

end Session

variable {κ π : Type} [Kernel κ] [OffsetPolicy π]

namespace Round

variable (round : Round κ π) (target : ReadTarget) (config : SessionConfig) (depth : UInt32)

/-- The number of reads that a round wants to submit. A round that finds more reads in
flight than the depth wants none. -/
def want : UInt32 := round.reaped.wanted config depth

/-- The number of reads that it goes on to stage: those it wants, as far as there are free
slots. An engine cuts a submission down to its free slots without saying so, hence the two
numbers. -/
def batch : UInt32 := min (round.want config depth) round.reaped.engine.ring.available

/-- The calls of a round have all succeeded if the top-up has, which is the last of them. -/
def succeeds : Bool := (round.reaped.topUp target config depth).1.toBool

end Round

namespace Run

variable {around : Surroundings π} {target : ReadTarget} {config : SessionConfig} {depth : UInt32}
  {allowed reading : Nat} {s : Session κ π}

/-- The rounds that come to topping up, of at most so many. The last of them may have failed
in that. -/
def history (around : Surroundings π) (target : ReadTarget) (config : SessionConfig)
    (depth : UInt32) : (allowed : Nat) → (reading : Nat) → Session κ π → List (Round κ π)
  | 0, _, _ => []
  | allowed + 1, reading, s =>
    match s.stopReason? config (around.clock reading) (around.stop s.policy reading) with
    | some _ => []
    | none =>
      match s.reapReady with
      | (.error _, _) => []
      | (.ok (), reaped) =>
        ⟨s, reaped⟩ ::
          match reaped.topUp target config depth with
          | (.error _, _) => []
          | (.ok (), s) =>
            history around target config depth allowed (reading + 2)
              (s.tick (around.clock (reading + 1))).2

/-- The rounds that a run completes are those whose top-up succeeds. Only the last of the
listed rounds can be one whose top-up has failed. -/
theorem rounds_eq (reports : List IntervalReport) (rounds : Nat) :
    (loop around target config depth allowed reading reports rounds s).rounds =
      rounds + (history around target config depth allowed reading s).countP
        (·.succeeds target config depth) := by
  induction allowed generalizing reading reports rounds s with
  | zero => rfl
  | succ allowed ih =>
    rw [loop_succ, history]
    rcases s.stopReason? config (around.clock reading) (around.stop s.policy reading)
      with _ | reason
    · dsimp only
      rw [Session.exchange]
      rcases hreap : s.reapReady with ⟨abort | _, reaped⟩
      · rfl
      · rcases htop : reaped.topUp target config depth with ⟨abort | _, s'⟩
        · simp [htop, Round.succeeds, ending, Except.toBool]
        · simp only [htop, Round.succeeds, List.countP_cons, Except.toBool, if_true]
          rw [ih]
          exact Nat.add_right_comm ..
    · dsimp only
      rcases s.shutDown with ⟨abort | _, s'⟩
      · rfl
      · rfl

/-- The submissions of a run are those of its rounds. -/
theorem submissions_deeds :
    (Run.deeds around target config depth allowed reading s).filterMap Deed.submission? =
      ((history around target config depth allowed reading s).map (·.want config depth)).filter
        (· ≠ 0) := by
  induction allowed generalizing reading s with
  | zero => rfl
  | succ allowed ih =>
    rw [Run.deeds, history]
    rcases s.stopReason? config (around.clock reading) (around.stop s.policy reading)
      with _ | reason
    · dsimp only
      rw [List.filterMap_append, Session.exchangeDeeds, List.filterMap_append,
        Session.submissions_reapDeeds, List.nil_append, Session.exchange]
      rcases hreap : s.reapReady with ⟨abort | _, reaped⟩
      · rfl
      · rcases htop : reaped.topUp target config depth with ⟨abort | _, s'⟩
        · simp [htop, Session.submissions_topUpDeeds, Round.want]
        · simp only [htop, List.map_cons, List.filterMap_cons, Deed.submission?, ih,
            Session.submissions_topUpDeeds, Round.want]
          exact (List.filter_append ..).symm
    · exact Session.submissions_shutDownDeeds _ s

/-- A property that every round keeps holds at the start of each round. A round starts where
it is not time to stop. -/
theorem forall_history {P : Session κ π → Prop}
    (hround : ∀ {s reaped s' : Session κ π}, P s → s.reapReady = (.ok (), reaped) →
      reaped.topUp target config depth = (.ok (), s') → ∀ now, P (s'.tick now).2)
    (h : P s) : ∀ round ∈ history around target config depth allowed reading s,
      P round.start ∧ round.start.reapReady = (.ok (), round.reaped) ∧
        ∃ now stop, round.start.stopReason? config now stop = none := by
  induction allowed generalizing reading s with
  | zero => exact List.forall_mem_nil _
  | succ allowed ih =>
    rw [history]
    rcases hstop : s.stopReason? config (around.clock reading) (around.stop s.policy reading)
      with _ | reason
    · dsimp only
      rcases hreap : s.reapReady with ⟨abort | _, reaped⟩
      · exact List.forall_mem_nil _
      · intro round hmem
        rcases List.mem_cons.mp hmem with rfl | hmem
        · exact ⟨h, hreap, _, _, hstop⟩
        · rcases htop : reaped.topUp target config depth with ⟨abort | _, s'⟩
          · simp [htop] at hmem
          · simp only [htop] at hmem
            exact ih (hround h hreap htop _) round hmem
    · exact List.forall_mem_nil _

end Run

namespace Engine

variable (e : Engine κ) (target : ReadTarget) (config : SessionConfig) (policy : π)
  (around : Surroundings π) (allowed : Nat)

/-- The rounds of a run on an engine that come to topping up. -/
def history : List (Round κ π) :=
  match config.fault? with
  | some _ => []
  | none =>
    Run.history around target config (Session.depth config e) allowed 1
      (e.session config policy around)

/-- With a configuration that breaks a rule there are no rounds. -/
theorem history_cases :
    e.history target config policy around allowed = [] ∨
      config.fault? = none ∧ e.history target config policy around allowed =
        Run.history around target config (Session.depth config e) allowed 1
          (e.session config policy around) := by
  rw [history]
  rcases config.fault? with _ | fault
  · exact Or.inr ⟨rfl, rfl⟩
  · exact Or.inl rfl

/-- So a run on an engine counts the rounds that have succeeded. -/
theorem rounds_run : (e.run target config policy around allowed).rounds =
    (e.history target config policy around allowed).countP
      (·.succeeds target config (Session.depth config e)) := by
  rw [run, history]
  rcases config.fault? with _ | fault
  · exact (Run.rounds_eq [] 0).trans (Nat.zero_add _)
  · rfl

theorem submissions_deeds :
    (e.deeds target config policy around allowed).filterMap Deed.submission? =
      ((e.history target config policy around allowed).map
        (·.want config (Session.depth config e))).filter (· ≠ 0) := by
  rw [deeds, history]
  rcases config.fault? with _ | fault
  · exact Run.submissions_deeds
  · rfl

end Engine

end RingRead
