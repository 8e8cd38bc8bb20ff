import RingRead.Proofs.Session.Deeds

/-!
# How a run breaks off

Three of the deeds of a session can come to no result. Each puts the engine's error in one
context of its own, and a reap can overflow beside that (`Session.abortOf?`). The session
stops there.

* **A deed at a time.** `Session.aborts` lists the aborts of deeds, each from where the
  deeds before it have led. The steps of a session, from the drain to the round, abort just
  if one of their deeds does, and then as it does.
* **A run.** `Engine.aborts_deeds` says the same of a whole run. So a run ends by that of
  its deeds which comes to no result, whichever it is (`Engine.outcome_of_abort`).

Between its deeds a session computes how many reads are missing. That this number is below
zero is the one abort that no deed accounts for, and it tells itself apart: no deed of a
session overflows in a subtraction (`Session.ne_subtraction_of_mem_aborts`).
-/

namespace RingRead

/-- How a run broke off, if it did: by a failure or by an overflow. A run that is unfinished
has not broken off. -/
def RunOutcome.abort? : RunOutcome → Option (Abort Failure)
  | failed failure => some (.failed failure)
  | overflowed operation => some (.overflow operation)
  | finished _ | unfinished => none

theorem RunOutcome.abort?_eq_some {outcome : RunOutcome} {abort : Abort Failure} :
    outcome.abort? = some abort ↔ outcome = .ofAbort abort := by
  cases abort with
  | failed failure => cases outcome <;> simp [abort?, ofAbort]
  | overflow operation => cases outcome <;> simp [abort?, ofAbort]

@[simp] theorem RunOutcome.abort?_ofAbort (abort : Abort Failure) :
    (ofAbort abort).abort? = some abort :=
  abort?_eq_some.mpr rfl

/-- An abort that a deed accounts for: it is not that of a number below zero. The
subtraction that can go below zero is made between two deeds of a round, after the reap and
before the submission. -/
def Abort.fromDeed (abort : Abort Failure) : Bool := abort ≠ .overflow .subtraction

@[simp] theorem Abort.fromDeed_failed (failure : Failure) : fromDeed (.failed failure) = true := rfl

namespace Session

variable {κ π : Type} [Kernel κ] [OffsetPolicy π]

/-! ## Aborts of deeds

Only calls of the engine can come to no result. To count a read and to look at the clock
cannot fail. -/

/-- An abort of the engine, its error in a context. -/
def blame {α : Type} (context : String) : Except (Abort Error) α → Option (Abort Failure)
  | .error abort => some (abort.map fun err => (Failure.ofError err).within context)
  | .ok _ => none

/-- The abort of a step, if it came to no result. -/
def abort? : Except (Abort Failure) Unit → Option (Abort Failure)
  | .error abort => some abort
  | .ok () => none

/-- The abort of a deed, if it comes to no result. The context says what the session was
doing, and the error of the engine is kept inside it. -/
def abortOf? (target : ReadTarget) (s : Session κ π) : Deed → Option (Abort Failure)
  | .reap mode => blame "reaping completions" (s.engine.reap mode).1
  | .release token => blame "releasing buffer" ((s.engine.release token).1.mapError .failed)
  | .submit requested =>
    blame "submitting reads"
      ((s.engine.submitReads target requested s.policy).1.mapError .failed)
  | .record | .tick _ => none

/-- The aborts of deeds. Deeds that follow one that has failed would be listed with their
own, but a session has none. -/
def aborts (target : ReadTarget) : Session κ π → List Deed → List (Abort Failure)
  | _, [] => []
  | s, deed :: rest =>
    (s.abortOf? target deed).toList ++ aborts target (s.perform target deed) rest

variable {target : ReadTarget} {s : Session κ π} {deeds deeds' : List Deed}
  {abort : Abort Failure}

theorem aborts_append : s.aborts target (deeds ++ deeds') =
    s.aborts target deeds ++ (s.performAll target deeds).aborts target deeds' := by
  induction deeds generalizing s with
  | nil => rfl
  | cons deed rest ih =>
    rw [List.cons_append, aborts, aborts, ih, List.append_assoc]
    rfl

/-- What one of the deeds aborts with is among the aborts. -/
theorem mem_aborts {deed : Deed}
    (habort : (s.performAll target deeds).abortOf? target deed = some abort)
    (rest : List Deed) : abort ∈ s.aborts target (deeds ++ deed :: rest) := by
  rw [aborts_append, aborts, habort]
  simp

/-! ## Steps

For each step of a session, the aborts of its deeds are none or one, and it is the abort of
the step. -/

/-- The aborts of reaps are those of their answers. -/
theorem aborts_reap (modes : List ReapMode) (s : Session κ π) :
    s.aborts target (modes.map Deed.reap) =
      (Engine.reapAll modes s.engine).1.filterMap (blame "reaping completions") := by
  induction modes generalizing s with
  | nil => rfl
  | cons mode modes ih =>
    have hrest := ih { s with engine := (s.engine.reap mode).2 }
    rw [List.map_cons, aborts, perform, hrest, Engine.reapAll, abortOf?]
    cases (s.engine.reap mode).1 with
    | error abort => rfl
    | ok completion => rfl

/-- Reads are collected until a reap aborts or brings nothing, so of the answers of a
collection only the last can be an abort. -/
theorem blame_collectModes (context : String) (rounds : Nat) (e : Engine κ) :
    let answers := (Engine.reapAll (Engine.collectModes rounds e) e).1
    answers.filterMap (blame context) = (blame context (Engine.gather answers)).toList := by
  induction rounds generalizing e with
  | zero => rfl
  | succ rounds ih =>
    have hrest := ih (e.reap .nonBlocking).2
    dsimp only at hrest ⊢
    rcases hreap : e.reap .nonBlocking with ⟨abort | _ | completion, e'⟩
    · simp [Engine.collectModes, Engine.reapAll, Engine.gather, blame, hreap]
    · simp [Engine.collectModes, Engine.reapAll, Engine.gather, blame, hreap]
    · rw [hreap] at hrest
      simp only [Engine.collectModes, Engine.reapAll, Engine.gather, hreap]
      rw [List.filterMap_cons_none rfl, hrest]
      cases Engine.gather (Engine.reapAll (Engine.collectModes rounds e') e').1 with
      | error abort => rfl
      | ok rest => rfl

/-- A drain aborts as its last reap does. -/
theorem aborts_drain (s : Session κ π) :
    s.aborts target ((s.engine.drainModes .blocking).map Deed.reap) =
      (blame "reaping completions" (s.engine.drain .blocking).1).toList := by
  rw [aborts_reap, Engine.drain_eq_reapAll]
  rcases hreap : s.engine.reap .blocking with ⟨abort | _ | completion, e⟩
  · simp [Engine.drainModes, Engine.reapAll, Engine.gather, blame, hreap]
  · simp [Engine.drainModes, Engine.reapAll, Engine.gather, blame, hreap]
  · have hrest := blame_collectModes "reaping completions" (e.pool.count .loaned + 1) e
    simp only [Engine.drainModes, Engine.reapAll, Engine.gather, hreap]
    rw [List.filterMap_cons_none rfl, hrest]
    cases Engine.gather (Engine.reapAll (Engine.collectModes (e.pool.count .loaned + 1) e) e).1 with
    | error abort => rfl
    | ok rest => rfl

/-- Giving blocks back aborts as the first release that is refused does. -/
theorem aborts_releaseDeeds (done : List Completion) (s : Session κ π) :
    s.aborts target (releaseDeeds done s) = (abort? (releaseAll done s).1).toList := by
  induction done generalizing s with
  | nil => rfl
  | cons done rest ih =>
    rw [releaseDeeds, releaseAll, aborts, aborts]
    rcases hrelease : s.engine.release done.token with ⟨err | _, engine⟩
    · simp [abortOf?, perform, blame, abort?, aborts, Except.mapError, Abort.map, hrelease]
    · simp [abortOf?, perform, blame, ih, Except.mapError, hrelease]

theorem aborts_reapDeeds (s : Session κ π) :
    s.aborts target s.reapDeeds = (abort? s.reapReady.1).toList := by
  rw [reapDeeds, aborts_append, performAll_drain, aborts_drain, reapReady]
  rcases s.engine.drain .blocking with ⟨abort | done, engine⟩
  · rfl
  · exact aborts_releaseDeeds done _

/-- The end of a run aborts as one of its rounds of reaping does, and that is the last
one. -/
theorem aborts_shutDownDeeds (rounds : Nat) (s : Session κ π) :
    s.aborts target (shutDownDeeds rounds s) = (abort? (shutDownWithin rounds s).1).toList := by
  induction rounds generalizing s with
  | zero => rfl
  | succ rounds ih =>
    rw [shutDownDeeds, shutDownWithin]
    split
    · rfl
    · rw [aborts_append, performAll_reapDeeds, aborts_reapDeeds]
      rcases s.reapReady with ⟨abort | _, s'⟩
      · rfl
      · exact ih s'

/-! ## The number that is missing

A reap overflows in a negation, if at all, and a session in a subtraction, which is not a
deed. So the deeds of a session abort as the session does, unless it is with a subtraction.
-/

/-- The sign of a result is all that a reap turns. So it overflows in a negation, if at
all. -/
theorem reap_ne_subtraction (e : Engine κ) (mode : ReapMode) :
    (e.reap mode).1 ≠ .error (.overflow .subtraction) := by
  intro hreap
  rcases htake : e.takeOrWait mode with ⟨err | _ | c, e'⟩
  · rw [Engine.reap_of_error htake] at hreap
    cases hreap
  · rw [Engine.reap_of_none htake] at hreap
    cases hreap
  -- a completion that is given up ends in the abort that it was given up with, or in that of the
  -- release
  · have hgiveUp (e : Engine κ) (token : Token) {abort : Abort Error}
        (hne : abort ≠ .overflow .subtraction) :
        (e.giveUp token abort).1 ≠ .error (.overflow .subtraction) := by
      rw [Engine.giveUp]
      rcases e.release token with ⟨err | _, e''⟩
      · simp
      · exact fun heq => hne (Except.error.inj heq)
    have hrefusal : c.refusal ≠ .overflow .subtraction := by
      rcases c.refusal_cases with ⟨-, heq⟩ | ⟨-, heq⟩
      all_goals simp [heq]
    have hfinish : (e'.finish c).1 ≠ .error (.overflow .subtraction) := by
      rw [Engine.finish]
      rcases e'.pool.reclaim c.userData with ⟨err | token, pool⟩
      · simp
      · dsimp only
        generalize (if e'.ring.inFlight = 0 then 0 else e'.ring.inFlight - 1) = inFlight
        split
        · exact hgiveUp _ _ hrefusal
        · split
          · exact hgiveUp _ _ (by simp)
          · simp
    rw [Engine.reap_of_taken htake] at hreap
    rcases hresult : (e'.finish c).1 with abort | completion
    · rw [hresult] at hreap hfinish
      exact hfinish (congrArg Except.error (Except.error.inj hreap))
    · rw [hresult] at hreap
      cases hreap

/-- No deed ends in the subtraction: a release and a submission end in errors alone, and a
reap can overflow in its negation only. -/
theorem ne_subtraction_of_mem_aborts (h : abort ∈ s.aborts target deeds) :
    abort ≠ .overflow .subtraction := by
  induction deeds generalizing s with
  | nil => cases h
  | cons deed rest ih =>
    rcases List.mem_append.mp h with hfirst | hrest
    · have hdeed := Option.mem_toList.mp hfirst
      rintro rfl
      cases deed with
      | reap mode =>
        -- of the deeds only a reap can overflow, and that in its negation
        rw [abortOf?] at hdeed
        rcases hreap : (s.engine.reap mode).1 with (err | operation) | completion
        all_goals rw [hreap] at hdeed
        · cases hdeed
        · cases hdeed
          exact reap_ne_subtraction s.engine mode hreap
        · cases hdeed
      | release token =>
        rw [abortOf?] at hdeed
        rcases hrelease : (s.engine.release token).1 with err | _
        all_goals
          rw [hrelease] at hdeed
          cases hdeed
      | submit requested =>
        rw [abortOf?] at hdeed
        rcases hsubmit : (s.engine.submitReads target requested s.policy).1 with err | count
        all_goals
          rw [hsubmit] at hdeed
          cases hdeed
      | record => cases hdeed
      | tick now => cases hdeed
    · exact ih hrest

/-- An abort that the deeds account for, in full. -/
theorem toList_filter_of_aborts {abort : Option (Abort Failure)}
    (h : s.aborts target deeds = abort.toList) :
    abort.toList = (abort.filter Abort.fromDeed).toList := by
  rcases abort with _ | abort
  · rfl
  · have hmem : abort ∈ s.aborts target deeds := by simp [h]
    have hdeed : abort.fromDeed = true := decide_eq_true (ne_subtraction_of_mem_aborts hmem)
    rw [Option.filter_some, hdeed]
    rfl

/-- Topping up aborts as its submission does. The subtraction before it can end the round
too, but that is no deed. -/
theorem aborts_topUpDeeds (config : SessionConfig) (depth : UInt32) (s : Session κ π) :
    s.aborts target (s.topUpDeeds config depth) =
      ((abort? (s.topUp target config depth).1).filter Abort.fromDeed).toList := by
  rw [topUpDeeds]
  by_cases hlt : depth < s.engine.inFlight
  · obtain ⟨hwant, hnone⟩ := want_of_lt config hlt
    rw [topUp, hwant, hnone]
    rfl
  rw [topUp_of_le config (UInt32.not_lt.mp hlt)]
  split
  · rfl
  · rcases hsubmit : s.engine.submitReads target (s.wanted config depth) s.policy
      with ⟨err | count, engine, policy⟩
    · simp [aborts, abortOf?, blame, abort?, Except.mapError, Abort.map, Option.filter_some,
        hsubmit]
    · simp [aborts, abortOf?, blame, abort?, Except.mapError, hsubmit]

theorem aborts_exchangeDeeds (config : SessionConfig) (depth : UInt32) (s : Session κ π) :
    s.aborts target (s.exchangeDeeds config depth) =
      ((abort? (s.exchange target config depth).1).filter Abort.fromDeed).toList := by
  have hreap : s.aborts target s.reapDeeds = _ := s.aborts_reapDeeds
  have hdeed := toList_filter_of_aborts hreap
  rw [exchangeDeeds, aborts_append, performAll_reapDeeds, hreap, exchange]
  rcases hready : s.reapReady with ⟨abort | _, s'⟩
  · rw [hready] at hdeed
    exact (List.append_nil _).trans hdeed
  · exact aborts_topUpDeeds config depth s'

end Session

/-! ## Runs

What holds of each step holds of a run, since a run stops with the first step that
aborts. -/

variable {κ π : Type} [Kernel κ] [OffsetPolicy π]

/-- Rounds of a session abort as their deeds do. -/
theorem Run.aborts_deeds (around : Surroundings π) (target : ReadTarget) (config : SessionConfig)
    (depth : UInt32) (allowed reading : Nat) (reports : List IntervalReport) (rounds : Nat)
    (s : Session κ π) :
    s.aborts target (Run.deeds around target config depth allowed reading s) =
      ((Run.loop around target config depth allowed reading reports rounds
        s).outcome.abort?.filter Abort.fromDeed).toList := by
  induction allowed generalizing reading reports rounds s with
  | zero => rfl
  | succ allowed ih =>
    rw [Run.loop_succ, Run.deeds]
    rcases s.stopReason? config (around.clock reading) (around.stop s.policy reading)
      with _ | reason
    -- the subtraction is between the deeds of a round: it ends the run and is none of them
    · have hexchange : s.performAll target (s.exchangeDeeds config depth) = _ :=
        Session.performAll_exchangeDeeds config depth s
      have haborts : s.aborts target (s.exchangeDeeds config depth) = _ :=
        Session.aborts_exchangeDeeds config depth s
      dsimp only
      rw [Session.aborts_append, hexchange, haborts]
      rcases s.exchange target config depth with ⟨abort | _, s'⟩
      · simp [Session.aborts, Session.abort?, Run.ending]
      · exact ih (reading + 2) _ (rounds + 1) (s'.tick (around.clock (reading + 1))).2
    · have hshut : s.aborts target (Session.shutDownDeeds s.engine.inFlight.toNat s) = _ :=
        Session.aborts_shutDownDeeds _ s
      have hdeed := Session.toList_filter_of_aborts hshut
      dsimp only
      rw [hshut, hdeed, Session.shutDown]
      rcases Session.shutDownWithin s.engine.inFlight.toNat s with ⟨abort | _, s'⟩
      · simp [Session.abort?, Run.ending]
      · rfl

namespace Engine

variable {e : Engine κ} {target : ReadTarget} {config : SessionConfig} {policy : π}
  {around : Surroundings π} {allowed : Nat}

/-- A run with a configuration that breaks no rule aborts as one of its deeds does, of which
there is one at most, or with the subtraction between them. -/
theorem aborts_deeds (hvalid : config.fault? = none) :
    (e.session config policy around).aborts target (e.deeds target config policy around allowed) =
      ((e.run target config policy around allowed).outcome.abort?.filter
        Abort.fromDeed).toList := by
  rw [run, deeds, hvalid]
  exact Run.aborts_deeds around target config _ allowed 1 [] 0 _

/-- A run ends as soon as one of its deeds comes to no result. -/
theorem outcome_of_abort {before after : List Deed} {deed : Deed} {abort : Abort Failure}
    (hdeeds : e.deeds target config policy around allowed = before ++ deed :: after)
    (habort : ((e.session config policy around).performAll target before).abortOf? target deed =
      some abort) :
    (e.run target config policy around allowed).outcome = .ofAbort abort := by
  have hvalid : config.fault? = none := by
    rcases hrule : config.fault? with _ | fault
    · rfl
    · rw [deeds, hrule] at hdeeds
      simp at hdeeds
  have hmem := Session.mem_aborts habort after
  rw [← hdeeds, aborts_deeds hvalid, Option.mem_toList] at hmem
  exact RunOutcome.abort?_eq_some.mp (Option.filter_eq_some_iff.mp hmem).1

end Engine

end RingRead
