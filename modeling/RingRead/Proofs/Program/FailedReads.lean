import RingRead.Proofs.Engine.Exchanges
import RingRead.Proofs.Engine.Reaping
import RingRead.Proofs.Program.ExitStatus

/-!
# Failed reads and the exit status

A kernel that refuses a read writes the negative of an error number into the completion.
That is negated to report the failure, negated for the log, and negated once more for the
exit status.

* **The reap.** On any kernel, a negative result for a block on loan fails the reap with the
  negated result. This is a positive number and the magnitude of the result
  (`Engine.neg_of_refused`), and none of the three negations overflows. The smallest 32-bit
  number alone has no negative; a reap that comes to it is broken off by the first of them.
* **The program.** A program that comes to a reap without a result breaks off as the reap
  does (`Program.abort?_of_reap`). So it exits with the magnitude of the result where that
  is a status, and with 1 where it is not, unless the reap has overflowed
  (`Engine.reap_of_refused`).
-/

namespace RingRead

open CommandLine (Options)

/-! ## Negative results

An error number is positive, and the kernel writes it with its sign turned. Turning it back
and forth loses nothing, but for one number. -/

/-- The negative of a negative result is positive and has the magnitude of the result,
unless the result is the smallest number. -/
theorem Engine.neg_of_refused {res : Int32} (hneg : res < 0) (hne : res ≠ Int32.minValue) :
    0 < -res ∧ (-res).toInt = -res.toInt := by
  have hint := toInt_neg_res hne
  have hlt := Int32.lt_iff_toInt_lt.mp hneg
  rw [Int32.toInt_zero] at hlt
  refine ⟨Int32.lt_iff_toInt_lt.mpr ?_, hint⟩
  rw [hint, Int32.toInt_zero]
  omega

/-- A result that can be negated can be negated back, so the number of the failure is again
the one that the kernel has given. -/
theorem checkedNeg_neg {res : Int32} (hneg : res < 0) (hne : res ≠ Int32.minValue) :
    checkedNeg res = .ok (-res) ∧ checkedNeg (-res) = .ok res := by
  have hpos := (Engine.neg_of_refused hneg hne).1
  have hback : -res ≠ Int32.minValue := by
    intro hmin
    rw [hmin] at hpos
    exact absurd hpos (by decide)
  exact ⟨if_neg hne, (if_neg hback).trans (congrArg Except.ok Int32.neg_neg)⟩

/-- A failure that comes from a negative result exits with the magnitude of the result, if
that fits in a byte. All larger ones share the status 1 with the failures that have no
number. -/
theorem Failure.exitCode_of_refused {failure : Failure} {tag : UInt64} {res : Int32}
    (hneg : res < 0) (hne : res ≠ Int32.minValue)
    (herror : failure.engineError? = some (.completionFailed tag (-res))) :
    (failure.exitCode.toNat : Int) = if -res.toInt ≤ 255 then -res.toInt else 1 := by
  obtain ⟨hpos, hint⟩ := Engine.neg_of_refused hneg hne
  have hone := Int32.lt_iff_toInt_lt.mp hpos
  rw [Int32.toInt_zero, hint] at hone
  rw [exitCode_of_given herror rfl, hint]
  by_cases hle : -res.toInt ≤ 255
  · rw [if_pos hle, if_pos ⟨hone, hle⟩]
  · rw [if_neg hle, if_neg fun hinside => hle hinside.2]

/-! ## Programs that come to a reap

The deeds of a run lead from engine to engine. A program comes to a reap on an engine if
this is the next deed once the deeds before it have led there, and then nothing comes after
it unless it succeeds.
-/

variable {κ : Type} [Kernel κ]

/-- Wherever deeds lead, the engine is one that calls have made. -/
theorem Engine.Reachable.performDeeds {π : Type} [OffsetPolicy π] {s : Session κ π}
    (h : s.engine.Reachable) (target : ReadTarget) (deeds : List Deed) :
    (s.performAll target deeds).engine.Reachable := by
  induction deeds generalizing s with
  | nil => exact h
  | cons deed rest ih =>
    refine ih ?_
    cases deed with
    | reap mode => exact h.performed (.reap mode)
    | release token => exact h.performed (.release token)
    | submit requested => exact h.performed (.submitReads target requested s.policy)
    | record | tick _ => exact h

namespace Program

variable {openTarget : String → Except SystemError (κ × ReadTarget)}
  {around : Surroundings RandomBlocks} {freshSeed : UInt64} {allowed : Nat} {o : Options}
  {mappings : MappingAnswers}

/-- With options that break no rule, a target that can be opened and a kernel that makes a
ring, all is prepared. -/
theorem prepare_of_create {kernel : κ} {target : ReadTarget} {e : Engine κ}
    (hsession : o.sessionConfig.fault? = none) (hpool : o.poolConfig.fault? = none)
    (hopen : openTarget o.file = .ok (kernel, target))
    (hcreate : Engine.create kernel o.depth 0 o.poolConfig mappings = .ok e) :
    prepare openTarget o mappings = .ok (e, target) := by
  simp only [prepare, hsession, hpool, hopen, hcreate]

/-- A program comes to a reap on this engine: the deeds before it lead there, and it is the
next one. This is a condition on the run alone and says nothing of how the reap ends. -/
def ComesToReap (openTarget : String → Except SystemError (κ × ReadTarget))
    (around : Surroundings RandomBlocks) (freshSeed : UInt64) (allowed : Nat) (o : Options)
    (mappings : MappingAnswers) (e : Engine κ) (mode : ReapMode) : Prop :=
  ∃ engine target before after,
    prepare openTarget o mappings = .ok (engine, target) ∧
    let policy := RandomBlocks.seeded (o.seed.getD freshSeed)
    engine.deeds target o.sessionConfig policy around allowed = before ++ .reap mode :: after ∧
    ((engine.session o.sessionConfig policy around).performAll target before).engine = e

/-- A program that comes to a reap without a result breaks off as the reap does. An error
gets the context that it was met in, and an overflow stays what it is. -/
theorem abort?_of_reap {e : Engine κ} {mode : ReapMode} {abort : Abort Error}
    (h : ComesToReap openTarget around freshSeed allowed o mappings e mode)
    (habort : (e.reap mode).1 = .error abort) :
    abort? openTarget around freshSeed allowed o mappings =
      some (abort.map fun err => (Failure.ofError err).within "reaping completions") := by
  obtain ⟨engine, target, before, after, hprepare, hdeeds, rfl⟩ := h
  rw [abort?, hprepare]
  refine RunOutcome.abort?_eq_some.mpr (Engine.outcome_of_abort hdeeds ?_)
  rw [Session.abortOf?, habort]
  rfl

/-- The status of a program that comes to a reap that fails is that of the failure. -/
theorem exitCode_of_reap {e : Engine κ} {mode : ReapMode} {err : Error}
    (h : ComesToReap openTarget around freshSeed allowed o mappings e mode)
    (herror : (e.reap mode).1 = .error (.failed err)) :
    (runOptions openTarget around freshSeed allowed o mappings).exitCode =
      ((Failure.ofError err).within "reaping completions").exitCode := by
  have hreports := reports_runOptions openTarget around freshSeed allowed o mappings
  rw [abort?_of_reap h herror] at hreports
  exact hreports.2

/-- A program that comes to a reap that overflows says which operation it was, and no
more. -/
theorem broken_off_of_reap {e : Engine κ} {mode : ReapMode} {operation : Overflow}
    (h : ComesToReap openTarget around freshSeed allowed o mappings e mode)
    (hoverflow : (e.reap mode).1 = .error (.overflow operation)) :
    let result := runOptions openTarget around freshSeed allowed o mappings
    result.errors = [operation.message] ∧ result.exitCode = 101 := by
  have hreports := reports_runOptions openTarget around freshSeed allowed o mappings
  rw [abort?_of_reap h hoverflow] at hreports
  exact hreports

end Program

namespace Engine

variable {e e' : Engine κ} {mode : ReapMode} {c : Cqe}

/-- A reap that comes to a negative result for a block on loan ends as the completion entry
says, and the block is free when it does. -/
theorem reap_of_negative (h : e.Reachable) (htaken : e.takeOrWait mode = (.ok (some c), e'))
    (hloaned : e.pool.state? c.userData.toNat = some .loaned) (hneg : c.res < 0) :
    (e.reap mode).1 = .error c.refusal ∧
      (e.reap mode).2.pool.state? c.userData.toNat = some .free := by
  have hdrifts : e.Drifts e' := drifts_of_takeOrWait htaken
  have hreachable : e'.Reachable := h.drifted hdrifts
  have hsound : e'.pool.Sound := hreachable.balanced.sound
  have hstill : e'.pool.state? c.userData.toNat = some .loaned := by
    obtain ⟨kernel, transfers, rfl⟩ := hdrifts
    exact (Pool.state?_receiveAll ..).trans hloaned
  have hreap : (e.reap mode).1 = .error c.refusal := by
    rw [reap_answer_of_loaned hsound htaken hstill, verdict, if_pos hneg]
    rfl
  refine ⟨hreap, ?_⟩
  obtain ⟨n, htag, hretires⟩ :=
    (takenEnds_finish hsound hreachable.uniform hreachable.valid c).retires hstill hneg
  rw [reap_of_taken htaken, htag, UInt32.toNat_toUInt64]
  exact hretires.moves.state_of_mem _ (List.mem_singleton_self _)

/-- **What becomes of a refused read.** Take an engine after any calls on any kernel, and
let a reap come to a completion of a block on loan, with any negative result. If the result
is not the smallest 32-bit number, then

* the reap fails with the negated result as its error number, which is positive and the
  magnitude of the result;
* the failure is reported under the result itself, and no negation on the way there and back
  overflows;
* every failure that comes from it, whatever its contexts, exits with the magnitude of the
  result if that is at most 255, and with 1 otherwise;
* so does every program that comes to this reap.

If it is the smallest number, the reap overflows in the negation. Its block has been given
back by then, and every program that comes to this reap is broken off.
-/
theorem reap_of_refused (h : e.Reachable) (htaken : e.takeOrWait mode = (.ok (some c), e'))
    (hloaned : e.pool.state? c.userData.toNat = some .loaned) (hneg : c.res < 0) :
    (c.res ≠ Int32.minValue →
      let error := Error.completionFailed c.userData (-c.res)
      (e.reap mode).1 = .error (.failed error) ∧
      (0 < -c.res ∧ (-c.res).toInt = -c.res.toInt) ∧
      error.errnoValue = c.res ∧
      (checkedNeg c.res = .ok (-c.res) ∧ checkedNeg (-c.res) = .ok c.res) ∧
      (∀ failure : Failure, failure.engineError? = some error →
        (failure.exitCode.toNat : Int) = if -c.res.toInt ≤ 255 then -c.res.toInt else 1) ∧
      ∀ openTarget around freshSeed allowed o mappings,
        Program.ComesToReap openTarget around freshSeed allowed o mappings e mode →
          ((Program.runOptions openTarget around freshSeed allowed o mappings).exitCode.toNat :
            Int) = if -c.res.toInt ≤ 255 then -c.res.toInt else 1) ∧
    (c.res = Int32.minValue →
      (e.reap mode).1 = .error (.overflow .negation) ∧
      (e.reap mode).2.pool.state? c.userData.toNat = some .free ∧
      ∀ openTarget around freshSeed allowed o mappings,
        Program.ComesToReap openTarget around freshSeed allowed o mappings e mode →
          let result := Program.runOptions openTarget around freshSeed allowed o mappings
          result.errors = ["attempt to negate with overflow"] ∧ result.exitCode = 101) := by
  obtain ⟨hreap, hfree⟩ := reap_of_negative h htaken hloaned hneg
  rcases c.refusal_cases with ⟨hne, hrefusal⟩ | ⟨hmin, hrefusal⟩
  all_goals rw [hrefusal] at hreap
  · refine ⟨fun _ => ?_, fun hmin => absurd hmin hne⟩
    refine ⟨hreap, neg_of_refused hneg hne, Int32.neg_neg, checkedNeg_neg hneg hne,
      fun failure herror => Failure.exitCode_of_refused hneg hne herror, ?_⟩
    intro openTarget around freshSeed allowed o mappings hcomes
    rw [Program.exitCode_of_reap hcomes hreap]
    exact Failure.exitCode_of_refused hneg hne rfl
  · refine ⟨fun hne => absurd hmin hne, fun _ => ⟨hreap, hfree, ?_⟩⟩
    intro openTarget around freshSeed allowed o mappings hcomes
    exact Program.broken_off_of_reap hcomes hreap

/-- A program submits one read, which the kernel refuses with an input/output error. -/
theorem reap_of_refused_by_program :
    ∃ e : Engine SimulatedKernel,
      let openTarget := fun _ =>
        .ok (({ file := .zeros 512, injected := [-5] } : SimulatedKernel), ⟨3, 512⟩)
      let o : Options := { depth := 1, file := "data", blockSize := 512 }
      Program.ComesToReap openTarget { clock := id } 0 2 o [] e .blocking ∧
        (e.takeOrWait .blocking).1 = .ok (some { userData := 0, res := -5 }) ∧
        (e.reap .blocking).1 = .error (.failed (.completionFailed 0 5)) ∧
        ((Program.runOptions openTarget { clock := id } 0 2 o).exitCode.toNat : Int) = 5 := by
  obtain ⟨e₀, hcreate⟩ : ∃ e₀ : Engine SimulatedKernel,
      create { file := .zeros 512, injected := [-5] } 1 0 { blockSize := 512 } = .ok e₀ :=
    ⟨_, rfl⟩
  obtain ⟨config, hconfig⟩ : ∃ config, Options.sessionConfig
    { depth := 1, file := "data", blockSize := 512 } = config := ⟨_, rfl⟩
  -- the run up to its second reap, which is the one that fails
  have hdeeds : e₀.deeds ⟨3, 512⟩ config (RandomBlocks.seeded 0) { clock := id } 2 =
      [.reap .blocking, .submit 1, .tick 2] ++ [.reap .blocking] := by
    cases hcreate
    cases hconfig
    decide +kernel
  obtain ⟨e, he⟩ : ∃ e, ((e₀.session config (RandomBlocks.seeded 0) { clock := id }).performAll
      ⟨3, 512⟩ [.reap .blocking, .submit 1, .tick 2]).engine = e := ⟨_, rfl⟩
  have hreachable : e.Reachable := he ▸ Reachable.performDeeds (.created hcreate) _ _
  have htaken : (e.takeOrWait .blocking).1 = .ok (some { userData := 0, res := -5 }) := by
    cases hcreate
    cases hconfig
    cases he
    decide +kernel
  have hloaned : e.pool.state? 0 = some .loaned := by
    cases hcreate
    cases hconfig
    cases he
    decide +kernel
  refine ⟨e, ?_⟩
  intro openTarget o
  have hcomes : Program.ComesToReap openTarget { clock := id } 0 2 o [] e .blocking := by
    cases hconfig
    exact ⟨e₀, ⟨3, 512⟩, _, [],
      Program.prepare_of_create (by decide) (by decide) rfl hcreate, hdeeds, he⟩
  obtain ⟨hreap, -, -, -, -, hexit⟩ :=
    (reap_of_refused hreachable (Prod.ext htaken rfl) hloaned (by decide)).1 (by decide)
  exact ⟨hcomes, htaken, hreap, hexit _ _ _ _ _ _ hcomes⟩

/-- The smallest number is refused without a failure: the reap ends in no error, so it has
no error number either. -/
theorem reap_of_smallest_result :
    ∃ e₀ : Engine SimulatedKernel,
      create { file := .zeros 512, injected := [Int32.minValue] } 1 7 { blockSize := 512 } =
          .ok e₀ ∧
        let e := e₀.perform (.submitReads ⟨3, 512⟩ 1 ({} : Walker))
        e.pool.state? 0 = some .loaned ∧
          (e.takeOrWait .nonBlocking).1 = .ok (some { userData := 0, res := Int32.minValue }) ∧
          Int32.minValue < 0 ∧ (e.reap .nonBlocking).1 = .error (.overflow .negation) ∧
          ∀ tag errno,
            (e.reap .nonBlocking).1 ≠ .error (.failed (.completionFailed tag errno)) := by
  obtain ⟨e₀, hcreate⟩ : ∃ e₀ : Engine SimulatedKernel,
      create { file := .zeros 512, injected := [Int32.minValue] } 1 7 { blockSize := 512 } =
        .ok e₀ :=
    ⟨_, rfl⟩
  refine ⟨e₀, hcreate, ?_⟩
  intro e
  have hreap : (e.reap .nonBlocking).1 = .error (.overflow .negation) := by
    cases hcreate
    decide +kernel
  refine ⟨?_, ?_, by decide, hreap, fun tag errno => ?_⟩
  · cases hcreate
    decide +kernel
  · cases hcreate
    decide +kernel
  · rw [hreap]
    exact nofun

end Engine

end RingRead
