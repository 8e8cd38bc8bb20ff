import RingRead.Program
import RingRead.Proofs.Session.Failing
import RingRead.Proofs.Session.Occupancy

/-!
# The exit status of a failed run

A failure is a chain of causes, outermost first: contexts, then an engine error, which may
have a system error behind it, or a plain message. Any chain of causes without an engine
error has this form too, since its last cause may be taken for the message.

* **The engine error.** It is the first one along the chain
  (`Failure.engineError?_eq_findSome?`), and no context hides it
  (`Failure.engineError?_foldl_within`).
* **Its number.** `Error.neg_errnoValue` says of every engine error that the number which
  the system gave comes out as it went in, and that an error without one has one of four
  numbers. Negation wraps, but it is done twice, so this holds for the smallest number as
  well.
* **The status.** `Failure.exitCode_of_isStatus` and `Failure.exitCode_of_not_isStatus` are
  the two ways that it comes about. A program that fails has the status of its failure, and
  one that a number breaks off by overflowing has a status of its own
  (`Program.reports_runOptions`). Neither exits with success, and every other program does
  (`Program.exitCode_eq_zero_iff`).
* **Overflows.** A session overflows in a subtraction if it begins with too many reads in
  flight. The session of a program begins on a new ring, where there are none, so it never
  does (`Program.abort?_ne_subtraction`).
-/

namespace RingRead

open CommandLine (Options)

/-! ## Numbers of errors

An engine error has a number, and keeps it as a negative one. Some have it from the system,
and the others have one of four that say roughly what has gone wrong. -/

namespace Error

/-- The number that the system gave for an error, if it gave one. -/
def given? : Error → Option Int32
  | completionFailed _ errno => some errno
  | error => error.source?.bind SystemError.errno?

/-- The number that an error is reported under is the one that the system gave for it.
Without one it is that of an invalid argument, an input/output error, lack of memory or a
protocol error. -/
theorem neg_errnoValue (error : Error) :
    (∀ errno, error.given? = some errno → -error.errnoValue = errno) ∧
      (error.given? = none → -error.errnoValue ∈
        [SystemError.einval, SystemError.eio, SystemError.enomem, SystemError.eproto]) := by
  cases error with
  | setup source | target source | enter source | alloc source | mmap _ source =>
    cases source <;> simp [given?, source?, SystemError.errno?, errnoValue]
  | _ => simp [given?, source?, errnoValue]

/-- The number of an error can be the status of a program that fails. -/
def IsStatus (error : Error) : Prop :=
  1 ≤ (-error.errnoValue).toInt ∧ (-error.errnoValue).toInt ≤ 255

end Error

/-! ## Chains

A failure is printed as a chain of texts, and its status is taken from the errors along it.
Both are read off one list of causes, so that what is printed and what is returned cannot
come from different failures. -/

/-- A cause in the chain of a failure: a context that was put in front, an engine error, the
system error behind it, or a plain message. -/
inductive Cause where
  | context (text : String)
  | engine (error : Error)
  | system (error : SystemError)
  | message (text : String)

namespace Cause

/-- The text of a cause. -/
def text : Cause → String
  | context text | message text => text
  | engine error => error.message
  | system error => error.message

/-- The engine error that a cause is, if it is one. A system error is none, although it may
stand behind one. -/
def engineError? : Cause → Option Error
  | engine error => some error
  | context _ | system _ | message _ => none

end Cause

namespace Failure

variable {failure : Failure} {error : Error}

/-- The causes of a root, outermost first. -/
def Root.causes : Root → List Cause
  | .engine error => .engine error :: error.source?.toList.map .system
  | .message text => [.message text]

/-- The causes of a failure, outermost first. -/
def causes (failure : Failure) : List Cause :=
  failure.contexts.map .context ++ failure.root.causes

/-- The chain that is printed has the texts of the causes. -/
theorem map_text_causes (failure : Failure) : failure.causes.map Cause.text = failure.chain := by
  obtain ⟨contexts, error | text⟩ := failure
  · simp [causes, Root.causes, chain, Root.messages, Cause.text, Function.comp_def]
  · simp [causes, Root.causes, chain, Root.messages, Cause.text, Function.comp_def]

/-- The engine error of a failure is the first one along its causes. -/
theorem engineError?_eq_findSome? (failure : Failure) :
    failure.engineError? = failure.causes.findSome? Cause.engineError? := by
  have hcontexts : (failure.contexts.map Cause.context).findSome? Cause.engineError? = none := by
    simp [Cause.engineError?]
  rw [causes, List.findSome?_append, hcontexts, Option.none_or, engineError?]
  cases failure.root with
  | engine error => rfl
  | message text => rfl

/-- Contexts that are put in front one after the other stand there in reverse. -/
theorem foldl_within (contexts : List String) (failure : Failure) :
    contexts.foldl within failure =
      { failure with contexts := contexts.reverse ++ failure.contexts } := by
  induction contexts generalizing failure with
  | nil => rfl
  | cons context rest ih =>
    rw [List.foldl_cons, ih, List.reverse_cons, List.append_assoc]
    rfl

/-- No context hides the engine error. -/
theorem engineError?_foldl_within (contexts : List String) (failure : Failure) :
    (contexts.foldl within failure).engineError? = failure.engineError? := by
  rw [foldl_within]
  rfl

/-! ## The status

A status is one byte, and zero means success. So a number is a status if it lies between 1
and 255, and all others come down to 1. -/

/-- The status is the number of the engine error if that can be one. -/
theorem exitCode_of_isStatus (herror : failure.engineError? = some error)
    (hstatus : error.IsStatus) : (failure.exitCode.toNat : Int) = (-error.errnoValue).toInt := by
  obtain ⟨hpos, hle⟩ := hstatus
  have hinside : 0 < (-error.errnoValue).toInt ∧ (-error.errnoValue).toInt < 256 := by omega
  have hnat : (-error.errnoValue).toInt.toNat < UInt8.size :=
    (Int.toNat_lt (by omega)).mpr hinside.2
  simp only [exitCode, herror, if_pos hinside]
  rw [UInt8.toNat_ofNat_of_lt' hnat, Int.toNat_of_nonneg (by omega)]

/-- Without an engine error whose number can be the status, it is 1. -/
theorem exitCode_of_not_isStatus
    (h : ∀ error, failure.engineError? = some error → ¬error.IsStatus) : failure.exitCode = 1 := by
  rw [exitCode]
  cases herror : failure.engineError? with
  | none => rfl
  | some error =>
    have hnot := h error herror
    exact if_neg fun hinside => hnot ⟨hinside.1, by omega⟩

/-- Whatever a failure comes from, its status is not that of success. -/
theorem exitCode_ne_zero (failure : Failure) : failure.exitCode ≠ 0 := by
  intro hzero
  by_cases h : ∃ error, failure.engineError? = some error ∧ error.IsStatus
  · obtain ⟨error, herror, hstatus⟩ := h
    have hcode := exitCode_of_isStatus herror hstatus
    rw [hzero, UInt8.toNat_zero] at hcode
    exact absurd hstatus.1 (by omega)
  · have hone : failure.exitCode = 1 :=
      exitCode_of_not_isStatus fun error herror hstatus => h ⟨error, herror, hstatus⟩
    rw [hone] at hzero
    cases hzero

/-- A number that the system gave is the status if it lies between 1 and 255. Otherwise the
status is 1, so for zero, for every negative number and for every larger one. -/
theorem exitCode_of_given {errno : Int32} (herror : failure.engineError? = some error)
    (hgiven : error.given? = some errno) :
    (failure.exitCode.toNat : Int) =
      if 1 ≤ errno.toInt ∧ errno.toInt ≤ 255 then errno.toInt else 1 := by
  have hnumber : -error.errnoValue = errno := error.neg_errnoValue.1 errno hgiven
  split
  case isTrue hinside =>
    rw [← hnumber] at hinside ⊢
    exact exitCode_of_isStatus herror hinside
  case isFalse houtside =>
    have hone : failure.exitCode = 1 := by
      refine exitCode_of_not_isStatus fun error' herror' hstatus => houtside ?_
      obtain rfl : error = error' := Option.some.inj (herror.symm.trans herror')
      rw [← hnumber]
      exact hstatus
    rw [hone]
    rfl

end Failure

/-! ## Programs

A program can break off in two ways. It fails, before its run or in it, and then the failure
says with which status; or a number overflows in its run, and then the status says no more
than that.
-/

namespace Program

variable {κ : Type} [Kernel κ]
  (openTarget : String → Except SystemError (κ × ReadTarget)) (around : Surroundings RandomBlocks)
  (freshSeed : UInt64) (allowed : Nat) (o : Options) (mappings : MappingAnswers)

/-- How a program breaks off, if it does. What goes wrong before its run is a failure; the
run itself can also overflow. -/
def abort? : Option (Abort Failure) :=
  match prepare openTarget o mappings with
  | .error failure => some (.failed failure)
  | .ok (engine, target) =>
    (engine.run target o.sessionConfig (RandomBlocks.seeded (o.seed.getD freshSeed)) around
      allowed).outcome.abort?

/-- The engine of a program is one that was just made. -/
theorem create_of_prepare {engine : Engine κ} {target : ReadTarget}
    (h : prepare openTarget o mappings = .ok (engine, target)) :
    ∃ kernel, Engine.create kernel o.depth 0 o.poolConfig mappings = .ok engine := by
  rw [prepare] at h
  split at h
  · cases h
  · split at h
    · cases h
    · split at h
      · cases h
      · next kernel target' hopen =>
        rcases hcreate : Engine.create kernel o.depth 0 o.poolConfig mappings with err | engine'
        · rw [hcreate] at h
          cases h
        · rw [hcreate] at h
          cases h
          exact ⟨kernel, hcreate⟩

/-- **A program never overflows in the subtraction.** Nothing is in flight when its run
begins, and no round of a run brings more than the depth in flight. -/
theorem abort?_ne_subtraction :
    abort? openTarget around freshSeed allowed o mappings ≠ some (.overflow .subtraction) := by
  rw [abort?]
  rcases hprepare : prepare openTarget o mappings with failure | ⟨engine, target⟩
  · simp
  · obtain ⟨kernel, hcreate⟩ := create_of_prepare openTarget o mappings hprepare
    obtain ⟨hbalanced, -⟩ := Engine.balanced_create hcreate
    have hidle : engine.inFlight ≤ Session.depth o.sessionConfig engine := by
      rw [Engine.inFlight_create hcreate]
      exact UInt32.zero_le
    exact fun habort =>
      Engine.run_ne_subtraction hbalanced hidle (RunOutcome.abort?_eq_some.mp habort)

/-- A program that fails reports its failure and has the status of it. One that overflows
reports the operation that did, and all others report nothing and have the status of
success. -/
theorem reports_runOptions :
    let result := runOptions openTarget around freshSeed allowed o mappings
    match abort? openTarget around freshSeed allowed o mappings with
    | some (.failed failure) =>
      result.errors = failureLines failure ∧ result.exitCode = failure.exitCode
    | some (.overflow operation) =>
      result.errors = [operation.message] ∧ result.exitCode = 101
    | none => result.errors = [] ∧ result.exitCode = 0 := by
  rw [runOptions, abort?]
  rcases prepare openTarget o mappings with failure | ⟨engine, target⟩
  · exact ⟨rfl, rfl⟩
  · dsimp only
    cases (engine.run target o.sessionConfig (RandomBlocks.seeded (o.seed.getD freshSeed)) around
      allowed).outcome with
    | finished summary => exact ⟨rfl, rfl⟩
    | failed failure => exact ⟨rfl, rfl⟩
    | overflowed operation => exact ⟨rfl, rfl⟩
    | unfinished => exact ⟨rfl, rfl⟩

/-- A program exits with success just if it does not break off. -/
theorem exitCode_eq_zero_iff :
    (runOptions openTarget around freshSeed allowed o mappings).exitCode = 0 ↔
      abort? openTarget around freshSeed allowed o mappings = none := by
  have hreports := reports_runOptions openTarget around freshSeed allowed o mappings
  dsimp only at hreports
  rcases habort : abort? openTarget around freshSeed allowed o mappings
    with _ | failure | operation
  · rw [habort] at hreports
    exact iff_of_true hreports.2 rfl
  · rw [habort] at hreports
    rw [hreports.2]
    exact iff_of_false failure.exitCode_ne_zero nofun
  · rw [habort] at hreports
    rw [hreports.2]
    exact iff_of_false (by decide) nofun

end Program

/-- **A failed run never exits with success.** For every failure, with any contexts around
any engine error or message,

* the status lies between 1 and 255, and every program that ends in this failure has it;
* it is the number of the first engine error along the causes if that lies there too, and 1
  in every other case;
* it is the number that the system gave for that engine error, if it gave one and this lies
  there, and 1 if it gave another;
* contexts that are put in front change neither the engine error nor the status.
-/
theorem Failure.exitCode_of_causes (failure : Failure) :
    let outermost := failure.causes.findSome? Cause.engineError?
    (1 ≤ failure.exitCode.toNat ∧ failure.exitCode.toNat ≤ 255) ∧
    (∀ error, outermost = some error → error.IsStatus →
      (failure.exitCode.toNat : Int) = (-error.errnoValue).toInt) ∧
    ((∀ error, outermost = some error → ¬error.IsStatus) → failure.exitCode = 1) ∧
    (∀ error errno, outermost = some error → error.given? = some errno →
      (failure.exitCode.toNat : Int) =
        if 1 ≤ errno.toInt ∧ errno.toInt ≤ 255 then errno.toInt else 1) ∧
    (∀ contexts : List String,
      let wrapped := contexts.foldl within failure
      wrapped.causes.findSome? Cause.engineError? = outermost ∧
        wrapped.engineError? = failure.engineError? ∧ wrapped.exitCode = failure.exitCode) ∧
    ∀ {κ : Type} [Kernel κ] (openTarget : String → Except SystemError (κ × ReadTarget)) around
      freshSeed allowed o mappings,
      Program.abort? openTarget around freshSeed allowed o mappings = some (.failed failure) →
        (Program.runOptions openTarget around freshSeed allowed o mappings).exitCode =
          failure.exitCode := by
  intro outermost
  have houtermost : failure.engineError? = outermost := failure.engineError?_eq_findSome?
  refine ⟨⟨?_, Nat.le_of_lt_succ failure.exitCode.toNat_lt⟩, ?_, ?_, ?_, fun contexts => ?_, ?_⟩
  · exact Nat.pos_of_ne_zero fun hzero =>
      failure.exitCode_ne_zero (UInt8.toNat_inj.mp hzero)
  · intro error herror hstatus
    exact exitCode_of_isStatus (houtermost.trans herror) hstatus
  · intro h
    exact exitCode_of_not_isStatus fun error herror => h error (houtermost.symm.trans herror)
  · intro error errno herror hgiven
    exact exitCode_of_given (houtermost.trans herror) hgiven
  · have hsame := engineError?_foldl_within contexts failure
    refine ⟨?_, hsame, ?_⟩
    · rw [← engineError?_eq_findSome?, hsame, houtermost]
    · rw [exitCode, exitCode, hsame]
  · intro κ _ openTarget around freshSeed allowed o mappings hfailure
    have hreports := Program.reports_runOptions openTarget around freshSeed allowed o mappings
    rw [hfailure] at hreports
    exact hreports.2

end RingRead
