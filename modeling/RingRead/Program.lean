import RingRead.CommandLine.Basic
import RingRead.Policy.RandomBlocks

/-!
# The program

What happens between the arguments and the exit status: the configuration is checked, the
target is opened, the engine is set up, and a session of random reads is run. The world is a
parameter: a function that opens a file together with the kernel that serves it, the
surroundings of the run, a seed for the case that none was asked for, and what the system
answers when memory is asked for.

With the text format the program prints the depths of the queues, a line for each interval
and the summary; with the JSON format only the summary.
-/

namespace RingRead

open CommandLine (Options OutputFormat)

namespace Program

/-- The text that answers a request for the version. -/
def versionLine : String := s!"uring-randread {version}"

/-- How the program is called. -/
def usageLine : String := "Usage: uring-randread [OPTIONS] <SQ_SIZE> <FILE>"

variable {κ : Type} [Kernel κ]

/-- Open the target and set up the engine. The configurations are checked before anything is
opened. What fails here fails before the first read. -/
def prepare (openTarget : String → Except SystemError (κ × ReadTarget)) (o : Options)
    (mappings : MappingAnswers := []) : Except Failure (Engine κ × ReadTarget) :=
  match o.sessionConfig.fault? with
  | some fault => .error (.ofMessage fault.message)
  | none =>
    match o.poolConfig.fault? with
    | some fault =>
      .error ((Failure.ofError (.invalidConfig fault.message)).within "invalid --block-size")
    | none =>
      match openTarget o.file with
      | .error e => .error ((Failure.ofError (.target e)).within s!"opening {o.file}")
      | .ok (kernel, target) =>
        match Engine.create kernel o.depth 0 o.poolConfig mappings with
        | .error e => .error ((Failure.ofError e).within "initializing io_uring")
        | .ok engine => .ok (engine, target)

/-- The lines printed before the first read: the depth that was asked for, and those that
the kernel has made of it. -/
def openingLines (o : Options) (e : Engine κ) : List String :=
  match o.format with
  | .json => []
  | .text =>
    [s!"init_ring: sq_size={o.depth}", s!"SQ: {e.ring.params.sqEntries} entries",
      s!"CQ: {e.ring.params.cqEntries} entries"]

/-- The lines printed for a report on an interval. -/
def reportLines (o : Options) (r : IntervalReport) : List String :=
  match o.format with
  | .json => []
  | .text => [r.text]

/-- The lines printed for the summary. -/
def summaryLines (o : Options) (s : RunSummary) : List String :=
  match o.format with
  | .json => s.prettyLines
  | .text => s.lines

/-- The name of a phase in the log. -/
def phaseName : Phase → String
  | .setup => "Setup"
  | .protocol => "Protocol"
  | .resource => "Resource"

/-- The lines that report a failure: a line of the log if an engine error is behind it, and
the report. -/
def failureLines (failure : Failure) : List String :=
  let log := match failure.engineError? with
    | none => []
    | some e =>
      let phase := phaseName e.phase
      let errno := e.errnoValue.toInt
      [s!"ERROR uring_randread: benchmark aborted class={phase} errno={errno}"]
  log ++ ("Error: " ++ failure.report).splitOn "\n"

end Program

/-- What a program leaves behind: what it printed on its two channels, and its exit
status. -/
structure ProgramResult where
  output : List String := []
  errors : List String := []
  exitCode : UInt8 := 0
deriving DecidableEq, Repr

namespace ProgramResult

/-- What a program leaves behind that has failed: nothing more on the one channel, and the
failure on the other. -/
def ofFailure (failure : Failure) : ProgramResult where
  errors := Program.failureLines failure
  exitCode := failure.exitCode

/-- What a program leaves behind at the end of its run, beside what it has printed before.
The status of a run that has overflowed is that of a program that was broken off; where in
the program that was is not shown here. -/
def ofOutcome (o : Options) (seed : UInt64) : RunOutcome → ProgramResult
  | .unfinished => {}
  | .failed failure => ofFailure failure
  | .overflowed operation => { errors := [operation.message], exitCode := 101 }
  | .finished summary => { output := Program.summaryLines o { summary with seed := some seed } }

end ProgramResult

namespace Program

variable {κ : Type} [Kernel κ]

/-- Run the benchmark for given options, in at most `allowed` rounds; a run that is not
finished by then has printed what it has printed. -/
def runOptions (openTarget : String → Except SystemError (κ × ReadTarget))
    (around : Surroundings RandomBlocks) (freshSeed : UInt64) (allowed : Nat) (o : Options)
    (mappings : MappingAnswers := []) : ProgramResult :=
  match prepare openTarget o mappings with
  | .error failure => .ofFailure failure
  | .ok (engine, target) =>
    let policy := RandomBlocks.seeded (o.seed.getD freshSeed)
    let run := engine.run target o.sessionConfig policy around allowed
    let result := ProgramResult.ofOutcome o policy.seed run.outcome
    { result with
      output := openingLines o engine ++ run.reports.flatMap (reportLines o) ++ result.output }

end Program

end RingRead
