import RingRead.HostPath
import RingRead.Program
import RingRead.Simulation.Basic

/-!
# The command line program

The outer layer: it reads the target from disk into a simulated kernel, reads the clock, and
prints. Everything it prints is decided by `RingRead.Program`.
-/

namespace RingRead.Main

open CommandLine (Options Refusal)

/-- The failure of this error number, which some file operations report with its sign
turned. -/
def numbered (code : UInt32) : SystemError :=
  let errno := Int32.ofNat code.toNat
  .os (if errno < 0 then -errno else errno)

/-- The failure of a file operation, with its error number. -/
def systemError : IO.Error → SystemError
  | .noFileOrDirectory _ code _ | .alreadyExists _ code _ | .permissionDenied _ code _
  | .resourceExhausted _ code _ | .inappropriateType _ code _ | .invalidArgument _ code _
  | .interrupted _ code _ => numbered code
  | .otherError code _ | .resourceBusy code _ | .resourceVanished code _
  | .unsupportedOperation code _ | .hardwareFault code _ | .unsatisfiedConstraints code _
  | .illegalOperation code _ | .protocolError code _ | .timeExpired code _
  | .noSuchThing _ code _ => numbered code
  | e => .other (toString e)

/-- Open a file as a target that a simulated kernel serves. -/
def openTarget (path : String) : IO (Except SystemError (SimulatedKernel × ReadTarget)) := do
  if path.contains '\x00' then return .error (HostPath.refusal path)
  try
    let file := Bytes.ofByteArray (← IO.FS.readBinFile path)
    let kernel : SimulatedKernel := { file }
    return .ok (kernel, kernel.target)
  catch e => return .error (systemError e)

/-- Rounds of a session under the real clock, printing reports as they come. -/
partial def rounds (o : Options) (target : ReadTarget) (depth : UInt32)
    (s : Session SimulatedKernel RandomBlocks) : IO RunOutcome := do
  match s.round target o.sessionConfig depth (← IO.monoNanosNow) false with
  | .aborts abort _ => return .ofAbort abort
  | .stops reason s => return .finished (s.summary depth (← IO.monoNanosNow) reason)
  | .goesOn s =>
    let (report, s) := s.tick (← IO.monoNanosNow)
    for line in report.toList.flatMap (Program.reportLines o) do IO.println line
    rounds o target depth s

/-- Print what is left to print when a run has ended; the result is the exit status. -/
def close (result : ProgramResult) : IO UInt32 := do
  for line in result.output do IO.println line
  for line in result.errors do IO.eprintln line
  return result.exitCode.toUInt32

/-- Run the benchmark for given options. -/
def runOptions (o : Options) : IO UInt32 := do
  let opened ← openTarget o.file
  match Program.prepare (fun _ => opened) o with
  | .error failure => close (.ofFailure failure)
  | .ok (engine, target) =>
    for line in Program.openingLines o engine do IO.println line
    let seed ← match o.seed with
      | some seed => pure seed
      | none => pure (UInt64.ofNat (← IO.rand 0 (UInt64.size - 1)))
    let policy := RandomBlocks.seeded seed
    let meter :=
      Meter.startingAt engine.blockSize o.sessionConfig.interval (← IO.monoNanosNow)
    let depth := Session.depth o.sessionConfig engine
    close (.ofOutcome o policy.seed (← rounds o target depth { engine, policy, meter }))

/-- Answer arguments that do not lead to a run. -/
def refuse (refusal : Refusal) : IO UInt32 := do
  match refusal with
  | .displayVersion => IO.println Program.versionLine
  | .displayHelp => IO.println Program.usageLine
  | _ => IO.eprintln Program.usageLine
  return refusal.exitCode.toUInt32

end RingRead.Main

def main (args : List String) : IO UInt32 :=
  match RingRead.CommandLine.parse args with
  | .error refusal => RingRead.Main.refuse refusal
  | .ok options => RingRead.Main.runOptions options
