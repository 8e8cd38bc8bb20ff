import RingRead.CommandLine.Number
import RingRead.Pool.Config
import RingRead.Session

/-!
# The command line

The program takes a depth and a file, and options in a short and a long form. Arguments are
read from left to right and the first fault ends the reading.

**A value is checked late.** The value of an option that stands in an argument of its own,
and that of a positional argument, waits until the next option or positional begins, or the
arguments end. Only then is it parsed, and a fault in it reported; an argument that is not
understood at all is reported at once, before a value that is still waiting.
-/

namespace RingRead.CommandLine

/-- How a summary is printed. -/
inductive OutputFormat where
  /-- Lines for a reader. -/
  | text
  /-- A JSON object; nothing else is printed. -/
  | json
deriving DecidableEq, Repr

/-- What was asked for on the command line, with the values of what was not asked for filled
in. -/
structure Options where
  depth : UInt32
  file : String
  blockSize : Nat := 4096
  /-- Seconds. -/
  duration : Option Nat := none
  reads : Option Nat := none
  /-- Milliseconds. -/
  interval : Nat := 1000
  seed : Option UInt64 := none
  format : OutputFormat := .text
deriving DecidableEq, Repr

namespace Options

/-- The configuration of the session. -/
def sessionConfig (o : Options) : SessionConfig where
  queueDepth := o.depth
  duration := o.duration.map (· * nanosPerSecond)
  maxReads := o.reads
  interval := o.interval * 1000000

/-- The configuration of the pool. -/
def poolConfig (o : Options) : PoolConfig := { blockSize := o.blockSize }

end Options

/-- Why arguments do not lead to a run. Help and version are among the reasons, although
they are no faults. -/
inductive Refusal where
  /-- A value cannot be parsed, or is out of range. -/
  | valueValidation
  /-- A value is missing, empty, or not one of those possible. -/
  | invalidValue
  | unknownArgument
  | missingRequiredArgument
  /-- An option was given twice. -/
  | argumentConflict
  /-- A value was given to an option that takes none. -/
  | tooManyValues
  /-- Help was asked for. -/
  | displayHelp
  /-- The version was asked for. -/
  | displayVersion
deriving DecidableEq, Repr

/-- The exit status of a refusal. Who asks for help or the version gets it, and that is a
success. -/
def Refusal.exitCode : Refusal → UInt8
  | displayHelp | displayVersion => 0
  | _ => 2

/-! ## Arguments

The arguments that there are, and how they are written. Two of them are given by their
places, and the others by a letter or a word. -/

/-- An argument that takes a value. -/
inductive Argument where
  | depth
  | file
  | blockSize
  | duration
  | reads
  | interval
  | seed
  | format
deriving DecidableEq, Repr

/-- What an option stands for. -/
inductive OptionMeaning where
  | valued (argument : Argument)
  | help
  | version
deriving DecidableEq, Repr

/-- The meaning of a one-letter option. -/
def shortOption? : Char → Option OptionMeaning
  | 'b' => some (.valued .blockSize)
  | 'd' => some (.valued .duration)
  | 'n' => some (.valued .reads)
  | 'i' => some (.valued .interval)
  | 'f' => some (.valued .format)
  | 'h' => some .help
  | 'V' => some .version
  | _ => none

/-- The meaning of a long option. -/
def longOption? : String → Option OptionMeaning
  | "block-size" => some (.valued .blockSize)
  | "duration" => some (.valued .duration)
  | "reads" => some (.valued .reads)
  | "interval" => some (.valued .interval)
  | "seed" => some (.valued .seed)
  | "format" => some (.valued .format)
  | "help" => some .help
  | "version" => some .version
  | _ => none

/-- What has been read so far. An argument that was not given yet is missing here, and so
can be told from one that was given its default. -/
structure Draft where
  depth : Option UInt32 := none
  file : Option String := none
  blockSize : Option Nat := none
  duration : Option Nat := none
  reads : Option Nat := none
  interval : Option Nat := none
  seed : Option Nat := none
  format : Option OutputFormat := none
deriving DecidableEq, Repr

namespace Draft

/-- Was this argument read already? -/
def has (d : Draft) : Argument → Bool
  | .depth => d.depth.isSome
  | .file => d.file.isSome
  | .blockSize => d.blockSize.isSome
  | .duration => d.duration.isSome
  | .reads => d.reads.isSome
  | .interval => d.interval.isSome
  | .seed => d.seed.isSome
  | .format => d.format.isSome

/-- The largest 64-bit number. -/
def largest : Nat := UInt64.size - 1

/-- Parse a value and put it into the draft. The depth is limited here, and the other
numbers are checked when the configurations are made. -/
def set (d : Draft) (argument : Argument) (value : String) : Except Refusal Draft :=
  let number := match number? largest value with
    | some n => .ok n
    | none => .error Refusal.valueValidation
  match argument with
  | .depth => do
    let n ← number
    if n = 0 ∨ maxEntries.toNat < n then throw .valueValidation
    return { d with depth := some (UInt32.ofNat n) }
  | .file => if value = "" then throw .invalidValue else return { d with file := some value }
  | .blockSize => do return { d with blockSize := some (← number) }
  | .duration => do return { d with duration := some (← number) }
  | .reads => do return { d with reads := some (← number) }
  | .interval => do return { d with interval := some (← number) }
  | .seed => do return { d with seed := some (← number) }
  | .format =>
    match value with
    | "text" => return { d with format := some .text }
    | "json" => return { d with format := some .json }
    | _ => throw .invalidValue

/-- Take a value for an argument: it has to be there, and the argument must not have been
given before. -/
def take (d : Draft) (argument : Argument) (value : Option String) : Except Refusal Draft :=
  match value with
  | none => .error .invalidValue
  | some value => if d.has argument then .error .argumentConflict else d.set argument value

/-- The options of a complete draft: depth and file have to be there, and all else has a
default. -/
def complete (d : Draft) : Except Refusal Options :=
  match d.depth, d.file with
  | some depth, some file =>
    .ok
      { depth, file
        blockSize := d.blockSize.getD 4096
        duration := d.duration
        reads := d.reads
        interval := d.interval.getD 1000
        seed := d.seed.map UInt64.ofNat
        format := d.format.getD .text }
  | _, _ => .error .missingRequiredArgument

end Draft

/-! ## Reading arguments

One argument after the other is read, and what was read is put down in a draft. The order in
which faults are reported is part of what the program does, so it is kept. -/

/-- An argument whose value was not parsed yet, and that value, if it was seen. -/
structure Waiting where
  argument : Argument
  value : Option String
deriving DecidableEq, Repr

/-- The state of the reading: the draft, what is waiting, the positional arguments that are
still to come, and whether options have ended. -/
structure Reading where
  draft : Draft := {}
  waiting : Option Waiting := none
  positionals : List Argument := [.depth, .file]
  optionsEnded : Bool := false
deriving DecidableEq, Repr

namespace Reading

/-- Parse the value that is waiting. An option that has none by now has a fault. -/
def settle (r : Reading) : Except Refusal Reading :=
  match r.waiting with
  | none => .ok r
  | some w => do
    let draft ← r.draft.take w.argument w.value
    return { r with draft, waiting := none }

/-- Begin an option: with a value attached to it, or to wait for one. -/
def beginOption (r : Reading) (argument : Argument) (attached : Option String) :
    Except Refusal Reading := do
  let r ← r.settle
  match attached with
  | none => return { r with waiting := some ⟨argument, none⟩ }
  | some value =>
    let draft ← r.draft.take argument (some value)
    return { r with draft }

/-- Take an argument as a positional one. -/
def positional (r : Reading) (text : String) : Except Refusal Reading :=
  match r.positionals with
  | [] => .error .unknownArgument
  | argument :: positionals => do
    let r ← r.settle
    return { r with waiting := some ⟨argument, some text⟩, positionals }

/-- Take an argument as a value: of the option that waits for one, or as a positional. -/
def value (r : Reading) (text : String) : Except Refusal Reading :=
  match r.waiting with
  | some ⟨argument, none⟩ => .ok { r with waiting := some ⟨argument, some text⟩ }
  | _ => r.positional text

/-- An option that takes no value ends the reading, after the value that is waiting. -/
def display (r : Reading) (refusal : Refusal) : Except Refusal Reading := do
  let _ ← r.settle
  throw refusal

/-- Read a long option; a value may be attached after an equals sign. -/
def long (r : Reading) (body : List Char) : Except Refusal Reading :=
  let name := body.takeWhile (· ≠ '=')
  let attached := match body.dropWhile (· ≠ '=') with
    | [] => none
    | _ :: value => some (String.ofList value)
  match longOption? (String.ofList name), attached with
  | none, _ => .error .unknownArgument
  | some (.valued argument), attached => r.beginOption argument attached
  | some _, some _ => .error .tooManyValues
  | some .help, none => r.display .displayHelp
  | some .version, none => r.display .displayVersion

/-- Read one-letter options: the first that takes a value takes what follows it in the
argument, without an equals sign in front. -/
def short (r : Reading) (letter : Char) (rest : List Char) : Except Refusal Reading :=
  match shortOption? letter with
  | none => .error .unknownArgument
  | some .help => r.display .displayHelp
  | some .version => r.display .displayVersion
  | some (.valued argument) =>
    match rest with
    | [] => r.beginOption argument none
    | '=' :: value => r.beginOption argument (some (String.ofList value))
    | value => r.beginOption argument (some (String.ofList value))

/-- Read one argument. Two dashes end the options; a single dash is a value. -/
def step (r : Reading) (text : String) : Except Refusal Reading :=
  if r.optionsEnded then r.positional text
  else
    match text.toList with
    | ['-', '-'] => .ok { r with optionsEnded := true }
    | '-' :: '-' :: body => r.long body
    | '-' :: letter :: rest => r.short letter rest
    | _ => r.value text

/-- Read all arguments. -/
def run (r : Reading) : List String → Except Refusal Reading
  | [] => r.settle
  | text :: rest => do (← r.step text).run rest

end Reading

/-- The options that arguments stand for. The first fault is the answer if there is one. -/
def parse (args : List String) : Except Refusal Options := do
  let r ← Reading.run {} args
  r.draft.complete

end RingRead.CommandLine
