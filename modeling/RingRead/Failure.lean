import RingRead.Error

/-!
# Failed runs

A run fails with an engine error or with a plain message, and every layer it passes on its
way out may put a context in front of it. A `Failure` is that chain. It is read in three
ways: as one line, as a report with its causes below the outermost message, and as the exit
status of the program.

**The exit status never says success.** It is the magnitude of the engine error's number
when that fits into one byte and is not zero, and 1 in every other case; contexts do not
enter into it.
-/

namespace RingRead

/-- What a failure comes from, below all of its contexts. -/
inductive Failure.Root where
  /-- An error of the engine. -/
  | engine (error : Error)
  /-- A plain message. -/
  | message (text : String)
deriving DecidableEq, Repr

/-- A failed run: its root, and the contexts it was wrapped in, outermost first. -/
structure Failure where
  contexts : List String
  root : Failure.Root
deriving DecidableEq, Repr

namespace Failure

/-- A failure with a plain message. -/
def ofMessage (text : String) : Failure := ⟨[], .message text⟩

/-- A failure with an engine error as its root. -/
def ofError (error : Error) : Failure := ⟨[], .engine error⟩

/-- Put a context in front. Each layer that a failure passes says what it was doing. -/
def within (failure : Failure) (context : String) : Failure :=
  { failure with contexts := context :: failure.contexts }

/-- The messages of a root: an engine error is followed by the system error behind it. -/
def Root.messages : Root → List String
  | .engine error => error.message :: error.source?.toList.map SystemError.message
  | .message text => [text]

/-- All messages, outermost first: the contexts, and then those of the root. -/
def chain (failure : Failure) : List String :=
  failure.contexts ++ failure.root.messages

/-- The outermost message. -/
def message (failure : Failure) : String :=
  failure.chain.headD ""

/-- All messages in one line, outermost first. -/
def line (failure : Failure) : String :=
  ": ".intercalate failure.chain

/-- The engine error at the root, if there is one. -/
def engineError? (failure : Failure) : Option Error :=
  match failure.root with
  | .engine error => some error
  | .message _ => none

/-- One cause of a report. A single cause is indented by four blanks; one of several carries
its number, right-aligned in five places. Further lines of a text stand below its first
one. -/
def reportCause (number : Option Nat) (text : String) : String :=
  match number with
  | none => "    " ++ "\n    ".intercalate (text.splitOn "\n")
  | some n =>
    let digits := toString n
    let mark := String.ofList (List.replicate (5 - digits.length) ' ') ++ digits ++ ": "
    mark ++ "\n       ".intercalate (text.splitOn "\n")

/-- The outermost message and, below it, its causes. -/
def report (failure : Failure) : String :=
  match failure.chain with
  | [] => ""
  | [text] => text
  | [text, cause] => text ++ "\n\nCaused by:\n" ++ reportCause none cause
  | text :: causes =>
    text ++ "\n\nCaused by:\n" ++
      "\n".intercalate (causes.zipIdx.map fun (cause, n) => reportCause (some n) cause)

/-- The exit status of a run that failed. It is never zero. -/
def exitCode (failure : Failure) : UInt8 :=
  match failure.engineError? with
  | none => 1
  | some error =>
    let magnitude := (-error.errnoValue).toInt
    if 0 < magnitude ∧ magnitude < 256 then UInt8.ofNat magnitude.toNat else 1

end Failure

end RingRead
