import RingRead.Region
import RingRead.SystemError

/-!
# Errors of the read engine

Every error ends a benchmark; there is one constructor for each cause. `Error.message` is
the only place that words them, `Error.errnoValue` gives the negative error number under
which they are reported, and `Error.phase` says which part broke.

**Overflow is not an error.** A number that does not fit into its type is reported to no
caller. It ends the program where it stands, so it is an outcome beside the errors
(`Abort`), and nothing goes on with a number that has wrapped.
-/

namespace RingRead

/-- The part of the work in which an error arises. It is written to the log beside the error
number. -/
inductive Phase where
  /-- Ring creation, region mapping, invalid configuration, the target. -/
  | setup
  /-- Kernel and user side disagree, or a block was misused. -/
  | protocol
  /-- No memory for blocks. -/
  | resource
deriving DecidableEq, Repr

/-- What can go wrong in the engine. Each error carries the numbers that its text names, so
that it can be worded without the state that it arose in. -/
inductive Error where
  /-- The requested ring depth is outside 1 to 32768. -/
  | invalidCapacity (capacity : UInt32)
  /-- The pool configuration was rejected. -/
  | invalidConfig (reason : String)
  /-- The kernel refused to create the ring, or created one that cannot be used. -/
  | setup (source : SystemError)
  /-- Mapping a region failed. -/
  | mmap (region : Region) (source : SystemError)
  /-- The kernel reported a field that does not lie inside its region. -/
  | regionBounds (region : Region) (offset size length : Nat)
  /-- The target could not be opened or measured. -/
  | target (source : SystemError)
  /-- The target does not hold one whole block. -/
  | fileTooSmall (size blockSize : Nat)
  /-- Entering the kernel failed. -/
  | enter (source : SystemError)
  /-- The kernel took another number of entries than were published. -/
  | partialSubmit (requested accepted : UInt32)
  /-- A completion carried a negative result. -/
  | completionFailed (tag : UInt64) (errno : Int32)
  /-- A completion moved another number of bytes than one block. -/
  | shortRead (tag : UInt64) (expected actual : Nat)
  /-- A wait returned and the completion ring was still empty. -/
  | emptyAfterWait
  /-- The completion indices claim more entries than the ring has. -/
  | ringDesync (head tail entries : UInt32)
  /-- A completion names no block on loan. -/
  | unknownTag (tag : UInt64)
  /-- The mark of a free block was overwritten. -/
  | canaryMismatch (id : UInt32) (found expected : UInt64)
  /-- A block was given back that its token does not hold. -/
  | doubleRelease (id : UInt32)
  /-- A token was shown to a pool that did not issue it. -/
  | foreignBuffer (id : UInt32)
  /-- No memory for a new block. -/
  | alloc (source : SystemError)
  /-- Every block number is in use. -/
  | poolExhausted (blocks : Nat)
deriving DecidableEq, Repr

/-- A number in base sixteen, lower case, with the mark `0x` in front. -/
def hexText (n : Nat) : String :=
  "0x" ++ String.ofList (Nat.toDigits 16 n)

namespace Error

/-- The part of the work in which the error arises. -/
def phase : Error → Phase
  | invalidCapacity _ | invalidConfig _ | setup _ | mmap .. | regionBounds .. | target _
  | fileTooSmall .. => .setup
  | alloc _ | poolExhausted _ => .resource
  | enter _ | partialSubmit .. | completionFailed .. | shortRead .. | emptyAfterWait
  | ringDesync .. | unknownTag _ | canaryMismatch .. | doubleRelease _ | foreignBuffer _ =>
    .protocol

/-- The operating system error behind an error, if there is one. -/
def source? : Error → Option SystemError
  | setup source | mmap _ source | target source | enter source | alloc source => some source
  | _ => none

/-- The negative error number of an error. A failed read keeps the kernel's own number, and
an operating system error without a number counts as an input/output error or as lack of
memory. Negation wraps at the smallest 32-bit number. -/
def errnoValue : Error → Int32
  | invalidCapacity _ | invalidConfig _ | fileTooSmall .. => -SystemError.einval
  | setup source | target source | enter source => -source.errno?.getD SystemError.eio
  | mmap _ source | alloc source => -source.errno?.getD SystemError.enomem
  | poolExhausted _ => -SystemError.enomem
  | completionFailed _ errno => -errno
  | regionBounds .. | partialSubmit .. | shortRead .. | emptyAfterWait | ringDesync ..
  | unknownTag _ | canaryMismatch .. | doubleRelease _ | foreignBuffer _ => -SystemError.eproto

/-- The text of an error, in one line. -/
def message : Error → String
  | invalidCapacity capacity =>
    s!"invalid ring capacity {capacity}: must be between 1 and 32768"
  | invalidConfig reason => s!"invalid pool config: {reason}"
  | setup source => s!"io_uring_setup failed: {source.message}"
  | mmap region source => s!"failed to mmap {region.description}: {source.message}"
  | regionBounds region offset size length =>
    s!"{region.description} field at {offset}+{size} exceeds mapped length {length}"
  | target source => s!"cannot open read target: {source.message}"
  | fileTooSmall size blockSize =>
    s!"file of {size} bytes is smaller than one {blockSize}-byte block"
  | enter source => s!"io_uring_enter failed: {source.message}"
  | partialSubmit requested accepted =>
    s!"partial submit: published {requested}, kernel accepted {accepted}"
  | completionFailed tag errno =>
    s!"read for tag {tag} failed: {(SystemError.os errno).message}"
  | shortRead tag expected actual =>
    s!"short read for tag {tag}: expected {expected} bytes, got {actual}"
  | emptyAfterWait => "completion ring empty after waiting for a completion"
  | ringDesync head tail entries =>
    s!"completion ring desync: head {head}, tail {tail}, size {entries}"
  | unknownTag tag => s!"completion tag {tag} does not match any in-flight buffer"
  | canaryMismatch id found expected =>
    s!"buffer {id} canary overwritten: {hexText found.toNat}, expected {hexText expected.toNat}"
  | doubleRelease id => s!"buffer {id} released while not held"
  | foreignBuffer id => s!"buffer {id} does not belong to this pool"
  | alloc source => s!"buffer allocation failed: {source.message}"
  | poolExhausted blocks => s!"buffer pool exhausted at {blocks} blocks"

end Error

/-! ## Overflow

Arithmetic on machine words is checked. Where the checks can fail, the two functions below
stand for the operation, and their caller has to say what becomes of the failure.
-/

/-- An operation on numbers whose result does not fit into their type. These are the two
that the library can be brought to. -/
inductive Overflow where
  /-- The smallest signed number has no negative. -/
  | negation
  /-- An unsigned number is not to go below zero. -/
  | subtraction
deriving DecidableEq, Repr

/-- The text under which the program stops. -/
def Overflow.message : Overflow → String
  | negation => "attempt to negate with overflow"
  | subtraction => "attempt to subtract with overflow"

/-- The negative of a number, which all numbers have but the smallest. -/
def checkedNeg (x : Int32) : Except Overflow Int32 :=
  if x = Int32.minValue then .error .negation else .ok (-x)

/-- The difference of two numbers, if the second one is not larger than the first. -/
def checkedSub (x y : UInt32) : Except Overflow UInt32 :=
  if x < y then .error .subtraction else .ok (x - y)

/-- Why a call has come to no result: it reports an error, after which its caller may go on,
or a number has overflowed, after which nothing does. -/
inductive Abort (ε : Type) where
  | failed (error : ε)
  | overflow (operation : Overflow)
deriving DecidableEq, Repr

/-- Change the error that is reported; an overflow stays what it is, since nobody reports
it. -/
def Abort.map {ε ε' : Type} (change : ε → ε') : Abort ε → Abort ε'
  | failed error => .failed (change error)
  | overflow operation => .overflow operation

end RingRead
