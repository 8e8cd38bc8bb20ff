import RingRead.Entry
import RingRead.Params
import RingRead.Pool.Basic

/-!
# What a ring needs from a kernel

The ring protocol needs three calls of a kernel, to set a ring up, to map one of its regions
and to enter it, and it shares memory with the kernel. A kernel is modelled by a type of
states `κ` that holds the kernel's own state together with the shared memory.

**The kernel may act at any time.** Reading shared memory is an operation on the state that
may change it, so an instance can let the indices and entries move between any two steps of
the library, and it may answer with any word at all. What holds for every instance therefore
holds for every kernel, however it behaves.

**Data arrives by address.** The kernel never sees a block, only the address in a submission
entry; the bytes that it delivers come back from `enter` as transfers to addresses, and the
pool puts them where they belong.
-/

namespace RingRead

/-- Enter flag: wait until the asked number of completions is there. -/
def enterGetEvents : UInt32 := 1

/-- What comes back from entering the kernel: the answer to the call, the bytes that were
delivered to memory, and the kernel's next state. -/
structure Entered (κ : Type) where
  answer : Except SystemError UInt32
  transfers : List Transfer
  kernel : κ

/-- A kernel whose states, shared memory included, are of type `κ`. Offsets are in bytes
from the start of a region. -/
class Kernel (κ : Type) where
  /-- Create a ring of at least so many submission slots. -/
  setup : κ → (entries : UInt32) → Except SystemError Params × κ
  /-- Map so many bytes of the region that a selector names. -/
  map : κ → (length : Nat) → (selector : UInt64) → Except SystemError Mapping × κ
  /-- Read a shared word, with everything the kernel wrote before it visible. -/
  load : κ → Region → (offset : Nat) → UInt32 × κ
  /-- Write a shared word, with everything written before it visible to the kernel. -/
  store : κ → Region → (offset : Nat) → UInt32 → κ
  /-- Write an entry into the table of submission entries. -/
  storeEntry : κ → (offset : Nat) → Sqe → κ
  /-- Read a completion entry from the completion ring. -/
  loadEntry : κ → (offset : Nat) → Cqe × κ
  /-- Consume up to `toSubmit` published entries and, if the flags say so, wait for
  `minComplete` completions. -/
  enter : κ → (toSubmit minComplete flags : UInt32) → Entered κ
  /-- How many more waits this kernel may interrupt. -/
  patience : κ → Nat

end RingRead
