import RingRead.Ring.Basic

/-!
# The read engine

An engine is a ring together with the pool that feeds it. Reads are submitted in batches and
completions are taken one at a time; `RingRead.Engine.Submit` and `RingRead.Engine.Reap`
hold the two sides.

Every operation returns its result beside the engine that it leaves behind, also when it
fails: a caller may go on after an error, and what the failed call did stays visible.
-/

namespace RingRead

/-- A ring and the pool of blocks that its reads go into. Which blocks are on loan the pool
knows, and how many reads are in flight the ring. -/
structure Engine (κ : Type) where
  ring : Ring κ
  pool : Pool

namespace Engine

variable {κ : Type} [Kernel κ]

/-- An engine on a kernel. The pool configuration is checked first, then the ring is
created. What the system will answer to mappings of blocks is handed on to the pool. -/
def create (kernel : κ) (capacity serial : UInt32) (config : PoolConfig)
    (mappings : MappingAnswers := []) : Except Error (Engine κ) := do
  let pool ← Pool.create serial config mappings
  let ring ← Ring.create kernel capacity
  return { ring, pool }

/-- The negotiated depth, which may be more than was asked for. -/
def capacity (e : Engine κ) : UInt32 := e.ring.capacity

/-- The reads that were submitted and not reaped, as the ring counts them. -/
def inFlight (e : Engine κ) : UInt32 := e.ring.inFlight

/-- The bytes of one read. -/
def blockSize (e : Engine κ) : Nat := e.pool.blockSize

/-- The contents of a completed read, for whoever has its token. -/
def data (e : Engine κ) (token : Token) : Except Error Bytes := e.pool.data token

/-- Give the block of a completed read back to the pool. A token that gives no right to a
block is refused. -/
def release (e : Engine κ) (token : Token) : Except Error Unit × Engine κ :=
  let (result, pool) := e.pool.release token
  (result, { e with pool })

/-- Enter the kernel. What it delivered is in the blocks when the call comes back, whether
or not the call succeeded. -/
def enter (e : Engine κ) (toSubmit minComplete flags : UInt32) :
    Except SystemError UInt32 × Engine κ :=
  let entered := Kernel.enter e.ring.kernel toSubmit minComplete flags
  (entered.answer,
    { ring := { e.ring with kernel := entered.kernel }
      pool := e.pool.receiveAll entered.transfers })

/-- An engine as text. -/
def inspect (e : Engine κ) : String :=
  inspectRecord "Engine" [("ring", e.ring.inspect), ("pool", e.pool.inspect)]

end Engine

end RingRead
