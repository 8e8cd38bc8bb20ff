import RingRead.Engine.Basic
import RingRead.Policy.Basic
import RingRead.Target

/-!
# Submitting reads

A batch is staged entry by entry, made visible to the kernel with one move of the submission
tail, and handed over by entering the kernel once.

**What a failure leaves behind.** A batch that fails while it is being staged has loaned
blocks for the entries before the failure, and no one is told about them: the tail was not
published. A batch that fails on entering the kernel is published and stays so, and its
blocks stay loaned.
-/

namespace RingRead.Engine

variable {κ π : Type} [Kernel κ] [OffsetPolicy π]

/-- The read of one block: the policy's choice is reduced to a block of the target, and the
destination is a block of the pool that is now on loan. -/
def loanRead (e : Engine κ) (target : ReadTarget) (blocks : UInt64) (token : Token) (policy : π) :
    Sqe × Engine κ × π :=
  let (choice, policy) := OffsetPolicy.next policy blocks
  let ((tag, address), pool) := e.pool.loan token
  let e := { e with pool }
  let offset := choice % blocks * UInt64.ofNat e.blockSize
  (Sqe.read target.descriptor offset address (UInt32.ofNat e.blockSize) tag, e, policy)

/-- Stage `count` reads from ring position `tail` on. The result is the position after the
last. -/
def stageReads (target : ReadTarget) (blocks : UInt64) :
    (count : Nat) → (tail : UInt32) → Engine κ → π → Except Error UInt32 × Engine κ × π
  | 0, tail, e, policy => (.ok tail, e, policy)
  | count + 1, tail, e, policy =>
    match e.pool.allocate with
    | (.error err, pool) => (.error err, { e with pool }, policy)
    | (.ok token, pool) =>
      let (entry, e, policy) := loanRead { e with pool } target blocks token policy
      stageReads target blocks count (tail + 1) { e with ring := e.ring.stage tail entry } policy

/-- Publish a staged batch of `count` reads up to `tail` and hand it to the kernel. The
reads that the kernel took count as in flight; all of them have to be taken. -/
def handOver (e : Engine κ) (count tail : UInt32) : Except Error UInt32 × Engine κ :=
  let e := { e with ring := e.ring.publishTail tail }
  match e.enter count 0 0 with
  | (.error err, e) => (.error (.enter err), e)
  | (.ok accepted, e) =>
    let e := { e with ring.inFlight := e.ring.inFlight + min accepted count }
    if accepted = count then (.ok count, e) else (.error (.partialSubmit count accepted), e)

/-- Submit up to `requested` reads of blocks of the target. The number is limited to the
free submission slots; the result is the number of reads submitted, zero when the ring is
full. -/
def submitReads (e : Engine κ) (target : ReadTarget) (requested : UInt32) (policy : π) :
    Except Error UInt32 × Engine κ × π :=
  let count := min requested e.ring.available
  if count = 0 then (.ok 0, e, policy)
  else
    let blocks := target.blocks e.blockSize
    if blocks = 0 then (.error (.fileTooSmall target.size.toNat e.blockSize), e, policy)
    else
      let (tail, ring) := e.ring.submissionTail
      match stageReads target blocks count.toNat tail { e with ring } policy with
      | (.error err, e, policy) => (.error err, e, policy)
      | (.ok tail, e, policy) =>
        let (result, e) := e.handOver count tail
        (result, e, policy)

end RingRead.Engine
