import RingRead.Engine.Basic

/-!
# Reaping completions

Completions are taken one at a time. A blocking reap that finds none waits in the kernel
until there is one, repeats a wait that was interrupted, and then looks exactly once more.

**Draining ends.** `drain` goes on as long as completions keep coming. The kernel may post
as many as it likes, but each one that is taken turns a loaned block into a held one, so the
number of loaned blocks bounds the rounds.
-/

namespace RingRead

/-- May a reap wait? -/
inductive ReapMode where
  /-- Never wait. -/
  | nonBlocking
  /-- Wait for a completion if reads are in flight. -/
  | blocking
deriving DecidableEq, Repr

/-- A finished read: the token of the block with its data, and the bytes that were read,
which are always one block. -/
structure Completion where
  token : Token
  bytes : Nat
deriving DecidableEq, Repr

/-- How the read of a completion entry with a negative result has failed: the kernel has
refused it, and the error carries the result with its sign turned. The sign of the smallest
result cannot be turned. -/
def Cqe.refusal (c : Cqe) : Abort Error :=
  match checkedNeg c.res with
  | .error operation => .overflow operation
  | .ok errno => .failed (.completionFailed c.userData errno)

namespace Engine

variable {κ : Type} [Kernel κ]

/-- Wait for a completion, repeating a wait that was interrupted at most `retries` times.
Any other failure of a wait is reported at once. -/
def waitWithin : (retries : Nat) → Engine κ → Except Error Unit × Engine κ
  | retries, e =>
    match e.enter 0 1 enterGetEvents with
    | (.ok _, e) => (.ok (), e)
    | (.error err, e) =>
      match err.isInterrupted, retries with
      | true, retries + 1 => waitWithin retries e
      | _, _ => (.error (.enter err), e)

/-- Wait for a completion, as often as the kernel interrupts the wait. The kernel says
beforehand how often that is, so this never gives up on one that keeps to it. -/
def wait (e : Engine κ) : Except Error Unit × Engine κ :=
  waitWithin (Kernel.patience e.ring.kernel) e

/-- Take the next completion entry from the ring, without looking at what it says. -/
def take (e : Engine κ) : Except Error (Option Cqe) × Engine κ :=
  let (result, ring) := e.ring.take
  (result, { e with ring })

/-- Take a completion entry, waiting for one if the mode allows it and reads are in flight.
After a wait there has to be one. -/
def takeOrWait (e : Engine κ) (mode : ReapMode) : Except Error (Option Cqe) × Engine κ :=
  match e.take with
  | (.error err, e) => (.error err, e)
  | (.ok (some c), e) => (.ok (some c), e)
  | (.ok none, e) =>
    if mode = .blocking ∧ 0 < e.inFlight then
      match e.wait with
      | (.error err, e) => (.error err, e)
      | (.ok (), e) =>
        match e.take with
        | (.error err, e) => (.error err, e)
        | (.ok none, e) => (.error .emptyAfterWait, e)
        | (.ok (some c), e) => (.ok (some c), e)
    else (.ok none, e)

/-- Give back the block of a read that failed, and then say how it has failed. Should the
block be refused, that is said instead. -/
def giveUp (e : Engine κ) (token : Token) (failure : Abort Error) :
    Except (Abort Error) Completion × Engine κ :=
  match e.release token with
  | (.error err, e) => (.error (.failed err), e)
  | (.ok (), e) => (.error failure, e)

/-- Turn a completion entry into a finished read: its block is taken back from the kernel,
and the read has to have succeeded with exactly one block. -/
def finish (e : Engine κ) (c : Cqe) : Except (Abort Error) Completion × Engine κ :=
  match e.pool.reclaim c.userData with
  | (.error err, pool) => (.error (.failed err), { e with pool })
  | (.ok token, pool) =>
    let inFlight := if e.ring.inFlight = 0 then 0 else e.ring.inFlight - 1
    let e : Engine κ := { ring := { e.ring with inFlight }, pool }
    if c.res < 0 then e.giveUp token c.refusal
    else
      let bytes := c.res.toInt.toNat
      if bytes ≠ e.blockSize then e.giveUp token (.failed (.shortRead c.userData e.blockSize bytes))
      else (.ok ⟨token, bytes⟩, e)

/-- Take one finished read. There is none when nothing is ready and the mode forbids waiting
or no read is in flight. -/
def reap (e : Engine κ) (mode : ReapMode) :
    Except (Abort Error) (Option Completion) × Engine κ :=
  match e.takeOrWait mode with
  | (.error err, e) => (.error (.failed err), e)
  | (.ok none, e) => (.ok none, e)
  | (.ok (some c), e) =>
    match e.finish c with
    | (.error abort, e) => (.error abort, e)
    | (.ok completion, e) => (.ok (some completion), e)

/-- Take finished reads without waiting, at most `rounds` of them, after those in `taken`,
which has the latest first. -/
def collect :
    (rounds : Nat) → (taken : List Completion) → Engine κ →
      Except (Abort Error) (List Completion) × Engine κ
  | 0, taken, e => (.ok taken.reverse, e)
  | rounds + 1, taken, e =>
    match e.reap .nonBlocking with
    | (.error abort, e) => (.error abort, e)
    | (.ok none, e) => (.ok taken.reverse, e)
    | (.ok (some completion), e) => collect rounds (completion :: taken) e

/-- Take everything that is ready. Only the first reap may wait. When a reap fails, the
reads taken before it are not returned; their blocks stay held. -/
def drain (e : Engine κ) (mode : ReapMode) : Except (Abort Error) (List Completion) × Engine κ :=
  match e.reap mode with
  | (.error abort, e) => (.error abort, e)
  | (.ok none, e) => (.ok [], e)
  | (.ok (some completion), e) => collect (e.pool.count .loaned + 1) [completion] e

end Engine

end RingRead
