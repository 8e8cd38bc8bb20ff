import RingRead.Policy.RandomBlocks

/-!
# Policies by name, and policies that count

`PolicyChoice` is the policy that a caller picks when a program runs: one of the two sources
of blocks, or a fixed rule. `Counted` counts how often a policy is asked.
-/

namespace RingRead

/-- A policy picked among several: the two sources of blocks, and two rules whose choices
need not be blocks of the target. -/
inductive PolicyChoice where
  | walker (w : Walker)
  | random (r : RandomBlocks)
  /-- Always the last block. -/
  | last
  /-- The given values in turn, starting over at the end; no values give zeros. -/
  | cycle (values : Array UInt64) (position : Nat)
deriving Repr

/-- The next choice of the picked policy. -/
def PolicyChoice.next (p : PolicyChoice) (blocks : UInt64) : UInt64 × PolicyChoice :=
  match p with
  | walker w =>
    let (block, w) := w.next blocks
    (block, walker w)
  | random r =>
    let (block, r) := r.next blocks
    (block, random r)
  | last => (blocks - 1, last)
  | cycle values position =>
    (values[position % values.size]?.getD 0, cycle values (position + 1))

instance : OffsetPolicy PolicyChoice := ⟨PolicyChoice.next⟩

/-- A policy and the number of times it was asked. What it chooses is what the policy
chooses. -/
structure Counted (π : Type) where
  policy : π
  calls : Nat := 0
deriving Repr

instance {π : Type} [OffsetPolicy π] : OffsetPolicy (Counted π) where
  next p blocks :=
    let (block, policy) := OffsetPolicy.next p.policy blocks
    (block, { policy, calls := p.calls + 1 })

end RingRead
