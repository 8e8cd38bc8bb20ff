import RingRead.Proofs.Engine.Steps

/-!
# Runs of an engine

A run is a sequence of calls, each made on the engine that the one before left behind,
whether that one succeeded or failed. Each submission may have a policy of its own.
-/

namespace RingRead

/-- A call of an engine, with what it is called with. A submission brings the policy by
which its offsets are chosen, and two submissions may bring policies of different types. -/
inductive Call : Type 1 where
  | submitReads {π : Type} [OffsetPolicy π] (target : ReadTarget) (requested : UInt32) (policy : π)
  | reap (mode : ReapMode)
  | drain (mode : ReapMode)
  | release (token : Token)

namespace Engine

variable {κ : Type} [Kernel κ] {e : Engine κ}

/-- The engine that a call leaves behind. Its answer is not looked at: the next call is made
whether or not this one failed. -/
def perform (e : Engine κ) : Call → Engine κ
  | @Call.submitReads _ _ target requested policy => (e.submitReads target requested policy).2.1
  | .reap mode => (e.reap mode).2
  | .drain mode => (e.drain mode).2
  | .release token => (e.release token).2

/-- The engine that a run leaves behind. This is how callers get from one state of an engine
to any other, so a property that holds after all runs from a new engine holds wherever a
caller can bring an engine. -/
def performAll (e : Engine κ) (calls : List Call) : Engine κ := calls.foldl perform e

end Engine

end RingRead
