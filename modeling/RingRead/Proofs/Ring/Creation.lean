import RingRead.Engine.Basic

/-!
# Created rings

A ring is created in steps, each of which may refuse it, and each of which may change the
kernel. `Ring.create_eq_ok` takes a ring that was created apart into the steps that made it.
-/

namespace RingRead

variable {κ : Type} [Kernel κ] {kernel : κ} {capacity serial : UInt32}

/-- A sequence of steps succeeds only if each of them does. This takes a computation apart
from its result, one step at a time. -/
theorem bind_eq_ok {ε α β : Type} {x : Except ε α} {f : α → Except ε β} {b : β}
    (h : x >>= f = .ok b) : ∃ a, x = .ok a ∧ f a = .ok b := by
  cases x with
  | error err => cases h
  | ok a => exact ⟨a, rfl, h⟩

/-- The steps that made a ring. The kernels in between are the states that it went through,
one after each step that asked it for something, and each part of the ring is what its step
has found. -/
theorem Ring.create_eq_ok {r : Ring κ} (h : Ring.create kernel capacity = .ok r) :
    ∃ k₁ k₂ k₃ k₄ k₅,
      (capacity ≠ 0 ∧ capacity ≤ maxEntries) ∧
      negotiate kernel capacity = .ok (r.params, k₁) ∧
      mapRegion k₁ r.params .submissionRing = .ok (r.submissionRing, k₂) ∧
      mapRegion k₂ r.params .submissionEntries = .ok (r.submissionEntries, k₃) ∧
      mapRegion k₃ r.params .completionRing = .ok (r.completionRing, k₄) ∧
      locateSubmission k₄ r.params r.submissionRing r.submissionEntries = .ok (r.sq, k₅) ∧
      locateCompletion k₅ r.params r.completionRing = .ok (r.cq, r.kernel) ∧
      (r.sq.mask = r.sq.entries - 1 ∧ r.cq.mask = r.cq.entries - 1) ∧ r.inFlight = 0 := by
  rw [create] at h
  split at h
  · cases h
  next hcapacity =>
  obtain ⟨⟨params, k₁⟩, hnegotiate, h⟩ := bind_eq_ok h
  obtain ⟨⟨submissionRing, k₂⟩, hsubmission, h⟩ := bind_eq_ok h
  obtain ⟨⟨submissionEntries, k₃⟩, hentries, h⟩ := bind_eq_ok h
  obtain ⟨⟨completionRing, k₄⟩, hcompletion, h⟩ := bind_eq_ok h
  obtain ⟨⟨sq, k₅⟩, hsq, h⟩ := bind_eq_ok h
  obtain ⟨⟨cq, k₆⟩, hcq, h⟩ := bind_eq_ok h
  dsimp only at h
  split at h
  · cases h
  next hmasks =>
  cases h
  obtain ⟨hzero, hmax⟩ := not_or.mp hcapacity
  obtain ⟨hsqMask, hcqMask⟩ := not_or.mp hmasks
  exact ⟨k₁, k₂, k₃, k₄, k₅, ⟨hzero, UInt32.not_lt.mp hmax⟩, hnegotiate, hsubmission, hentries,
    hcompletion, hsq, hcq, ⟨Decidable.not_not.mp hsqMask, Decidable.not_not.mp hcqMask⟩, rfl⟩

/-- An engine is made of a pool and a ring that were created. If either is refused, so is
the engine. -/
theorem Engine.create_eq_ok {config : PoolConfig} {mappings : MappingAnswers} {e : Engine κ}
    (h : Engine.create kernel capacity serial config mappings = .ok e) :
    Pool.create serial config mappings = .ok e.pool ∧ Ring.create kernel capacity = .ok e.ring := by
  obtain ⟨pool, hpool, h⟩ := bind_eq_ok h
  obtain ⟨ring, hring, h⟩ := bind_eq_ok h
  cases h
  exact ⟨hpool, hring⟩

end RingRead
