import RingRead.Proofs.Simulation.Attached

/-!
# Taking completions from a simulated kernel

An engine on a simulated kernel looks for the first completion of the queue. It may not be
posted yet; then a reap that may wait enters the kernel until a wait is not interrupted,
which comes after as many rounds as the kernel has interruptions left
(`Engine.wait_of_queues`). `Engine.Looks` lists how such a search can end.
-/

namespace RingRead.Engine

variable {e : Engine SimulatedKernel} {n : UInt32} {queue : List Cqe} {mode : ReapMode}

/-- A wait that may be repeated as often as the kernel interrupts it succeeds. -/
theorem waitWithin_of_queues {retries : Nat} (h : e.ring.kernel.Queues n queue)
    (hlimit : e.ring.kernel.acceptLimit = none) (hretries : e.ring.kernel.interrupts = retries) :
    ∃ kernel, waitWithin retries e = (.ok (), e.onKernel kernel) ∧
      e.ring.kernel.LeadsTo n queue kernel ∧
      (e.ring.kernel.stalled = false → kernel.pending = []) := by
  obtain ⟨hposts, hinterrupted⟩ := SimulatedKernel.enter_wait h hlimit
  induction retries generalizing e with
  | zero =>
    obtain ⟨kernel, henter, hleads, hpending⟩ := hposts hretries
    refine ⟨kernel, ?_, hleads, hpending⟩
    rw [waitWithin, enter_of_kernel henter]
    rfl
  | succ retries ih =>
    obtain ⟨kernel, henter, hleads, hleft⟩ := hinterrupted retries hretries
    have hlimit' : kernel.acceptLimit = none := hleads.settings.acceptLimit_eq.trans hlimit
    -- the next round finds the same queue, and one interruption less
    obtain ⟨hposts', hinterrupted'⟩ := SimulatedKernel.enter_wait hleads.queues hlimit'
    obtain ⟨kernel', hwait, hleads', hpending⟩ :=
      ih (e := e.onKernel kernel) hleads.queues hlimit' hleft hposts' hinterrupted'
    refine ⟨kernel', ?_, hleads.trans hleads', fun hstalled => ?_⟩
    · rw [waitWithin, enter_of_kernel henter]
      exact hwait
    · exact hpending (hleads.settings.stalled_eq.trans hstalled)

/-- A wait succeeds, since the kernel says beforehand how often it will interrupt it. -/
theorem wait_of_queues (h : e.ring.kernel.Queues n queue)
    (hlimit : e.ring.kernel.acceptLimit = none) :
    ∃ kernel, e.wait = (.ok (), e.onKernel kernel) ∧ e.ring.kernel.LeadsTo n queue kernel ∧
      (e.ring.kernel.stalled = false → kernel.pending = []) :=
  waitWithin_of_queues h hlimit rfl

/-- How an engine's search for a completion entry can end. Of the queue the first completion
was found, or none of it was posted. In the second case it is told apart whether the search
has waited, since a wait that brings nothing is an error. -/
inductive Looks (e : Engine SimulatedKernel) (n : UInt32) (mode : ReapMode) :
    List Cqe → Except Error (Option Cqe) → Engine SimulatedKernel → Prop
  /-- The first completion of the queue was found. -/
  | found {c rest kernel} (hready : mode = .nonBlocking → e.ring.ready ≠ 0)
      (hleads : e.ring.kernel.LeadsTo n rest kernel) :
      Looks e n mode (c :: rest) (.ok (some c)) (e.onKernel kernel)
  /-- Nothing was posted, and the search did not wait. -/
  | nothing {cs} (hready : e.ring.ready = 0) (hmode : mode = .nonBlocking ∨ e.inFlight = 0) :
      Looks e n mode cs (.ok none) e
  /-- Nothing was posted even after a wait. -/
  | withheld {cs kernel} (hstalled : e.ring.kernel.stalled = false → cs = [])
      (hflight : 0 < e.inFlight) (hleads : e.ring.kernel.LeadsTo n cs kernel) :
      Looks e n mode cs (.error .emptyAfterWait) (e.onKernel kernel)

theorem take_eq_of_ring {result : Except Error (Option Cqe)} {ring : Ring SimulatedKernel}
    (h : e.ring.take = (result, ring)) : e.take = (result, { e with ring }) := by
  rw [take, h]

/-- On a consistent kernel a search ends in one of these ways. It never finds the queue out
of step, and a wait never fails. -/
theorem looks_takeOrWait (hlayout : e.ring.HasLayout n) (h : e.ring.kernel.Queues n queue)
    (hlimit : e.ring.kernel.acceptLimit = none) (mode : ReapMode) :
    e.Looks n mode queue (e.takeOrWait mode).1 (e.takeOrWait mode).2 := by
  rcases Ring.take_cases hlayout h with
    ⟨c, rest, kernel, rfl, hready, htake, hleads⟩ | ⟨hready, htake, hpending⟩
  · rw [takeOrWait, take_eq_of_ring htake]
    exact .found (fun _ => hready) hleads
  by_cases hmode : mode = .blocking ∧ 0 < e.inFlight
  · obtain ⟨kernel, hwait, hleads, hposted⟩ := wait_of_queues h hlimit
    have hlayout' : (e.onKernel kernel).ring.HasLayout n := ⟨hlayout.sq_eq, hlayout.cq_eq⟩
    -- the second look is at the queue that the wait has left
    rcases Ring.take_cases hlayout' hleads.queues with
      ⟨c, rest, kernel', rfl, -, hagain, hleads'⟩ | ⟨-, hagain, hpending'⟩
    · rw [takeOrWait, take_eq_of_ring htake]
      simp only [hmode, and_self, if_true, hwait, take_eq_of_ring hagain]
      have hwaits : ReapMode.blocking ≠ .nonBlocking := by decide
      exact .found (fun hnot => absurd hnot hwaits) (hleads.trans hleads')
    · rw [takeOrWait, take_eq_of_ring htake]
      simp only [hmode, and_self, if_true, hwait, take_eq_of_ring hagain]
      exact .withheld (fun hstalled => hpending'.symm.trans (hposted hstalled)) hmode.2 hleads
  · rw [takeOrWait, take_eq_of_ring htake]
    simp only [hmode, if_false]
    refine .nothing hready ?_
    cases mode with
    | nonBlocking => exact Or.inl rfl
    | blocking =>
      refine Or.inr (UInt32.toNat_inj.mp (Nat.eq_zero_of_not_pos fun hpos => ?_))
      exact hmode ⟨rfl, UInt32.lt_iff_toNat_lt.mpr hpos⟩

end RingRead.Engine
