import RingRead.Proofs.Backlog.Orderly
import RingRead.Proofs.Engine.Draining
import RingRead.Proofs.Ledger.Health

/-!
# Drains that empty a simulated kernel

A drain takes what is posted, and it waits once at most. So what is pending behind something
that is posted stays behind. Where the queue of a kernel is all posted or all pending
(`SimulatedKernel.Unmixed`), a drain of a healthy engine leaves no read outstanding.

* **Submitting.** A batch that comes to an empty queue leaves it unmixed: its completions
  are all kept back if the kernel defers them, and all posted if it does not
  (`Engine.unmixed_submitReads`).
* **Draining.** A drain that may wait posts what is pending before it takes the first read,
  and then takes what is posted (`Engine.Healthy.drain_all`).
-/

namespace RingRead

/-! ## The kernel's side

Completions are pending first and posted later. A kernel that defers leaves them pending
until it is waited for, and one that does not posts them in the call that made them. -/

namespace SimulatedKernel

variable {k : SimulatedKernel} {rings : SimulatedRings}

/-- The completions in the queue are all posted, or all pending. Only a queue with some of
both makes a drain stop too early: it takes what is posted and, as it does not wait a second
time, leaves the rest. -/
def Unmixed (k : SimulatedKernel) : Prop := k.pending = [] ∨ k.queued = k.pending

theorem unmixed_of_nil (h : k.queued = []) : k.Unmixed := by
  rw [queued] at h
  split at h
  · exact Or.inl h
  · exact Or.inl (List.append_eq_nil_iff.mp h).2

theorem pending_flush (hrings : k.rings = some rings) (hstalled : k.stalled = false) :
    k.flush.pending = [] := by
  simp [flush, hrings, hstalled]

/-- Consuming posts nothing. -/
theorem rings_consume (hrings : k.rings = some rings) (limit : UInt32) :
    ∃ rings', (k.consume limit).2.2.rings = some rings' ∧ rings'.unread = rings.unread := by
  rw [consume, hrings]
  exact ⟨_, rfl, rfl⟩

/-- A batch that comes to an empty queue is kept back or posted as a whole, as the kernel is
set to do. -/
theorem unmixed_enter (hrings : k.rings = some rings) (hlimit : k.acceptLimit = none)
    (hstalled : k.stalled = false) (hempty : k.queued = []) (count : UInt32) :
    (k.enter count 0).kernel.Unmixed := by
  have hunread : rings.unread = [] := by
    rw [queued, hrings] at hempty
    exact (List.append_eq_nil_iff.mp hempty).1
  obtain ⟨rings', hrings', hsame⟩ := rings_consume (k := k.entered) hrings count
  have hsettings := k.sameSettings_entered.trans (k.entered.sameSettings_consume count)
  have hstalled' := hsettings.stalled_eq.trans hstalled
  rw [enter_eq_respond hlimit]
  generalize k.entered.consume count = consumed at *
  rcases consumed with ⟨taken, transfers, k'⟩
  rw [respond, if_neg (by decide)]
  split
  · refine Or.inr ?_
    rw [queued, hrings']
    exact congrArg (· ++ k'.pending) (hsame.trans hunread)
  · exact Or.inl (pending_flush hrings' hstalled')

end SimulatedKernel

/-- Taking an entry moves no completion. -/
theorem Ring.pending_take (r : Ring SimulatedKernel) :
    r.take.2.kernel.pending = r.kernel.pending := by
  simp only [Ring.take]
  split
  · rfl
  · split
    · rfl
    · rfl

namespace Engine

variable {π : Type} [OffsetPolicy π] {e e' : Engine SimulatedKernel} {n : UInt32}
variable {reads : List Read}

/-- Nothing is in flight just when no read is outstanding. -/
theorem Consistent.inFlight_eq_zero_iff (h : e.Consistent n reads) :
    e.inFlight = 0 ↔ reads = [] := by
  rw [← List.length_eq_zero_iff, ← h.inFlight_eq, ← UInt32.toNat_inj, UInt32.toNat_zero]

/-! ## Submitting

A round of a session that has taken everything starts with nothing outstanding. So the batch
of the next round comes to an empty queue. -/

/-- With no read outstanding the queue is empty. -/
theorem Consistent.queued_eq_nil (h : e.Consistent n []) : e.ring.kernel.queued = [] :=
  List.forall₂_nil_left_iff.mp h.served

/-- A submission on an engine with no read outstanding leaves the queue unmixed. -/
theorem unmixed_submitReads (h : e.Consistent n []) (hhealthy : e.Healthy) (target : ReadTarget)
    (requested : UInt32) (policy : π) :
    (e.submitReads target requested policy).2.1.ring.kernel.Unmixed := by
  obtain ⟨rings, hrings, hn, hwf, -, -, -⟩ := h.queues
  rcases submitReads_cases h.intact.toSound target requested policy with
    hsame | ⟨-, -, hsame | ⟨-, hhanded⟩⟩
  · rw [hsame]
    exact SimulatedKernel.unmixed_of_nil h.queued_eq_nil
  all_goals
    generalize min requested e.ring.available = count at *
    have hstaged := staged_on_simulated (hn ▸ h.layout) hrings hwf target count policy
    have hleads := SimulatedKernel.leadsTo_stageAll h.queues hrings rings.sqTail
      (e.stagedEntries target count policy)
    have hqueued := hleads.queues.queued_eq.trans h.queued_eq_nil
  · rw [hsame, hstaged]
    exact SimulatedKernel.unmixed_of_nil hqueued
  · obtain ⟨-, inFlight, hengine⟩ := e.handOver_eq target count policy
    have hsubmitted : (e.submitReads target requested policy).2.1 = _ :=
      (congrArg Prod.snd hhanded).trans hengine
    have hlayout : (e.staged target count policy).ring.HasLayout n := by
      rw [hstaged]
      exact ⟨h.layout.sq_eq, h.layout.cq_eq⟩
    -- the tail that is published is none of the completion ring
    have hpublish := Ring.publishTail_eq hlayout (congrArg (·.ring.kernel.rings) hstaged)
      (e.ring.submissionTail.1 + count)
    rw [hsubmitted]
    change (SimulatedKernel.enter (Ring.publishTail _ _).kernel count 0).kernel.Unmixed
    rw [hpublish]
    refine SimulatedKernel.unmixed_enter rfl ?_ ?_ ?_ count
    all_goals rw [hstaged]
    · exact h.acceptLimit_eq
    · exact hhealthy.stalled_eq
    · exact hqueued

/-! ## Draining

The drain of such a round has one of two queues before it. If all is posted, its reaps take
one after the other. If all is pending, the first reap finds nothing, waits, and by that has
all of it posted. -/

/-- Finishing an entry does not touch the kernel. What a reap does to it, it has done when
it has its entry. -/
theorem kernel_reap (h : e.pool.Sound) (mode : ReapMode) :
    (e.reap mode).2.ring.kernel = (e.takeOrWait mode).2.ring.kernel := by
  rcases e.reap_looked mode with hsame | ⟨c, hfinished⟩
  · rw [hsame]
  · have hsound : (e.takeOrWait mode).2.pool.Sound := sound_of_drifts h (drifts_of_takeOrWait rfl)
    obtain ⟨inFlight, hring⟩ := ring_finish hsound c
    rw [hfinished, hring]

/-- Nothing is ready to be taken just when all that is queued is pending. -/
theorem Consistent.ready_eq_zero_iff (h : e.Consistent n reads) :
    e.ring.ready = 0 ↔ e.ring.kernel.queued = e.ring.kernel.pending := by
  obtain ⟨rings, hrings, -⟩ := h.queues
  have hready := Ring.toNat_ready h.layout hrings
  rw [SimulatedKernel.queued, hrings, ← UInt32.toNat_inj, hready, UInt32.toNat_zero,
    List.length_eq_zero_iff]
  exact List.append_left_eq_self.symm

/-- A reap that does not wait posts nothing. -/
theorem pending_reap (h : e.pool.Sound) :
    (e.reap .nonBlocking).2.ring.kernel.pending = e.ring.kernel.pending := by
  have htaken : e.take.2.ring.kernel.pending = e.ring.kernel.pending := e.ring.pending_take
  rw [kernel_reap h, takeOrWait]
  rcases htake : e.take with ⟨err | _ | c, e₁⟩
  all_goals rw [htake] at htaken
  · exact htaken
  · dsimp only
    rw [if_neg]
    · exact htaken
    · rintro ⟨hmode, -⟩
      cases hmode
  · exact htaken

/-- A reap that may wait for reads in flight leaves nothing pending: what is pending is
posted when nothing else is, and otherwise there is none. -/
theorem Healthy.pending_reap (hhealthy : e.Healthy) (h : e.Consistent n reads)
    (hunmixed : e.ring.kernel.Unmixed) (hflight : 0 < e.inFlight) :
    (e.reap .blocking).2.ring.kernel.pending = [] := by
  rw [kernel_reap h.intact.toSound, takeOrWait]
  rcases Ring.take_cases h.layout h.queues with
    ⟨c, rest, kernel, -, hready, htake, -⟩ | ⟨-, htake, -⟩
  · have hposted := e.ring.pending_take
    rw [take_eq_of_ring htake]
    rw [htake] at hposted
    exact hposted.trans
      (hunmixed.resolve_right fun hpending => hready (h.ready_eq_zero_iff.mpr hpending))
  · obtain ⟨kernel, hwait, -, hposted⟩ := wait_of_queues h.queues h.acceptLimit_eq
    have hpending : (e.onKernel kernel).take.2.ring.kernel.pending = [] :=
      (e.onKernel kernel).ring.pending_take.trans (hposted hhealthy.stalled_eq)
    rw [take_eq_of_ring htake]
    simp only [hflight, and_self, if_true, hwait]
    rcases hagain : (e.onKernel kernel).take with ⟨err | _ | c, e₁⟩
    all_goals
      rw [hagain] at hpending
      exact hpending

/-- Reaping as long as reads come takes all of them, if the first reap waits or nothing is
pending. -/
theorem Gathers.inFlight_eq_zero {mode : ReapMode} {m : Nat}
    {answer : Except (Abort Error) (List Completion)} (hgathers : Gathers mode e m answer e')
    (hhealthy : e.Healthy) (h : e.Consistent n reads) (hunmixed : e.ring.kernel.Unmixed)
    (hposted : mode = .nonBlocking → e.ring.kernel.pending = []) : e'.inFlight = 0 := by
  induction hgathers generalizing reads with
  | @failed mode e _ abort hreap =>
    rcases hhealthy.reap_cases h mode with ⟨⟨completion, hsome⟩, -⟩ | ⟨hnone, -⟩
    · rw [hreap] at hsome
      cases hsome
    · rw [hreap] at hnone
      cases hnone
  | @nothing mode e _ hreap =>
    rcases hhealthy.reap_cases h mode with ⟨⟨completion, hsome⟩, -⟩ | ⟨-, hready, hmode⟩
    · rw [hreap] at hsome
      cases hsome
    rw [inFlight_of_drifts (drifts_of_reap_none hreap)]
    rcases hmode with hmode | hidle
    · -- neither posted nor pending
      have hqueued := (h.ready_eq_zero_iff.mp hready).trans (hposted hmode)
      have hserved := h.served
      rw [hqueued, List.forall₂_nil_right_iff] at hserved
      exact h.inFlight_eq_zero_iff.mpr hserved
    · exact hidle
  | @more mode e e₁ _ completion _ _ hreap _ ih =>
    obtain ⟨reads', -, hcarries⟩ := reap_outcome h mode
    -- the first reap has made the kernel post, so later ones find nothing pending
    have hpending : (e.reap mode).2.ring.kernel.pending = [] := by
      cases mode with
      | nonBlocking => exact (pending_reap h.intact.toSound).trans (hposted rfl)
      | blocking =>
        refine hhealthy.pending_reap h hunmixed (UInt32.pos_iff_ne_zero.mpr fun hidle => ?_)
        have hnone := (hhealthy.reap_blocking h).1 hidle
        rw [hreap] at hnone
        cases hnone
    rw [hreap] at hcarries hpending
    exact ih (hcarries.healthy hhealthy) hcarries.consistent (Or.inl hpending) fun _ => hpending

/-- A drain that may wait takes every outstanding read of a healthy engine, if the queue is
unmixed.
-/
theorem Healthy.drain_all (hhealthy : e.Healthy) (h : e.Consistent n reads)
    (hunmixed : e.ring.kernel.Unmixed) :
    ∃ done e', e.drain .blocking = (.ok done, e') ∧ e.Carries n reads e' [] := by
  obtain ⟨done, hdone⟩ := hhealthy.drain_eq_ok h .blocking
  obtain ⟨m, -, hgathers⟩ := gathers_drain h.intact.toSound .blocking
  have hidle := hgathers.inFlight_eq_zero hhealthy h hunmixed nofun
  obtain ⟨taken, rest, -, -, hcarries⟩ := reapsAll_reapAll h (e.drainModes .blocking)
  have hengine : (reapAll (e.drainModes .blocking) e).2 = (e.drain .blocking).2 :=
    (congrArg Prod.snd (e.drain_eq_reapAll .blocking)).symm
  rw [hengine] at hcarries
  obtain rfl := hcarries.consistent.inFlight_eq_zero_iff.mp hidle
  exact ⟨done, _, Prod.ext hdone rfl, hcarries⟩

end Engine

end RingRead
