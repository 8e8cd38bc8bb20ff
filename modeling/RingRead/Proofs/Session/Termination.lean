import RingRead.Proofs.Session.Occupancy
import RingRead.Proofs.Simulation.Interrupting

/-!
# Loops of a session that end

A session that stops waits for the reads in flight, in as many rounds as it takes. It runs
with a bound that is computed beforehand; as for the loops of an engine, the loop is a
relation here that knows no bound.

* **Shutting down.** Each round that succeeds lowers the number of reads in flight, on any
  kernel, so there are no more rounds than reads in flight (`Session.shutsDown_shutDown`).
* **All loops.** `Engine.drain_ends` puts together what is known about the loops from the
  wait up to the shutdown.
-/

namespace RingRead

variable {κ π : Type} [Kernel κ]

namespace Session

/-- Reaping until no read is in flight takes `n` rounds. -/
inductive ShutsDown : Session κ π → (n : Nat) → Except (Abort Failure) Unit → Session κ π → Prop
  | idle {s} (hidle : s.engine.inFlight = 0) : ShutsDown s 0 (.ok ()) s
  | failed {s s' abort} (hbusy : s.engine.inFlight ≠ 0)
      (hreap : s.reapReady = (.error abort, s')) : ShutsDown s 1 (.error abort) s'
  | more {s s₁ s' n answer} (hbusy : s.engine.inFlight ≠ 0) (hreap : s.reapReady = (.ok (), s₁))
      (hrest : ShutsDown s₁ n answer s') : ShutsDown s (n + 1) answer s'

variable {s : Session κ π}

/-- With as many rounds as reads in flight, the reads are waited for to the end. -/
theorem shutsDown_shutDownWithin {rounds : Nat} (h : s.engine.Balanced)
    (hrounds : s.engine.inFlight.toNat ≤ rounds) :
    ∃ n ≤ s.engine.inFlight.toNat,
      s.ShutsDown n (shutDownWithin rounds s).1 (shutDownWithin rounds s).2 := by
  induction rounds generalizing s with
  | zero => exact ⟨0, Nat.zero_le _, .idle (UInt32.toNat_inj.mp (Nat.le_zero.mp hrounds))⟩
  | succ rounds ih =>
    rw [shutDownWithin]
    by_cases hidle : s.engine.inFlight = 0
    · rw [if_pos hidle]
      exact ⟨0, Nat.zero_le _, .idle hidle⟩
    · have hpos : 0 < s.engine.inFlight.toNat :=
        UInt32.lt_iff_toNat_lt.mp (UInt32.pos_iff_ne_zero.mpr hidle)
      rw [if_neg hidle]
      rcases hreap : s.reapReady with ⟨abort | _, s₁⟩
      · exact ⟨1, hpos, .failed hidle hreap⟩
      · have hreaped := (balanced_reapReady h).1
        rw [hreap] at hreaped
        have hless := inFlight_lt_of_reapReady h hidle hreap
        obtain ⟨n, hn, hrest⟩ := ih (s := s₁) hreaped (by omega)
        exact ⟨n + 1, by omega, .more hidle hreap hrest⟩

/-- A session that shuts down waits until nothing is in flight, or a call fails. -/
theorem shutsDown_shutDown (h : s.engine.Balanced) :
    ∃ n ≤ s.engine.inFlight.toNat, s.ShutsDown n s.shutDown.1 s.shutDown.2 :=
  shutsDown_shutDownWithin h (Nat.le_refl _)

end Session

namespace Engine

variable {e : Engine κ}

/-- **Waiting, draining and shutting down end, on any kernel.** The kernel may post entries
with any tags and any results at any time, also while it is drained. All that is asked of it
is that it does not interrupt a wait that is repeated more often than it says. The engine is
in any state that calls have led to.

* A wait is repeated until it is not interrupted.
* A drain goes on until a reap fails or brings nothing, and that is after one reap more than
  blocks are on loan at most. What it answers are the reads of different blocks that were on
  loan. After its first reap it does not enter the kernel.
* A drain with reads in flight that succeeds lowers their number. So a session that shuts
  down goes on until no read is in flight or a call fails, and that is after as many rounds
  as reads are in flight at most. -/
theorem drain_ends (hrelents : ∀ kernel : κ, Kernel.Relents kernel) (h : e.Reachable)
    (mode : ReapMode) (policy : π) (meter : Meter) :
    let drained := e.drain mode
    let traced := e.trace.drain mode
    let s : Session κ π := ⟨e, policy, meter⟩
    (∀ e' : Engine κ, ∃ n ≤ Kernel.patience e'.ring.kernel + 1, e'.Waits n e'.wait.1 e'.wait.2) ∧
      (∃ n ≤ e.loaned + 1, Gathers mode e n drained.1 drained.2) ∧
      (∀ done, drained.1 = .ok done → (done.map (·.token.id)).Nodup ∧
        ∀ completion ∈ done, e.pool.state? completion.token.id.toNat = some .loaned) ∧
      drained = (traced.1, traced.2.untrace) ∧
      (∃ rest, traced.2.ring.kernel.operations =
          (e.trace.reap mode).2.ring.kernel.operations ++ rest ∧
        (∀ operation ∈ (e.trace.reap mode).2.ring.kernel.operations, mode.Permits operation) ∧
        ∀ operation ∈ rest, operation.IsAccess) ∧
      (∀ done e', 0 < e.inFlight → e.drain .blocking = (.ok done, e') →
        e'.inFlight < e.inFlight) ∧
      ∃ rounds ≤ e.inFlight.toNat, s.ShutsDown rounds s.shutDown.1 s.shutDown.2 := by
  intro drained traced s
  have hsound := h.balanced.sound
  have hgathers : ∃ n ≤ e.loaned + 1, Gathers mode e n drained.1 drained.2 :=
    gathers_drain hsound mode
  refine ⟨fun e' => waits_wait (hrelents _), hgathers, fun done hdone => ?_, e.untrace_drain mode,
    operations_drain hsound mode, fun done e' hflight hok => ?_, s.shutsDown_shutDown h.balanced⟩
  · obtain ⟨n, -, hdrained⟩ := hgathers
    obtain ⟨hcollects, -⟩ := hdrained.collects hsound hdone
    refine ⟨?_, fun completion hmem => ?_⟩
    · have hnodup := hcollects.nodup
      rw [List.map_map] at hnodup
      exact List.Nodup.of_map UInt32.toNat (by simpa [Function.comp_def] using hnodup)
    · exact hcollects.loaned _ (List.mem_map_of_mem hmem)
  · exact inFlight_lt_of_drain hsound hflight hok

end Engine

/-! ## Simulated kernels

The hypothesis about interruptions is one that a simulated kernel satisfies in all its
states, since it counts those that are left. -/

/-- A simulated kernel interrupts as many waits as it was told to. -/
theorem SimulatedKernel.relents (k : SimulatedKernel) : Kernel.Relents k := by
  suffices hanswered : ∀ left (k : SimulatedKernel), k.interrupts = left → ∀ err,
      (Kernel.enter (Kernel.afterWaits k left) 0 1 enterGetEvents).answer = .error err →
        err.isInterrupted = false from
    ⟨k.interrupts, Nat.le_refl _, hanswered _ k rfl⟩
  intro left
  induction left with
  | zero =>
    intro k hzero err herror
    have henter : Kernel.enter k 0 1 enterGetEvents = _ := k.enter_wait_of_zero hzero
    rw [Kernel.afterWaits, henter] at herror
    cases herror
  | succ left ih =>
    intro k hsome err herror
    obtain ⟨k', henter, hleft, -⟩ := k.enter_wait_of_succ hsome
    have hkernel : (Kernel.enter k 0 1 enterGetEvents).kernel = k' := congrArg Entered.kernel henter
    rw [Kernel.afterWaits, hkernel] at herror
    exact ih k' hleft err herror

namespace Engine

/-- Three reads are in flight, their completions are pending, and two waits will be
interrupted. -/
theorem drain_ends_after_interrupts :
    ∃ e₀ : Engine SimulatedKernel,
      create { file := SimulatedKernel.patternedFile 4 8, deferred := true, interrupts := 2 } 4 7
        { blockSize := 8, alignment := 8 } = .ok e₀ ∧
        let e := e₀.performAll [.submitReads ⟨3, 32⟩ 3 ({} : Walker)]
        let s : Session SimulatedKernel Walker := ⟨e, {}, .startingAt 8 1 0⟩
        e.loaned = 3 ∧ e.inFlight = 3 ∧
          (e.drain .blocking).1 = .ok [⟨⟨0, 7⟩, 8⟩, ⟨⟨1, 7⟩, 8⟩, ⟨⟨2, 7⟩, 8⟩] ∧
          (∃ n ≤ 3, e.Waits n e.wait.1 e.wait.2) ∧
          (∃ n ≤ 4, Gathers .blocking e n (e.drain .blocking).1 (e.drain .blocking).2) ∧
          ∃ rounds ≤ 3, s.ShutsDown rounds (.ok ()) s.shutDown.2 := by
  obtain ⟨e₀, hcreate⟩ : ∃ e₀ : Engine SimulatedKernel,
      create { file := SimulatedKernel.patternedFile 4 8, deferred := true, interrupts := 2 } 4 7
        { blockSize := 8, alignment := 8 } = .ok e₀ := ⟨_, rfl⟩
  refine ⟨e₀, hcreate, ?_⟩
  intro e s
  have hreachable : e.Reachable := (Reachable.created hcreate).performAll _
  have hpatience : Kernel.patience e.ring.kernel = 2 := by
    cases hcreate
    decide +kernel
  have hloaned : e.loaned = 3 := by
    cases hcreate
    decide +kernel
  have hflight : e.inFlight = 3 := by
    cases hcreate
    decide +kernel
  have hdone : (e.drain .blocking).1 = .ok [⟨⟨0, 7⟩, 8⟩, ⟨⟨1, 7⟩, 8⟩, ⟨⟨2, 7⟩, 8⟩] := by
    cases hcreate
    decide +kernel
  have hshut : s.shutDown.1 = .ok () := by
    cases hcreate
    decide +kernel
  obtain ⟨hwaits, hgathers, -, -, -, -, hshuts⟩ :=
    drain_ends SimulatedKernel.relents hreachable .blocking ({} : Walker) (.startingAt 8 1 0)
  have hwait := hwaits e
  rw [hpatience] at hwait
  rw [hloaned] at hgathers
  rw [hflight] at hshuts
  exact ⟨hloaned, hflight, hdone, hwait, hgathers, hshut ▸ hshuts⟩

end Engine

end RingRead
