import RingRead.Proofs.Ledger.Integrity

/-!
# Healthy runs

An engine is healthy when its kernel neither withholds completions nor has been told what to
answer, and every outstanding read has brought a whole block (`Engine.Healthy`). Events that
ask for nothing beyond the end of the file, and inject no results, keep it so
(`healthy_run`).

Each error of a call is a case of its outcome. Of the cases of `Engine.ReapOutcome` a
healthy engine leaves two, a completion or none (`Engine.Healthy.reap_cases`). Of those of
`Engine.SubmitOutcome` a target with a whole block leaves, besides success, that block
numbers run out (`Engine.submitReads_eq_ok`).
-/

namespace RingRead

/-! ## Calls of a healthy engine

Health is about what the kernel will answer, and consistency about what engine and kernel
agree on. With both, the outcome of a call can be told from what the engine knows by itself:
the reads in flight and the entries that are ready. -/

namespace Engine

variable {π : Type} [OffsetPolicy π] {e : Engine SimulatedKernel} {n : UInt32} {reads : List Read}

/-- A submission to a target with a whole block submits all it can, as long as block numbers
last, unless the system refuses to map memory for one of its blocks. -/
theorem submitReads_eq_ok (h : e.Consistent n reads) {target : ReadTarget} {requested : UInt32}
    {policy : π} (hwhole : e.blockSize ≤ target.size.toNat)
    (hsize : (e.submitReads target requested policy).2.1.pool.size < UInt32.size) :
    (e.submitReads target requested policy).1 = .ok (min requested e.ring.available) ∨
      ∃ err, some err ∈ e.pool.mappings ∧
        (e.submitReads target requested policy).1 = .error (.alloc err) := by
  obtain ⟨reads', houtcome, -⟩ := submitReads_outcome h target requested policy
  generalize (e.submitReads target requested policy).1 = answer at houtcome
  generalize (e.submitReads target requested policy).2.1 = e' at houtcome hsize
  cases houtcome with
  | idle hcount => exact Or.inl (by rw [hcount])
  | small hblocks =>
    have hpos : 0 < e.blockSize := Nat.lt_of_lt_of_le (by decide) h.intact.blockSize_bounds.1
    exact absurd hblocks (ReadTarget.blocks_ne_zero hpos hwhole)
  | exhausted hshort =>
    rcases hshort with ⟨-, hfull⟩ | ⟨err, hmem, rfl⟩
    · exact absurd hfull (Nat.ne_of_lt hsize)
    · exact Or.inr ⟨err, hmem, rfl⟩
  | submitted => exact Or.inl rfl

/-- A healthy engine answers a reap with a completion, if reads are in flight. There is none
only where nothing is posted and the reap may not wait, or has nothing to wait for. -/
theorem Healthy.reap_cases (hhealthy : e.Healthy) (h : e.Consistent n reads) (mode : ReapMode) :
    ((∃ completion, (e.reap mode).1 = .ok (some completion)) ∧ e.inFlight ≠ 0 ∧
        (mode = .nonBlocking → e.ring.ready ≠ 0)) ∨
      ((e.reap mode).1 = .ok none ∧ e.ring.ready = 0 ∧ (mode = .nonBlocking ∨ e.inFlight = 0)) := by
  have hflight := h.inFlight_eq
  obtain ⟨reads', houtcome, -⟩ := reap_outcome h mode
  generalize (e.reap mode).1 = answer at houtcome
  generalize (e.reap mode).2 = e' at houtcome
  cases houtcome with
  | succeeded hready =>
    -- a read that is reaped was in flight
    refine Or.inl ⟨⟨_, rfl⟩, fun hzero => ?_, hready⟩
    rw [hzero] at hflight
    cases hflight
  | failed _ hsick => exact absurd hhealthy hsick
  | nothing hready hmode => exact Or.inr ⟨rfl, hready, hmode⟩
  | withheld hsick => exact absurd hhealthy hsick

/-- A healthy engine answers a reap that may wait with a completion just when reads are in
flight. -/
theorem Healthy.reap_blocking (hhealthy : e.Healthy) (h : e.Consistent n reads) :
    (e.inFlight = 0 → (e.reap .blocking).1 = .ok none) ∧
      (e.inFlight ≠ 0 → ∃ completion, (e.reap .blocking).1 = .ok (some completion)) := by
  rcases hhealthy.reap_cases h .blocking with ⟨hsome, hflight, -⟩ | ⟨hnone, -, hmode | hflight⟩
  · exact ⟨fun hzero => absurd hzero hflight, fun _ => hsome⟩
  · cases hmode
  · exact ⟨fun _ => hnone, fun hne => absurd hflight hne⟩

/-- One that may not wait is answered with a completion just when something is posted. -/
theorem Healthy.reap_nonBlocking (hhealthy : e.Healthy) (h : e.Consistent n reads) :
    (e.ring.ready = 0 → (e.reap .nonBlocking).1 = .ok none) ∧
      (e.ring.ready ≠ 0 → ∃ completion, (e.reap .nonBlocking).1 = .ok (some completion)) := by
  rcases hhealthy.reap_cases h .nonBlocking with ⟨hsome, -, hready⟩ | ⟨hnone, hready, -⟩
  · exact ⟨fun hzero => absurd hzero (hready rfl), fun _ => hsome⟩
  · exact ⟨fun _ => hnone, fun hne => absurd hready hne⟩

/-- A drain does not fail, since none of its reaps does. -/
theorem Healthy.drain_eq_ok (hhealthy : e.Healthy) (h : e.Consistent n reads) (mode : ReapMode) :
    ∃ completions, (e.drain mode).1 = .ok completions := by
  obtain ⟨_, _, -, hall, -⟩ := reapsAll_reapAll h (e.drainModes mode)
  rw [drain_eq_reapAll]
  exact hall.succeeds hhealthy

end Engine

/-! ## Healthy runs

A read that asks for a part of the file that exists brings a whole block, and a result that
nobody has given in advance is the number of bytes that were read. So harmless events keep
an engine healthy. -/

/-- Neither asks for anything beyond the end of the file nor tells the kernel what to
answer. Waits may still be interrupted, since an interrupted wait is made again. -/
def Event.Harmless (file : Bytes) : Event → Prop
  | .call (@Call.submitReads _ _ target _ _) => target.size.toNat ≤ file.size
  | .inject _ => False
  | _ => True

namespace Ledger

open Engine

variable {e e₀ : Engine SimulatedKernel} {l : Ledger} {n : UInt32}
variable {kernel : SimulatedKernel} {capacity serial start : UInt32} {config : PoolConfig}
  {mappings : MappingAnswers}

theorem healthy_reaped (h : l.engine.Healthy) (htracks : l.Tracks e₀ n) (modes : List ReapMode)
    (completions : List Completion) : (l.reaped modes completions).engine.Healthy := by
  obtain ⟨_, _, -, -, hcarries⟩ := reapsAll_reapAll htracks.consistent modes
  exact hcarries.healthy h

/-- A harmless event keeps the engine healthy. -/
theorem healthy_step (h : l.engine.Healthy) (htracks : l.Tracks e₀ n)
    (hsize : l.engine.blockSize < 2 ^ 31) {event : Event}
    (hevent : event.Harmless l.engine.ring.kernel.file) : (l.step event).engine.Healthy := by
  cases event with
  | call call =>
    cases call with
    | submitReads target requested policy =>
      obtain ⟨-, -, -, -, hhealthy⟩ :=
        submitReads_outcome htracks.consistent target requested policy
      exact hhealthy h hsize hevent
    | reap mode => exact healthy_reaped h htracks [mode] _
    | drain mode => exact healthy_reaped h htracks _ _
    | release token =>
      rcases hcheck : l.engine.pool.check token with err | _
      · rw [Ledger.step, release_of_error hcheck]
        exact h
      · have hblock : (l.engine.release token).2.blockSize = l.engine.blockSize :=
          congrArg PoolConfig.blockSize (Pool.moves_release hcheck).config_eq
        refine ⟨h.injected_eq, h.stalled_eq, fun c hc => ?_⟩
        exact (h.whole c hc).trans (congrArg Nat.cast hblock.symm)
  | inject res => cases hevent
  | interrupt => exact ⟨h.injected_eq, h.stalled_eq, h.whole⟩

/-- So an engine that was made healthy stays so through harmless events. -/
theorem healthy_run (h : l.engine.Healthy) (htracks : l.Tracks e₀ n)
    (hsize : e₀.blockSize < 2 ^ 31) {events : List Event}
    (hevents : ∀ event ∈ events, event.Harmless e₀.ring.kernel.file) :
    (l.run events).engine.Healthy := by
  induction events generalizing l with
  | nil => exact h
  | cons event rest ih =>
    obtain ⟨hevent, hrest⟩ := List.forall_mem_cons.mp hevents
    refine ih (healthy_step h htracks ?_ ?_) (tracks_step htracks event) hrest
    · rw [htracks.blockSize_eq]
      exact hsize
    · rw [htracks.settings.file_eq]
      exact hevent

/-- An engine that was just created is healthy, if its kernel is. -/
theorem healthy_opening (hleads : kernel.LeadsTo n [] (opening e start).engine.ring.kernel)
    (hinjected : kernel.injected = []) (hstalled : kernel.stalled = false) :
    (opening e start).engine.Healthy := by
  refine ⟨hleads.injected_eq.trans hinjected, hleads.settings.stalled_eq.trans hstalled, ?_⟩
  rw [hleads.queues.queued_eq]
  exact nofun

/-- After every harmless run of an engine whose kernel withholds nothing, has no limit and
was told no results, calls succeed. A submission takes as many reads as there is room for,
as long as block numbers last, and fails otherwise only if the system refuses to map memory
for a block. A blocking reap returns a completion just when reads are in flight, one that
does not wait just when something is posted, and drains do not fail. Each completion that
was returned, and not given back since, has data and can be given back. -/
theorem calls_succeed (hcreate : Engine.create kernel capacity serial config mappings = .ok e)
    (hlimit : kernel.acceptLimit = none) (hpending : kernel.pending = [])
    (hinjected : kernel.injected = []) (hstalled : kernel.stalled = false)
    (hsize : config.blockSize < 2 ^ 31) (start : UInt32) (events : List Event)
    (hevents : ∀ event ∈ events, event.Harmless kernel.file) :
    let l := (opening e start).run events
    l.engine.inFlight ≤ l.engine.capacity ∧
      (∀ {π : Type} [OffsetPolicy π] (target : ReadTarget) (requested : UInt32) (policy : π),
        config.blockSize ≤ target.size.toNat →
        (l.engine.submitReads target requested policy).2.1.pool.size < UInt32.size →
        (l.engine.submitReads target requested policy).1 =
            .ok (min requested (l.engine.capacity - l.engine.inFlight)) ∨
          ∃ err, some err ∈ mappings ∧
            (l.engine.submitReads target requested policy).1 = .error (.alloc err)) ∧
      (l.engine.inFlight = 0 → (l.engine.reap .blocking).1 = .ok none) ∧
      (l.engine.inFlight ≠ 0 →
        ∃ completion, (l.engine.reap .blocking).1 = .ok (some completion)) ∧
      (l.engine.ring.ready = 0 → (l.engine.reap .nonBlocking).1 = .ok none) ∧
      (l.engine.ring.ready ≠ 0 →
        ∃ completion, (l.engine.reap .nonBlocking).1 = .ok (some completion)) ∧
      (∀ mode, ∃ completions, (l.engine.drain mode).1 = .ok completions) ∧
      ∀ d ∈ l.owned, (∃ bytes, l.engine.data d.completion.token = .ok bytes) ∧
        (l.engine.release d.completion.token).1 = .ok () := by
  intro l
  obtain ⟨hopening, hleads⟩ := tracks_opening hcreate hlimit hpending start
  have htracks : l.Tracks (opening e start).engine e.capacity := tracks_run hopening events
  have hblock := blockSize_opening hcreate start
  have hhealthy : l.engine.Healthy := by
    refine healthy_run (healthy_opening hleads hinjected hstalled) hopening ?_ ?_
    · rw [hblock]
      exact hsize
    · rw [hleads.settings.file_eq]
      exact hevents
  -- that tokens are good needs no health, only that completions are secured
  have hsecured : l.Secured := secured_run (secured_opening e start) hopening events
  have h := htracks.consistent
  obtain ⟨hidle, hbusy⟩ := hhealthy.reap_blocking h
  obtain ⟨hempty, hposted⟩ := hhealthy.reap_nonBlocking h
  refine ⟨?_, ?_, hidle, hbusy, hempty, hposted, hhealthy.drain_eq_ok h, fun d hd => ⟨?_, ?_⟩⟩
  · rw [h.capacity_eq, UInt32.le_iff_toNat_le, h.inFlight_eq]
    exact h.length_le
  · intro π _ target requested policy hwhole hlt
    refine (submitReads_eq_ok h ((htracks.blockSize_eq.trans hblock).trans_le hwhole) hlt).imp_right
      fun ⟨err, hmem, herror⟩ => ⟨err, ?_, herror⟩
    rw [← mappings_opening hcreate start]
    exact htracks.mappings_suffix.subset hmem
  · obtain ⟨-, -, -, -, -, bytes, hbytes, -⟩ := (hsecured d hd).data_eq
    exact ⟨bytes, hbytes⟩
  · exact (Pool.release_ok (hsecured d hd).check_eq_ok).1

/-- After two reversed batches on a kernel that defers, an interrupted wait, and completion
indices that wrap on the way, three reads are in flight and none is posted. The next
submission takes the one read for which there is room, and the next reap waits for a
completion. -/
theorem calls_succeed_after_interrupt :
    ∃ e : Engine SimulatedKernel,
      Engine.create
          { file := SimulatedKernel.patternedFile 4 8, deferred := true, reversed := true } 4 7
          { blockSize := 8, alignment := 8 } = .ok e ∧
        let l := (opening e 4294967295).run
          [.call (.submitReads ⟨3, 32⟩ 2 ({} : Walker)), .interrupt, .call (.drain .blocking),
            .call (.submitReads ⟨3, 17⟩ 3 (⟨3⟩ : Walker))]
        l.engine.inFlight = 3 ∧ l.engine.ring.ready = 0 ∧ l.owned.length = 2 ∧
          (l.engine.submitReads ⟨3, 32⟩ 9 ({} : Walker)).1 = .ok 1 ∧
          (l.engine.reap .nonBlocking).1 = .ok none ∧
          (∃ completion, (l.engine.reap .blocking).1 = .ok (some completion)) ∧
          ∀ d ∈ l.owned, (l.engine.release d.completion.token).1 = .ok () := by
  have hevents : ∀ event ∈ ([.call (.submitReads ⟨3, 32⟩ 2 ({} : Walker)), .interrupt,
      .call (.drain .blocking), .call (.submitReads ⟨3, 17⟩ 3 (⟨3⟩ : Walker))] : List Event),
      event.Harmless (SimulatedKernel.patternedFile 4 8) := by
    simp only [List.forall_mem_cons, Event.Harmless]
    exact ⟨by decide, trivial, trivial, by decide, nofun⟩
  -- all arguments by position: the two configurations cannot be told from the goal
  have h := @calls_succeed _
    { file := SimulatedKernel.patternedFile 4 8, deferred := true, reversed := true } 4 7
    { blockSize := 8, alignment := 8 } [] rfl rfl rfl rfl rfl (by decide) 4294967295 _ hevents
  obtain ⟨-, hsubmit, -, hbusy, hempty, -, -, howned⟩ := h
  refine ⟨_, rfl, ?_, ?_, ?_, ?_, ?_, ?_, ?_⟩
  · decide +kernel
  · decide +kernel
  · decide +kernel
  · rcases hsubmit ⟨3, 32⟩ 9 ({} : Walker) (by decide) (by decide +kernel) with hok | ⟨err, hmem, -⟩
    · rw [hok]
      exact congrArg Except.ok (by decide +kernel)
    · cases hmem
  · exact hempty (by decide +kernel)
  · exact hbusy (by decide +kernel)
  · exact fun d hd => (howned d hd).2

end Ledger

end RingRead
