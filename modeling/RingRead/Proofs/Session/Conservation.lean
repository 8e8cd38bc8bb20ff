import RingRead.Proofs.Engine.Draining
import RingRead.Proofs.Session.Deeds

/-!
# Conservation of reads and blocks

Every read that is in flight when a run starts, or that the run submits, is completed in the
run and counted once, and its block goes back on the free stack.

* **A phase.** `s.Advances target deeds s'` says that successful deeds have led from `s` to
  `s'`: the reads that are accounted for, completed or in flight, have grown by those that
  were submitted, the same blocks are held, and the blocks that circulate go on circulating.
  Topping up does this (`advances_topUp`), and so does reaping, where each block that comes
  back is given back at once (`advances_reapReady`).
* **A run.** Phases are put together by `Advances.trans`. A run that finishes is a sequence
  of them up to a point where it is time to stop, and then one that ends with nothing in
  flight (`Run.finished_cases`).
-/

namespace RingRead

namespace Session

open OffsetPolicy

variable {κ π : Type} {target : ReadTarget} {s s' s'' : Session κ π} {deeds deeds' : List Deed}

/-! ## Giving back

Between a drain and the end of its round the session holds blocks. It counts a read and
gives its block back, and then goes on to the next. If one of these could fail, the blocks
behind it would be lost. -/

/-- `s'` is `s` after the reads in `done` were counted and their blocks given back. The ring
is not touched, so nothing goes in flight or comes out of it. -/
structure Releases (s : Session κ π) (done : List Completion) (s' : Session κ π) : Prop where
  settled : s'.engine.Settled
  ring_eq : s'.engine.ring = s.engine.ring
  policy_eq : s'.policy = s.policy
  reads_eq : s'.meter.totalReads = s.meter.totalReads + done.length
  givesBack : s.engine.pool.GivesBack (done.map Completion.token) s'.engine.pool

/-- Blocks that are held can be given back, one after the other. -/
theorem releaseAll_ok {done : List Completion} (h : s.engine.Settled)
    (hnodup : (done.map fun c => c.token.id.toNat).Nodup)
    (hcheck : ∀ c ∈ done, s.engine.pool.check c.token = .ok ()) :
    ∃ s', releaseAll done s = (.ok (), s') ∧ s.Releases done s' := by
  induction done generalizing s with
  | nil => exact ⟨s, rfl, h, rfl, rfl, rfl, Pool.GivesBack.refl _⟩
  | cons done rest ih =>
    obtain ⟨hnot, hnodup⟩ := List.nodup_cons.mp hnodup
    have hdone := hcheck done List.mem_cons_self
    have hmoves := Pool.moves_release hdone
    let s₁ : Session κ π :=
      { s with
        engine := { s.engine with pool := (s.engine.pool.release done.token).2 }
        meter := s.meter.record }
    have hlends : s.engine.Lends 0 s₁.engine :=
      ⟨h.balanced.sound.release hdone, rfl, Pool.count_release hdone⟩
    have hsettled : s₁.engine.Settled :=
      ⟨hlends.balanced_of_inFlight_eq h.balanced rfl, h.exact.trans hlends.loaned_eq.symm⟩
    have hrelease : s.engine.release done.token = (.ok (), s₁.engine) := by
      obtain ⟨hanswer, -⟩ := Pool.release_ok hdone
      exact Prod.ext hanswer rfl
    obtain ⟨s', hrest, hreleases⟩ := ih hsettled hnodup fun c hc => by
      obtain ⟨hheld, hserial⟩ := Pool.check_eq_ok_iff.mp (hcheck c (List.mem_cons_of_mem _ hc))
      refine Pool.check_eq_ok_iff.mpr ⟨?_, hserial.trans hmoves.serial_eq.symm⟩
      rw [hmoves.state_of_not_mem]
      · exact hheld
      · intro hmem
        exact hnot (List.mem_map.mpr ⟨c, hc, List.mem_singleton.mp hmem⟩)
    refine ⟨s', ?_, hreleases.settled, hreleases.ring_eq, hreleases.policy_eq, ?_,
      hreleases.givesBack.cons hdone⟩
    · rw [releaseAll]
      simp only [hrelease]
      exact hrest
    · rw [hreleases.reads_eq, List.length_cons]
      change s.meter.totalReads + 1 + rest.length = _
      omega

/-- What giving one block back keeps, giving back the blocks of any number of reads
keeps. -/
theorem releaseAll_invariant {P : Engine κ → Prop}
    (hrelease : ∀ e, P e → ∀ token, P (e.release token).2) (h : P s.engine)
    (done : List Completion) : P (releaseAll done s).2.engine := by
  induction done generalizing s with
  | nil => exact h
  | cons done rest ih =>
    have hone := hrelease s.engine h done.token
    rw [releaseAll]
    rcases hreleased : s.engine.release done.token with ⟨err | _, engine⟩
    all_goals rw [hreleased] at hone
    · exact hone
    · exact ih hone

/-- Giving blocks back puts nothing in flight, and takes nothing out of it. -/
theorem balanced_releaseAll (h : s.engine.Balanced) (done : List Completion) :
    (releaseAll done s).2.engine.Balanced ∧
      (releaseAll done s).2.engine.inFlight = s.engine.inFlight := by
  apply releaseAll_invariant (P := fun e => e.Balanced ∧ e.inFlight = s.engine.inFlight)
  · rintro e ⟨he, hflight⟩ token
    exact ⟨he.release token, (e.inFlight_release token).trans hflight⟩
  · exact ⟨h, rfl⟩

variable [Kernel κ]

/-- What reaps and releases keep, the reaping of a session keeps. -/
theorem reapReady_invariant {P : Engine κ → Prop} (hreap : ∀ e, P e → ∀ mode, P (e.reap mode).2)
    (hrelease : ∀ e, P e → ∀ token, P (e.release token).2) (h : P s.engine) :
    P s.reapReady.2.engine := by
  have hdrained := Engine.drain_invariant hreap h .blocking
  rw [reapReady]
  rcases hdrain : s.engine.drain .blocking with ⟨err | done, engine⟩
  all_goals rw [hdrain] at hdrained
  · exact hdrained
  · exact releaseAll_invariant (s := { s with engine }) hrelease hdrained done

/-- Whatever was drained can be counted and given back. The tokens are those of blocks that
are held, each once. -/
theorem reapReady_of_drain {done : List Completion} {engine : Engine κ} (h : s.engine.Settled)
    (hdrain : s.engine.drain .blocking = (.ok done, engine)) :
    ∃ s', s.reapReady = (.ok (), s') ∧ s.engine.Drains done engine ∧
      Releases { s with engine } done s' := by
  have hdrains := Engine.drains_of_ok h hdrain
  have hnodup : (done.map fun c => c.token.id.toNat).Nodup := by
    simpa [Function.comp_def] using hdrains.collects.nodup
  obtain ⟨s', hrelease, hreleases⟩ :=
    releaseAll_ok (s := { s with engine }) hdrains.settled hnodup fun c hc =>
      hdrains.collects.check_eq_ok c.token (List.mem_map_of_mem hc)
  refine ⟨s', ?_, hdrains, hreleases⟩
  rw [reapReady, hdrain]
  exact hrelease

/-- A reap that succeeds is a drain of which every read is counted and given back. -/
theorem reapReady_ok (h : s.engine.Settled) (hok : s.reapReady = (.ok (), s')) :
    ∃ done engine, s.engine.drain .blocking = (.ok done, engine) ∧ s.engine.Drains done engine ∧
      Releases { s with engine } done s' := by
  rcases hdrain : s.engine.drain .blocking with ⟨err | done, engine⟩
  · rw [reapReady, hdrain] at hok
    cases hok
  · obtain ⟨s₁, hready, hdrains, hreleases⟩ := reapReady_of_drain h hdrain
    obtain rfl : s₁ = s' := congrArg Prod.snd (hready.symm.trans hok)
    exact ⟨done, engine, rfl, hdrains, hreleases⟩

/-- A reap with reads in flight completes at least one of them. Its first reap waits if it
has to. -/
theorem inFlight_lt_of_reapReady (h : s.engine.Balanced) (hflight : s.engine.inFlight ≠ 0)
    (hok : s.reapReady = (.ok (), s')) :
    s'.engine.inFlight.toNat < s.engine.inFlight.toNat := by
  have hpos : 0 < s.engine.inFlight := UInt32.pos_iff_ne_zero.mpr hflight
  have hdrained := h.drain .blocking
  rw [reapReady] at hok
  rcases hdrain : s.engine.drain .blocking with ⟨err | done, engine⟩
  · rw [hdrain] at hok
    cases hok
  · rw [hdrain] at hok hdrained
    have hless := Engine.inFlight_lt_of_drain h.sound hpos hdrain
    obtain ⟨-, hkept⟩ := balanced_releaseAll (s := { s with engine }) hdrained done
    dsimp only at hok
    rw [hok] at hkept
    rw [hkept]
    exact UInt32.lt_iff_toNat_lt.mp hless

variable [OffsetPolicy π]

/-! ## Phases

A phase is what successful deeds have in common, however many they are. It keeps count of
the reads, and says of the blocks that none is lost and none is gained. -/

/-- The reads that are accounted for: those completed, and those in flight. A submission
raises this number. A reap lowers it until the read is recorded, and for good only if it
fails. -/
def accounted (s : Session κ π) : Nat := s.meter.totalReads + s.engine.inFlight.toNat

/-- Successful deeds have led from `s` to `s'`. Whatever they were, this is how the reads
and blocks of the two sessions are related. -/
structure Advances (target : ReadTarget) (s : Session κ π) (deeds : List Deed)
    (s' : Session κ π) : Prop where
  perform_eq : s.performAll target deeds = s'
  settled : s'.engine.Settled
  capacity_eq : s'.engine.capacity = s.engine.capacity
  config_eq : s'.engine.pool.config = s.engine.pool.config
  accounted_eq : s'.accounted = s.accounted + s.submitted target deeds
  reads_eq : s'.meter.totalReads = s.meter.totalReads + (s.reaped target deeds).length
  policy_eq : s'.policy =
    asked s.policy (target.blocks s.engine.blockSize) (s.submitted target deeds)
  held_iff : ∀ id, s'.engine.pool.state? id = some .held ↔ s.engine.pool.state? id = some .held
  circulates : ∀ id, s.engine.pool.Circulates id → s'.engine.pool.Circulates id
  reaped : ∀ done ∈ s.reaped target deeds, s'.engine.pool.Circulates done.token.id.toNat

theorem Advances.refl (h : s.engine.Settled) : s.Advances target [] s :=
  ⟨rfl, h, rfl, rfl, rfl, rfl, rfl, fun _ => Iff.rfl, fun _ hid => hid, nofun⟩

/-- One phase after another is a phase. What was submitted and reaped adds up. -/
theorem Advances.trans (h : s.Advances target deeds s') (h' : s'.Advances target deeds' s'') :
    s.Advances target (deeds ++ deeds') s'' := by
  have hsize : s'.engine.blockSize = s.engine.blockSize :=
    congrArg PoolConfig.blockSize h.config_eq
  refine ⟨?_, h'.settled, h'.capacity_eq.trans h.capacity_eq, h'.config_eq.trans h.config_eq,
    ?_, ?_, ?_, fun id => (h'.held_iff id).trans (h.held_iff id),
    fun id hid => h'.circulates id (h.circulates id hid), ?_⟩
  · rw [performAll_append, h.perform_eq, h'.perform_eq]
  · rw [submitted_append, h.perform_eq, h'.accounted_eq, h.accounted_eq, Nat.add_assoc]
  · rw [reaped_append, h.perform_eq, h'.reads_eq, h.reads_eq, List.length_append, Nat.add_assoc]
  · rw [submitted_append, h.perform_eq, h'.policy_eq, h.policy_eq, hsize, asked_add]
  · rw [reaped_append, h.perform_eq]
    intro done hdone
    rcases List.mem_append.mp hdone with hdone | hdone
    · exact h'.circulates _ (h.reaped done hdone)
    · exact h'.reaped done hdone

omit [Kernel κ] [OffsetPolicy π] in
theorem totalReads_tick (s : Session κ π) (now : Nat) :
    (s.tick now).2.meter.totalReads = s.meter.totalReads := by
  simp only [tick, Meter.tick]
  split
  · rfl
  · rfl

/-- Looking at the clock touches neither engine nor policy nor the count of reads. -/
theorem advances_tick (h : s.engine.Settled) (now : Nat) :
    s.Advances target [.tick now] (s.tick now).2 := by
  have hreads := s.totalReads_tick now
  refine ⟨rfl, h, rfl, rfl, ?_, hreads, rfl, fun _ => Iff.rfl, fun _ hid => hid, nofun⟩
  exact congrArg (· + s.engine.inFlight.toNat) hreads

/-! ## Topping up

Topping up asks the policy as often as it submits reads, and submits as many as it has
answered. If nothing is wanted, nothing is done. -/

/-- Topping up succeeds only within the depth. There it does so where nothing is wanted, and
where what is wanted is submitted. -/
theorem topUp_ok {config : SessionConfig} {depth : UInt32}
    (hok : s.topUp target config depth = (.ok (), s')) :
    s.engine.inFlight ≤ depth ∧
      ((s.wanted config depth = 0 ∧ s' = s) ∨
        (s.wanted config depth ≠ 0 ∧ ∃ count engine policy,
          s.engine.submitReads target (s.wanted config depth) s.policy =
            (.ok count, engine, policy) ∧ s' = { s with engine, policy })) := by
  by_cases hlt : depth < s.engine.inFlight
  · rw [topUp, (want_of_lt config hlt).1] at hok
    cases hok
  have hle := UInt32.not_lt.mp hlt
  rw [topUp_of_le config hle] at hok
  refine ⟨hle, ?_⟩
  split at hok
  · next hwant =>
    cases hok
    exact Or.inl ⟨hwant, rfl⟩
  · next hwant =>
    rcases hsubmit : s.engine.submitReads target (s.wanted config depth) s.policy
      with ⟨err | count, engine, policy⟩
    all_goals
      rw [hsubmit] at hok
      cases hok
    exact Or.inr ⟨hwant, count, engine, policy, rfl, rfl⟩

/-- Topping up advances by what it submits. Where nothing is wanted it submits nothing, and
the engine is not called. -/
theorem advances_topUp {config : SessionConfig} {depth : UInt32} (h : s.engine.Settled)
    (hok : s.topUp target config depth = (.ok (), s')) :
    s.Advances target (s.topUpDeeds config depth) s' := by
  rw [topUpDeeds]
  rcases (topUp_ok hok).2 with ⟨hwant, rfl⟩ | ⟨hwant, count, engine, policy, hsubmit, rfl⟩
  · rw [if_pos hwant]
    exact .refl h
  · rw [if_neg hwant]
    obtain ⟨hsubmits, -, hpolicy⟩ := Engine.submits_of_ok h hsubmit
    have hcount : s.submitted target [.submit (s.wanted config depth)] = count.toNat := by
      simp [submitted, submits, hsubmit]
    refine ⟨?_, hsubmits.settled, hsubmits.capacity_eq, hsubmits.config_eq, ?_, rfl, ?_,
      hsubmits.held_iff, hsubmits.circulates, fun c hc => absurd hc List.not_mem_nil⟩
    · simp [performAll, perform, hsubmit]
    · rw [hcount, accounted, hsubmits.inFlight_eq, ← Nat.add_assoc]
      rfl
    · rw [hcount]
      exact hpolicy

/-! ## Reaping

What a drain returns was in flight, and is counted and given back in the same step. So the
number of reads that are accounted for stays what it was. -/

/-- Counting and giving back submits nothing and reaps nothing. -/
theorem yield_releaseDeeds (done : List Completion) (s : Session κ π) :
    s.submitted target (releaseDeeds done s) = 0 ∧ s.reaped target (releaseDeeds done s) = [] := by
  induction done generalizing s with
  | nil => exact ⟨rfl, rfl⟩
  | cons done rest ih =>
    rw [releaseDeeds]
    rcases hrelease : s.engine.release done.token with ⟨err | _, engine⟩
    · exact ⟨rfl, rfl⟩
    · have hperform : (s.perform target .record).perform target (.release done.token) =
          { s with engine, meter := s.meter.record } := by
        simp [perform, hrelease]
      simp only [submitted, submits, reaped, reaps, hperform]
      simpa using ih { s with engine, meter := s.meter.record }

theorem submitted_map_reap (modes : List ReapMode) (s : Session κ π) :
    s.submitted target (modes.map Deed.reap) = 0 := by
  induction modes generalizing s with
  | nil => rfl
  | cons mode modes ih => exact (Nat.zero_add _).trans (ih _)

/-- What the reaps of a collection return is what is collected. -/
theorem reaped_collect {rounds : Nat} {taken done : List Completion} {engine : Engine κ}
    (hok : Engine.collect rounds taken s.engine = (.ok done, engine)) :
    taken.reverse ++ s.reaped target ((Engine.collectModes rounds s.engine).map Deed.reap) =
      done := by
  induction rounds generalizing taken s with
  | zero =>
    cases hok
    exact List.append_nil _
  | succ rounds ih =>
    rw [Engine.collect] at hok
    rw [Engine.collectModes]
    rcases hreap : s.engine.reap .nonBlocking with ⟨abort | (_ | completion), e₁⟩
    · rw [hreap] at hok
      cases hok
    · rw [hreap] at hok
      cases hok
      simp [reaped, reaps, hreap]
    · rw [hreap] at hok
      have hrest := ih (s := { s with engine := e₁ }) hok
      simpa [reaped, reaps, perform, hreap] using hrest

/-- What the reaps of a drain return is what is drained. Nothing is lost between a reap and
its drain if none of them fails. -/
theorem reaped_drain {mode : ReapMode} {done : List Completion} {engine : Engine κ}
    (hok : s.engine.drain mode = (.ok done, engine)) :
    s.reaped target ((s.engine.drainModes mode).map Deed.reap) = done := by
  rw [Engine.drain] at hok
  rw [Engine.drainModes]
  rcases hreap : s.engine.reap mode with ⟨abort | (_ | completion), e₁⟩
  · rw [hreap] at hok
    cases hok
  · rw [hreap] at hok
    cases hok
    simp [reaped, reaps, hreap]
  · rw [hreap] at hok
    have hrest : _ ++ reaped target { s with engine := e₁ } _ = done := reaped_collect hok
    simpa [reaped, reaps, perform, hreap] using hrest

/-- Whatever is reaped was in flight before, and is counted and given back. -/
theorem advances_reapReady (h : s.engine.Settled) (hok : s.reapReady = (.ok (), s')) :
    s.Advances target s.reapDeeds s' := by
  obtain ⟨done, engine, hdrain, hdrains, hreleases⟩ := reapReady_ok h hok
  have hcollects := hdrains.collects
  have hdeeds : s.reapDeeds =
      (s.engine.drainModes .blocking).map Deed.reap ++ releaseDeeds done { s with engine } := by
    simp only [reapDeeds, hdrain]
  -- the deeds fall into the drain and the releases; only the drain brings reads back
  have hdrained : s.performAll target ((s.engine.drainModes .blocking).map Deed.reap) =
      { s with engine } := by
    rw [performAll_drain, hdrain]
  obtain ⟨hsubmits, hreaps⟩ : submitted target { s with engine } _ = 0 ∧ _ :=
    yield_releaseDeeds done { s with engine }
  have hsubmitted : s.submitted target s.reapDeeds = 0 := by
    rw [hdeeds, submitted_append, hdrained, submitted_map_reap, hsubmits]
  have hreaped : s.reaped target s.reapDeeds = done := by
    rw [hdeeds, reaped_append, hdrained, reaped_drain hdrain, hreaps, List.append_nil]
  have hflight := hdrains.inFlight_eq
  have hring : s'.engine.inFlight = engine.inFlight := congrArg Ring.inFlight hreleases.ring_eq
  have hreads : s'.meter.totalReads = s.meter.totalReads + done.length := hreleases.reads_eq
  have hcapacity : s'.engine.capacity = engine.capacity :=
    congrArg Ring.capacity hreleases.ring_eq
  refine ⟨?_, hreleases.settled, hcapacity.trans hdrains.capacity_eq,
    hreleases.givesBack.config_eq.trans hcollects.config_eq, ?_, ?_, ?_,
    fun id => hcollects.held_iff hreleases.givesBack id,
    fun id hid => hcollects.circulates hreleases.givesBack hid, ?_⟩
  · rw [performAll_reapDeeds, hok]
  · rw [hsubmitted, accounted, accounted, hring, hreads]
    omega
  · rw [hreaped, hreads]
  · rw [hsubmitted]
    exact hreleases.policy_eq
  · rw [hreaped]
    intro c hc
    exact Or.inr ⟨_, hreleases.givesBack.mem_free (List.mem_map_of_mem hc), rfl⟩

/-! ## Rounds

A round is a reap and a batch. Shutting down is a number of reaps, as many as it takes. -/

/-- A round that succeeds has reaped and then topped up, and both have succeeded. -/
theorem exchange_ok {config : SessionConfig} {depth : UInt32}
    (hok : s.exchange target config depth = (.ok (), s')) :
    ∃ reaped, s.reapReady = (.ok (), reaped) ∧
      reaped.topUp target config depth = (.ok (), s') := by
  rw [exchange] at hok
  rcases hreap : s.reapReady with ⟨abort | _, reaped⟩
  · rw [hreap] at hok
    cases hok
  · rw [hreap] at hok
    exact ⟨reaped, rfl, hok⟩

/-- A round advances by its reap and its batch together. -/
theorem advances_exchange {config : SessionConfig} {depth : UInt32} (h : s.engine.Settled)
    (hok : s.exchange target config depth = (.ok (), s')) :
    s.Advances target (s.exchangeDeeds config depth) s' := by
  obtain ⟨reaped, hreap, htop⟩ := exchange_ok hok
  have hreaped : s.Advances target s.reapDeeds reaped := advances_reapReady h hreap
  rw [exchangeDeeds, hreap]
  exact hreaped.trans (advances_topUp hreaped.settled htop)

/-- Waiting for the reads in flight completes them all. Each round takes one at least, so as
many rounds as there are reads in flight are enough. -/
theorem advances_shutDownWithin {rounds : Nat} (h : s.engine.Settled)
    (hrounds : s.engine.inFlight.toNat ≤ rounds) (hok : shutDownWithin rounds s = (.ok (), s')) :
    s.Advances target (shutDownDeeds rounds s) s' ∧ s'.engine.inFlight = 0 := by
  induction rounds generalizing s with
  | zero =>
    cases hok
    exact ⟨.refl h, UInt32.toNat_inj.mp (Nat.le_zero.mp hrounds)⟩
  | succ rounds ih =>
    rw [shutDownWithin] at hok
    rw [shutDownDeeds]
    split at hok
    · next hidle =>
      cases hok
      rw [if_pos hidle]
      exact ⟨.refl h, hidle⟩
    · next hbusy =>
      rw [if_neg hbusy]
      rcases hreap : s.reapReady with ⟨abort | _, s₁⟩
      · rw [hreap] at hok
        cases hok
      · rw [hreap] at hok
        have hreaped : s.Advances target s.reapDeeds s₁ := advances_reapReady h hreap
        have hlt := inFlight_lt_of_reapReady h.balanced hbusy hreap
        obtain ⟨hrest, hidle⟩ := ih hreaped.settled (by omega) hok
        exact ⟨hreaped.trans hrest, hidle⟩

end Session

/-! ## Runs

A run that finishes is made of phases alone, as one that fails is not: the last of its steps
has no phase. At its end nothing is in flight, so the reads that are accounted for are those
that were completed. -/

variable {κ π : Type} [Kernel κ] [OffsetPolicy π]

/-- A run that finishes advances round by round to a point where it is time to stop. From
there it advances until nothing is in flight, and the summary is taken. -/
theorem Run.finished_cases {around : Surroundings π} {target : ReadTarget} {config : SessionConfig}
    {depth : UInt32} {allowed reading : Nat} {reports : List IntervalReport} {rounds : Nat}
    {s : Session κ π} {summary : RunSummary} (h : s.engine.Settled)
    (hfinished : (Run.loop around target config depth allowed reading reports rounds s).outcome =
      .finished summary) :
    ∃ deeds deeds' stopping last now reason reading',
      Run.deeds around target config depth allowed reading s = deeds ++ deeds' ∧
        s.Advances target deeds stopping ∧
        stopping.stopReason? config (around.clock reading')
          (around.stop stopping.policy reading') = some reason ∧
        stopping.Advances target deeds' last ∧ last.engine.inFlight = 0 ∧
        summary = last.summary depth now reason := by
  induction allowed generalizing reading reports rounds s with
  | zero => cases hfinished
  | succ allowed ih =>
    rw [Run.loop_succ] at hfinished
    rw [Run.deeds]
    rcases hstop : s.stopReason? config (around.clock reading) (around.stop s.policy reading)
      with _ | reason
    · rw [hstop] at hfinished
      dsimp only at hfinished ⊢
      rcases hexchange : s.exchange target config depth with ⟨abort | _, s₁⟩
      · rw [hexchange] at hfinished
        exact absurd hfinished (RunOutcome.ofAbort_ne_finished abort summary)
      · rw [hexchange] at hfinished
        -- a round that goes on: its deeds stand before those of the rest of the run
        have hround := Session.advances_exchange h hexchange
        have htick : s₁.Advances target _ _ :=
          Session.advances_tick hround.settled (around.clock (reading + 1))
        obtain ⟨deeds, deeds', stopping, last, now, reason, reading', hdeeds, hadvances, hrest⟩ :=
          ih htick.settled hfinished
        refine ⟨_, deeds', stopping, last, now, reason, reading', ?_,
          hround.trans (htick.trans hadvances), hrest⟩
        dsimp only
        rw [hdeeds]
        simp
    · rw [hstop] at hfinished
      dsimp only at hfinished ⊢
      rw [Session.shutDown] at hfinished
      rcases hshut : Session.shutDownWithin s.engine.inFlight.toNat s with ⟨abort | _, last⟩
      · rw [hshut] at hfinished
        exact absurd hfinished (RunOutcome.ofAbort_ne_finished abort summary)
      · rw [hshut] at hfinished
        obtain ⟨hadvances, hidle⟩ : s.Advances target _ last ∧ _ :=
          Session.advances_shutDownWithin h (Nat.le_refl _) hshut
        exact ⟨[], _, s, last, _, reason, reading, rfl, .refl h, hstop, hadvances, hidle,
          (RunOutcome.finished.inj hfinished).symm⟩

namespace Engine

variable {e : Engine κ} {target : ReadTarget} {config : SessionConfig} {policy : π}
  {around : Surroundings π} {allowed : Nat} {summary : RunSummary}

/-- A run on an engine that finishes advances to a point where it is time to stop, and from
there to the end, where nothing is in flight. -/
theorem finished_cases (h : e.Settled)
    (hfinished : (e.run target config policy around allowed).outcome = .finished summary) :
    ∃ deeds deeds' stopping last now reason reading,
      e.deeds target config policy around allowed = deeds ++ deeds' ∧
        (e.session config policy around).Advances target deeds stopping ∧
        stopping.stopReason? config (around.clock reading)
          (around.stop stopping.policy reading) = some reason ∧
        stopping.Advances target deeds' last ∧ last.engine.inFlight = 0 ∧
        summary = last.summary (Session.depth config e) now reason := by
  rw [run] at hfinished
  rw [deeds]
  rcases hfault : config.fault? with _ | fault
  · rw [hfault] at hfinished
    exact Run.finished_cases (s := e.session config policy around) h hfinished
  · rw [hfault] at hfinished
    cases hfinished

/-- Whatever made a run stop, when it has finished nothing is in flight and no block is on
loan. The same blocks are held as before, and every block that was reaped is back on the
free stack. The reads that it counted are those that were in flight before and those that it
submitted, for each of which the policy was asked once; each of them was reaped once. -/
theorem conserved_of_finished {policy : Counted π} {around : Surroundings (Counted π)}
    (h : e.Reachable) (hexact : e.inFlight.toNat = e.loaned)
    (hfinished : (e.run target config policy around allowed).outcome = .finished summary) :
    let run := e.run target config policy around allowed
    let submitted := (e.session config policy around).submitted target
      (e.deeds target config policy around allowed)
    let reaped := (e.session config policy around).reaped target
      (e.deeds target config policy around allowed)
    run.engine.inFlight = 0 ∧ (∀ id, run.engine.pool.state? id ≠ some .loaned) ∧
      (∀ id, run.engine.pool.state? id = some .held ↔ e.pool.state? id = some .held) ∧
      (∀ done ∈ reaped, done.token.id ∈ run.engine.pool.free) ∧
      summary.reads = reaped.length ∧ summary.reads = e.loaned + submitted ∧
      run.policy.calls = policy.calls + submitted ∧
      (summary.reads * e.blockSize < UInt64.size →
        summary.bytes.toNat = summary.reads * e.blockSize) ∧
      summary.queueDepth = min config.queueDepth e.capacity ∧
      summary.poolBlocks = run.engine.pool.size := by
  intro run submitted reaped
  obtain ⟨deeds, deeds', stopping, last, now, reason, reading, hdeeds, hround, -, hend, hidle,
    rfl⟩ := finished_cases ⟨h.balanced, hexact⟩ hfinished
  have hadvances := hround.trans hend
  rw [← hdeeds] at hadvances
  obtain ⟨hengine, hpolicy⟩ := performAll_deeds e target config policy around allowed
  rw [hadvances.perform_eq] at hengine hpolicy
  change run.engine = last.engine at hengine
  change run.policy = last.policy at hpolicy
  rw [hengine, hpolicy]
  have hnone := hadvances.settled.state?_ne_loaned hidle
  refine ⟨hidle, hnone, hadvances.held_iff, ?_, ?_, ?_, ?_, ?_, rfl, rfl⟩
  · intro done hdone
    obtain hloaned | ⟨n, hn, heq⟩ := hadvances.reaped done hdone
    · exact absurd hloaned (hnone _)
    · exact UInt32.toNat_inj.mp heq ▸ hn
  · exact hadvances.reads_eq.trans (Nat.zero_add _)
  -- nothing is in flight in the end, so all that was accounted for was read
  · have haccounted := hadvances.accounted_eq
    simp only [Session.accounted, hidle] at haccounted
    change last.meter.totalReads + 0 = 0 + e.inFlight.toNat + submitted at haccounted
    rw [Nat.zero_add, hexact] at haccounted
    exact haccounted
  · rw [hadvances.policy_eq]
    exact OffsetPolicy.calls_asked ..
  · intro hlt
    have hsize : last.engine.blockSize = e.blockSize :=
      congrArg PoolConfig.blockSize hadvances.config_eq
    change (UInt64.ofNat (last.meter.totalReads * last.engine.blockSize)).toNat = _
    rw [hsize]
    exact UInt64.toNat_ofNat_of_lt' hlt

/-- Two reads are in flight when a run starts, and the block of a third one is held. The run
is stopped by a signal after two rounds. -/
theorem conserved_of_signal :
    ∃ e₀ : Engine SimulatedKernel,
      create { file := SimulatedKernel.patternedFile 4 8, deferred := true } 4 7
        { blockSize := 8, alignment := 8 } = .ok e₀ ∧
        let e := e₀.performAll [.submitReads ⟨3, 32⟩ 3 ({} : Walker), .reap .blocking]
        let run := e.run ⟨3, 32⟩ { queueDepth := 8 } ({ policy := {} } : Counted Walker)
          { clock := id, stop := fun _ reading => reading = 5 } 9
        e.inFlight.toNat = e.loaned ∧ e.loaned = 2 ∧ e.pool.state? 0 = some .held ∧
          ∃ summary, run.outcome = .finished summary ∧ summary.stoppedBy = .signal ∧
            summary.reads = 10 ∧ run.engine.inFlight = 0 ∧
            (∀ id, run.engine.pool.state? id ≠ some .loaned) ∧
            run.engine.pool.state? 0 = some .held ∧
            (summary.reads * e.blockSize < UInt64.size →
              summary.bytes.toNat = summary.reads * e.blockSize) := by
  have hconserved {e₀ : Engine SimulatedKernel}
      (hcreate : create { file := SimulatedKernel.patternedFile 4 8, deferred := true } 4 7
        { blockSize := 8, alignment := 8 } = .ok e₀) (calls : List Call) (summary : RunSummary) :=
    @conserved_of_finished _ Walker _ _ _ ⟨3, 32⟩ { queueDepth := 8 } 9 summary { policy := {} }
      { clock := id, stop := fun _ reading => reading = 5 }
      ((Reachable.created hcreate).performAll calls)
  refine ⟨_, rfl, ?exact, ?_, ?held, ⟨4, 8, none, 10, 6, 5, .signal⟩, ?finished, rfl, rfl, ?_⟩
  · decide +kernel
  · decide +kernel
  · decide +kernel
  · decide +kernel
  · obtain ⟨hidle, hnone, hheld, -, -, -, -, hbytes, -⟩ := hconserved rfl _ _ ?exact ?finished
    exact ⟨hidle, hnone, (hheld 0).mpr ?held, hbytes⟩

end Engine

end RingRead
